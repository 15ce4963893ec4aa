import MailPush.Proofs.Json.Passing

set_option autoImplicit false

/-! # Readers stop where values end

What is read of a value and what is passed over of it are the same bytes (`Reader.Aligned`). The two
go about it in different ways: a string that is read has its surrogates joined, and an array is read
item by item but passed over with its bracket on a stack. So a reader that succeeds on a well-formed
value has come to its end, whatever is behind it (`Reader.Aligned.rest_eq`).
-/

namespace MailPush.Json

/-- A reader stops where passing over the value stops, whatever brackets are open. -/
def Reader.Aligned {α : Type} (r : Reader α) : Prop :=
  ∀ bs a rest, r.run bs = .ok (a, rest) → ∀ stack, skipOpen stack bs = resume stack rest

/-- **A reader that succeeds on a well-formed value has come to its end.** -/
theorem Reader.Aligned.rest_eq {α : Type} {r : Reader α} (h : r.Aligned) {ws t rest rest' : Bytes}
    {a : α} (hws : Blank ws) (ht : WellFormed .value t) (hrest : Ends rest)
    (hr : r.run (ws ++ (t ++ rest)) = .ok (a, rest')) : rest' = rest := by
  have hread := h _ _ _ hr []
  rw [skipOpen_blank hws, ht.passed [] rest hrest, resume_nil, resume_nil] at hread
  exact (Except.ok.inj hread).symm

/-! ## Open brackets below -/

/-- What is left after a step, when there are more brackets below those that it knows. -/
def onto (stack : List Frame) :
    Except Fault (List Frame × Bytes) → Except Fault (List Frame × Bytes)
  | .error fault => .error fault
  | .ok ([], rest) => skipToNext stack rest
  | .ok (frame :: inner, rest) => .ok (frame :: (inner ++ stack), rest)

theorem skipToNext_append (inner stack : List Frame) (bs : Bytes) :
    skipToNext (inner ++ stack) bs = onto stack (skipToNext inner bs) := by
  induction inner generalizing bs with
  | nil => rfl
  | cons frame inner ih =>
      rw [List.cons_append, skipToNext, skipToNext]
      split
      next => rfl
      next b rest hblank =>
        by_cases hcomma : b = byte ','
        · rw [if_pos hcomma, if_pos hcomma]
          cases skipKey frame rest <;> rfl
        · rw [if_neg hcomma, if_neg hcomma]
          by_cases hclose : b = frame.close
          · rw [if_pos hclose, if_pos hclose, ih]
          · rw [if_neg hclose, if_neg hclose]
            rfl

theorem skipToFirst_append (frame : Frame) (inner stack : List Frame) (bs : Bytes) :
    skipToFirst frame (inner ++ stack) bs = onto stack (skipToFirst frame inner bs) := by
  rw [skipToFirst, skipToFirst]
  split
  next => rfl
  next b rest hblank =>
    by_cases hclose : b = frame.close
    · rw [if_pos hclose, if_pos hclose, skipToNext_append]
    · rw [if_neg hclose, if_neg hclose]
      cases skipKey frame (b :: rest) <;> rfl

theorem skipStep_append (inner stack : List Frame) (bs : Bytes) :
    skipStep (inner ++ stack) bs = onto stack (skipStep inner bs) := by
  rw [skipStep, skipStep]
  split
  next => rfl
  next b rest hblank =>
    by_cases harray : b = byte '['
    · rw [if_pos harray, if_pos harray, skipToFirst_append]
    · rw [if_neg harray, if_neg harray]
      by_cases hobject : b = byte '\x7b'
      · rw [if_pos hobject, if_pos hobject, skipToFirst_append]
      · rw [if_neg hobject, if_neg hobject]
        cases skipScalar (b :: rest) with
        | error fault => rfl
        | ok rest => exact skipToNext_append inner stack rest

/-- What is passed over of a value does not depend on the brackets below it. -/
theorem skipOpen_append {inner : List Frame} {bs rest : Bytes}
    (h : skipOpen inner bs = .ok rest) (stack : List Frame) :
    skipOpen (inner ++ stack) bs = resume stack rest := by
  fun_induction skipOpen inner bs with
  | case1 => cases h
  | case2 inner bs r hstep =>
      cases h
      rw [skipOpen_eq, skipStep_append, hstep]
      rfl
  | case3 inner bs frame inner' r hstep hlength ih =>
      rw [skipOpen_eq, skipStep_append, hstep]
      exact ih h

/-- A value that is passed over may stand in any bracket. -/
theorem skipOpen_of_skipValue {bs rest : Bytes} (h : skipValue bs = .ok rest)
    (stack : List Frame) : skipOpen stack bs = resume stack rest :=
  skipOpen_append h stack

/-! ## Tokens -/

section Readers

variable {α β : Type} {r : Reader α}

theorem isBlank_of_skipBlank {bs rest : Bytes} {b : UInt8} (h : skipBlank bs = b :: rest) :
    isBlank b = false := by
  have hhead := List.head?_dropWhile_not isBlank bs
  rw [show bs.dropWhile isBlank = b :: rest from h] at hhead
  simpa using hhead

/-- A text is its blanks and what follows them. -/
theorem exists_blank_append {bs rest : Bytes} {b : UInt8} (h : skipBlank bs = b :: rest) :
    ∃ ws, Blank ws ∧ bs = ws ++ b :: rest := by
  refine ⟨bs.takeWhile isBlank, List.all_eq_true.1 List.all_takeWhile, ?_⟩
  rw [← h]
  exact List.takeWhile_append_dropWhile.symm

/-- A reader that looks at the first byte after blanks is judged from there. -/
theorem aligned_of_runToken {read : UInt8 → Bytes → Except Fault (α × Bytes)}
    (hrun : r.run = Reader.runToken read)
    (h : ∀ b bs a rest, isBlank b = false → read b bs = .ok (a, rest) →
      ∀ stack, skipOpen stack (b :: bs) = resume stack rest) : r.Aligned := by
  intro bs a rest hr stack
  rw [hrun, Reader.runToken] at hr
  split at hr
  next => cases hr
  next b bs' hblank =>
    obtain ⟨ws, hws, rfl⟩ := exists_blank_append hblank
    rw [skipOpen_blank hws]
    exact h b bs' a rest (isBlank_of_skipBlank hblank) hr stack

theorem refuse_ne_ok {b : UInt8} {bs rest : Bytes} {a : α} : refuse b bs ≠ .ok (a, rest) :=
  fun h => nomatch h

theorem Reader.Aligned.map (h : r.Aligned) (f : α → β) : (r.map f).Aligned := by
  intro bs b rest hr stack
  obtain ⟨⟨a, r'⟩, ha, hr⟩ := bind_eq_ok_iff.1 hr
  cases hr
  exact h _ _ _ ha stack

/-- A word is a scalar. -/
theorem skipOpen_word {word : String} {b : UInt8} {bs rest : Bytes} {a a' : α}
    (hblank : isBlank b = false) (hopen : b ≠ byte '[' ∧ b ≠ byte '\x7b')
    (hscalar : skipScalar (b :: bs) = skipLiteral (bytesOf word) bs)
    (hr : readWord word a bs = .ok (a', rest)) (stack : List Frame) :
    skipOpen stack (b :: bs) = resume stack rest := by
  refine skipOpen_scalar stack hblank hopen ?_
  rw [hscalar]
  rw [readWord] at hr
  cases hskip : skipLiteral (bytesOf word) bs with
  | error fault => rw [hskip] at hr; cases hr
  | ok rest' => rw [hskip] at hr; cases hr; rfl

theorem aligned_bool : boolReader.Aligned := by
  refine aligned_of_runToken rfl fun b bs a rest hblank hr stack => ?_
  split at hr
  next htrue =>
    subst htrue
    exact skipOpen_word hblank (by decide) rfl hr stack
  next =>
    split at hr
    next hfalse =>
      subst hfalse
      exact skipOpen_word hblank (by decide) rfl hr stack
    next => exact absurd hr refuse_ne_ok

/-! ## Numbers -/

theorem skipDigits_of_readDigits {bs digits rest : Bytes} (h : readDigits bs = .ok (digits, rest)) :
    splitDigits bs = (digits, rest) ∧ digits.isEmpty = false ∧ skipDigits bs = .ok rest := by
  rw [readDigits] at h
  rw [skipDigits]
  cases hsplit : splitDigits bs with
  | mk ds rest' =>
      rw [hsplit] at h
      dsimp only at h ⊢
      cases hempty : ds.isEmpty with
      | true => rw [hempty, if_pos rfl] at h; cases h
      | false =>
          rw [hempty] at h
          cases h
          exact ⟨rfl, hempty, rfl⟩

theorem skipFraction_of_readFraction {bs rest : Bytes} {fraction : Option Bytes}
    (h : readFraction bs = .ok (fraction, rest)) : skipFraction bs = .ok rest := by
  cases bs with
  | nil => cases h; rfl
  | cons b bs =>
      rw [readFraction] at h
      rw [skipFraction]
      split at h
      next hpoint =>
        obtain ⟨⟨digits, r⟩, hdigits, h⟩ := bind_eq_ok_iff.1 h
        cases h
        rw [if_pos hpoint]
        exact (skipDigits_of_readDigits hdigits).2.2
      next hpoint =>
        cases h
        rw [if_neg hpoint]

theorem skipExponent_of_readExponent {bs rest : Bytes} {exponent : Option Int}
    (h : readExponent bs = .ok (exponent, rest)) : skipExponent bs = .ok rest := by
  cases bs with
  | nil => cases h; rfl
  | cons b bs =>
      rw [readExponent] at h
      rw [skipExponent]
      split at h
      next hmark =>
        obtain ⟨⟨digits, r⟩, hdigits, h⟩ := bind_eq_ok_iff.1 h
        cases h
        rw [if_pos hmark]
        exact (skipDigits_of_readDigits hdigits).2.2
      next hmark =>
        cases h
        rw [if_neg hmark]

theorem skipMagnitude_of_readMagnitude {negative : Bool} {bs rest : Bytes} {n : Number}
    (h : readMagnitude negative bs = .ok (n, rest)) : skipMagnitude bs = .ok rest := by
  obtain ⟨⟨whole, r₁⟩, hwhole, h⟩ := bind_eq_ok_iff.1 h
  obtain ⟨hsplit, hempty, -⟩ := skipDigits_of_readDigits hwhole
  dsimp only at h
  split at h
  next => cases h
  next hzero =>
    obtain ⟨⟨fraction, r₂⟩, hfraction, h⟩ := bind_eq_ok_iff.1 h
    obtain ⟨⟨exponent, r₃⟩, hexponent, h⟩ := bind_eq_ok_iff.1 h
    have hrest : r₃ = rest := by
      dsimp only at h
      split at h
      · cases h
      · split at h <;> cases h <;> rfl
    have hneither : ¬ (whole.isEmpty = true ∨ hasLeadingZero whole = true) := by
      rw [hempty]
      exact not_or.2 ⟨Bool.false_ne_true, hzero⟩
    rw [skipMagnitude, hsplit]
    dsimp only
    rw [if_neg hneither, skipFraction_of_readFraction hfraction, ← hrest]
    exact skipExponent_of_readExponent hexponent

theorem skipNumber_of_readNumber {bs rest : Bytes} {n : Number}
    (h : readNumber bs = .ok (n, rest)) : skipNumber bs = .ok rest := by
  cases bs with
  | nil => cases h
  | cons b bs =>
      rw [readNumber] at h
      rw [skipNumber]
      split at h
      next hminus =>
        rw [if_pos hminus]
        exact skipMagnitude_of_readMagnitude h
      next hminus =>
        rw [if_neg hminus]
        exact skipMagnitude_of_readMagnitude h

theorem aligned_number (convert : Number → Option α) : (numberReader convert).Aligned := by
  refine aligned_of_runToken rfl fun b bs a rest hblank hr stack => ?_
  split at hr
  next hfirst =>
    obtain ⟨⟨n, r'⟩, hn, hr⟩ := bind_eq_ok_iff.1 hr
    have hrest : r' = rest := by
      dsimp only at hr
      split at hr
      · cases hr; rfl
      · cases hr
    subst hrest
    exact skipOpen_scalar stack hblank
      ⟨ne_of_first hfirst (by decide), ne_of_first hfirst (by decide)⟩
      ((skipScalar_number hfirst bs).trans (skipNumber_of_readNumber hn))
  next => exact absurd hr refuse_ne_ok

/-! ## Strings -/

theorem eq_cons_of_skipByte {c : Char} {bs rest : Bytes} (h : skipByte c bs = .ok rest) :
    bs = byte c :: rest := by
  cases bs with
  | nil => cases h
  | cons b bs =>
      rw [skipByte] at h
      split at h
      next hb => cases h; rw [hb]
      next => cases h

/-- An escape that is read is passed over with it: one of a pair of surrogates alone, so the other
is an escape of its own. -/
theorem skipText_of_readEscape {bs char rest : Bytes} (h : readEscape bs = .ok (char, rest)) :
    skipText (byte '\\' :: bs) = skipText rest := by
  cases bs with
  | nil => cases h
  | cons b bs =>
      rw [readEscape] at h
      split at h
      next hcode =>
        subst hcode
        have hskip : ∀ {bs n rest}, readHex bs = .ok (n, rest) →
            skipText (byte '\\' :: byte 'u' :: bs) = skipText rest := by
          intro bs n rest hhex
          refine skipText_escape ?_
          rw [skipEscape, if_pos rfl, hhex]
          rfl
        obtain ⟨⟨n, r₁⟩, hfirst, h⟩ := bind_eq_ok_iff.1 h
        dsimp only at h
        split at h
        next => cases h
        next =>
          split at h
          next =>
            obtain ⟨r₂, hslash, h⟩ := bind_eq_ok_iff.1 h
            obtain ⟨r₃, hmark, h⟩ := bind_eq_ok_iff.1 h
            obtain ⟨⟨m, r₄⟩, hsecond, h⟩ := bind_eq_ok_iff.1 h
            have hrest : r₄ = rest := by
              dsimp only at h
              split at h
              · simp only [Except.ok.injEq, Prod.mk.injEq] at h
                exact h.2
              · cases h
            rw [hskip hfirst, eq_cons_of_skipByte hslash, eq_cons_of_skipByte hmark,
              hskip hsecond, hrest]
          next =>
            simp only [Except.ok.injEq, Prod.mk.injEq] at h
            rw [hskip hfirst, h.2]
      next hcode =>
        refine skipText_escape ?_
        rw [skipEscape, if_neg hcode]
        split at h
        next c hshort =>
          cases h
          rfl
        next => cases h

theorem skipText_of_unescape {bs out rest : Bytes} (h : unescape bs = .ok (out, rest)) :
    skipText bs = .ok rest := by
  fun_induction unescape bs generalizing out with
  | case1 => cases h
  | case2 r => cases h; exact skipText_quote _
  | case3 => cases h
  | case4 bs char r hescape hlength hquote ih =>
      obtain ⟨⟨tail, r'⟩, htail, h⟩ := bind_eq_ok_iff.1 h
      cases h
      rw [skipText_of_readEscape hescape]
      exact ih htail
  | case5 => cases h
  | case6 b bs hquote hslash hcontrol ih =>
      obtain ⟨⟨tail, r'⟩, htail, h⟩ := bind_eq_ok_iff.1 h
      cases h
      rw [skipText_plain ⟨hquote, hslash, UInt8.not_lt.1 hcontrol⟩]
      exact ih htail

theorem skipText_of_readText {bs rest : Bytes} {text : String}
    (h : readText bs = .ok (text, rest)) : skipText bs = .ok rest := by
  obtain ⟨⟨raw, r⟩, hraw, h⟩ := bind_eq_ok_iff.1 h
  dsimp only at h
  split at h
  next => cases h; exact skipText_of_unescape hraw
  next => cases h

theorem aligned_text : textReader.Aligned := by
  refine aligned_of_runToken rfl fun b bs a rest hblank hr stack => ?_
  split at hr
  next hquote =>
    subst hquote
    refine skipOpen_scalar stack hblank (by decide) ?_
    exact skipText_of_readText hr
  next => exact absurd hr refuse_ne_ok

/-! ## Names -/

theorem skipText_of_readName {ofName? : String → Option α} {bs rest : Bytes} {a : α}
    (h : readName ofName? bs = .ok (a, rest)) : skipText bs = .ok rest := by
  obtain ⟨⟨name, r'⟩, hname, h⟩ := bind_eq_ok_iff.1 h
  dsimp only at h
  split at h
  next => cases h; exact skipText_of_readText hname
  next => cases h

/-- The value of the one member of an object, which is `null`. -/
theorem skipOpen_of_skipNull {bs rest : Bytes} (h : skipNull bs = .ok rest) (stack : List Frame) :
    skipOpen stack bs = resume stack rest := by
  rw [skipNull] at h
  split at h
  next => cases h
  next b bs' hblank =>
    obtain ⟨ws, hws, rfl⟩ := exists_blank_append hblank
    split at h
    next hnull =>
      subst hnull
      rw [skipOpen_blank hws]
      refine skipOpen_scalar stack (by decide) (by decide) ?_
      exact h
    next => cases h

theorem aligned_name (ofName? : String → Option α) : (nameReader ofName?).Aligned := by
  refine aligned_of_runToken rfl fun b bs a rest hblank hr stack => ?_
  split at hr
  next hquote =>
    subst hquote
    exact skipOpen_scalar stack hblank (by decide) (skipText_of_readName hr)
  next =>
    split at hr
    next hopen =>
      subst hopen
      obtain ⟨r₁, hquote, hr⟩ := bind_eq_ok_iff.1 hr
      obtain ⟨⟨a', r₂⟩, hname, hr⟩ := bind_eq_ok_iff.1 hr
      obtain ⟨r₃, hcolon, hr⟩ := bind_eq_ok_iff.1 hr
      obtain ⟨r₄, hnull, hr⟩ := bind_eq_ok_iff.1 hr
      obtain ⟨r₅, hclose, hr⟩ := bind_eq_ok_iff.1 hr
      cases hr
      have hfirst : skipBlank bs = byte '"' :: r₁ := eq_cons_of_skipByte hquote
      have hkey : skipKey .object (byte '"' :: r₁) = .ok r₃ := by
        rw [skipKey, skipQuote, skipToken_cons (by decide)]
        show (skipText r₁ >>= skipColon) = _
        rw [skipText_of_readName hname]
        exact hcolon
      refine (skipOpen_enter .object stack hfirst (by decide)).trans ?_
      rw [hkey]
      exact (skipOpen_of_skipNull hnull _).trans (resume_close (eq_cons_of_skipByte hclose))
    next => cases hr

/-! ## Options and lists -/

theorem aligned_option (h : r.Aligned) : (optionReader r).Aligned := by
  refine aligned_of_runToken rfl fun b bs a rest hblank hr stack => ?_
  split at hr
  next hnull =>
    subst hnull
    exact skipOpen_word hblank (by decide) rfl hr stack
  next => exact h.map Option.some _ _ _ hr stack

theorem resume_of_readMoreItems (h : r.Aligned) {bs rest : Bytes} {items : List α}
    (hr : readMoreItems r bs = .ok (items, rest)) (stack : List Frame) :
    resume (.array :: stack) bs = resume stack rest := by
  fun_induction readMoreItems r bs generalizing items with
  | case1 => cases hr
  | case2 bs r' hclose => cases hr; exact resume_close hclose
  | case3 => cases hr
  | case4 bs r' a r'' ha hcomma hne hlength ih =>
      obtain ⟨⟨more, r₃⟩, hmore, hr⟩ := bind_eq_ok_iff.1 hr
      cases hr
      rw [resume_comma hcomma, ← ih hmore]
      exact h _ _ _ ha (.array :: stack)
  | case5 => cases hr

theorem aligned_list (h : r.Aligned) : (listReader r).Aligned := by
  refine aligned_of_runToken rfl fun b bs items rest hblank hr stack => ?_
  split at hr
  next hopen =>
    subst hopen
    unfold readItems at hr
    split at hr
    next => cases hr
    next b bs' hfirst =>
      split at hr
      next hclose =>
        cases hr
        subst hclose
        exact skipOpen_empty .array stack hfirst
      next hclose =>
        obtain ⟨⟨a, r'⟩, ha, hr⟩ := bind_eq_ok_iff.1 hr
        obtain ⟨⟨more, r''⟩, hmore, hr⟩ := bind_eq_ok_iff.1 hr
        cases hr
        refine (skipOpen_enter .array stack hfirst hclose).trans ?_
        rw [← resume_of_readMoreItems h hmore stack]
        exact h _ _ _ ha (.array :: stack)
  next => exact absurd hr refuse_ne_ok

end Readers

/-! ## Records -/

section Records

variable {δ ρ : Type} {members : List (Member δ)}

theorem skipKey_of_readNextMember (h : ∀ m ∈ members, m.value.Aligned) {draft draft' : δ}
    {bs rest : Bytes} (hr : readNextMember members draft bs = .ok (draft', rest))
    (stack : List Frame) :
    (skipKey .object bs >>= skipOpen (.object :: stack)) = resume (.object :: stack) rest := by
  obtain ⟨r₁, hquote, hr⟩ := bind_eq_ok_iff.1 hr
  obtain ⟨⟨name, r₂⟩, hname, hr⟩ := bind_eq_ok_iff.1 hr
  have hkey : ∀ r₃, skipColon r₂ = .ok r₃ → skipKey .object bs = .ok r₃ := by
    intro r₃ hcolon
    rw [skipKey, hquote]
    show (skipText r₁ >>= skipColon) = _
    rw [skipText_of_readText hname]
    exact hcolon
  dsimp only at hr
  split at hr
  next m hfind =>
    split at hr
    next => cases hr
    next =>
      obtain ⟨r₃, hcolon, hr⟩ := bind_eq_ok_iff.1 hr
      obtain ⟨⟨put, r₄⟩, hput, hr⟩ := bind_eq_ok_iff.1 hr
      cases hr
      rw [hkey r₃ hcolon]
      exact h m (List.mem_of_find?_eq_some hfind) _ _ _ hput (.object :: stack)
  next =>
    obtain ⟨r₃, hcolon, hr⟩ := bind_eq_ok_iff.1 hr
    obtain ⟨r₄, hskip, hr⟩ := bind_eq_ok_iff.1 hr
    cases hr
    rw [hkey r₃ hcolon]
    exact skipOpen_of_skipValue hskip (.object :: stack)

theorem resume_of_readMoreMembers (h : ∀ m ∈ members, m.value.Aligned) {draft draft' : δ}
    {bs rest : Bytes} (hr : readMoreMembers members draft bs = .ok (draft', rest))
    (stack : List Frame) : resume (.object :: stack) bs = resume stack rest := by
  fun_induction readMoreMembers members draft bs with
  | case1 => cases hr
  | case2 draft bs r hclose => cases hr; exact resume_close hclose
  | case3 => cases hr
  | case4 draft bs r draft₁ r' hnext hcomma hne hlength ih =>
      rw [resume_comma hcomma, ← ih hr]
      exact skipKey_of_readNextMember h hnext stack
  | case5 => cases hr

theorem skipOpen_of_readMembers (h : ∀ m ∈ members, m.value.Aligned) {draft draft' : δ}
    {bs rest : Bytes} (hr : readMembers members draft bs = .ok (draft', rest))
    (stack : List Frame) : skipOpen stack (byte '\x7b' :: bs) = resume stack rest := by
  unfold readMembers at hr
  split at hr
  next => cases hr
  next b bs' hfirst =>
    split at hr
    next hclose =>
      cases hr
      subst hclose
      exact skipOpen_empty .object stack hfirst
    next hclose =>
      obtain ⟨⟨draft₁, r'⟩, hnext, hr⟩ := bind_eq_ok_iff.1 hr
      refine (skipOpen_enter .object stack hfirst hclose).trans ?_
      rw [← resume_of_readMoreMembers h hr stack]
      exact skipKey_of_readNextMember h hnext stack

theorem resume_of_readMoreElements {left : List (Member δ)} (h : ∀ m ∈ left, m.value.Aligned)
    {draft draft' : δ} {bs rest : Bytes}
    (hr : readMoreElements left draft bs = .ok (draft', rest)) (stack : List Frame) :
    resume (.array :: stack) bs = resume stack rest := by
  induction left generalizing draft bs with
  | nil =>
      unfold readMoreElements at hr
      split at hr
      next => cases hr
      next b bs' hfirst =>
        split at hr
        next hclose =>
          cases hr
          subst hclose
          exact resume_close hfirst
        next => cases hr
  | cons m left ih =>
      unfold readMoreElements at hr
      split at hr
      next => cases hr
      next b bs' hfirst =>
        split at hr
        next hclose =>
          cases hr
          subst hclose
          exact resume_close hfirst
        next =>
          split at hr
          next hcomma =>
            subst hcomma
            obtain ⟨⟨put, r'⟩, hput, hr⟩ := bind_eq_ok_iff.1 hr
            rw [resume_comma hfirst, ← ih (fun m hm => h m (List.mem_cons_of_mem _ hm)) hr]
            exact h m List.mem_cons_self _ _ _ hput (.array :: stack)
          next => cases hr

theorem skipOpen_of_readElements (h : ∀ m ∈ members, m.value.Aligned) {draft draft' : δ}
    {bs rest : Bytes} (hr : readElements members draft bs = .ok (draft', rest))
    (stack : List Frame) : skipOpen stack (byte '[' :: bs) = resume stack rest := by
  cases members with
  | nil =>
      replace hr : readMoreElements [] draft bs = .ok (draft', rest) := hr
      unfold readMoreElements at hr
      split at hr
      next => cases hr
      next b bs' hfirst =>
        split at hr
        next hclose =>
          cases hr
          subst hclose
          exact skipOpen_empty .array stack hfirst
        next => cases hr
  | cons m left =>
      rw [readElements] at hr
      split at hr
      next => cases hr
      next b bs' hfirst =>
        split at hr
        next hclose =>
          cases hr
          subst hclose
          exact skipOpen_empty .array stack hfirst
        next hclose =>
          obtain ⟨⟨put, r'⟩, hput, hr⟩ := bind_eq_ok_iff.1 hr
          refine (skipOpen_enter .array stack hfirst hclose).trans ?_
          rw [← resume_of_readMoreElements (fun m hm => h m (List.mem_cons_of_mem _ hm)) hr stack]
          exact h m List.mem_cons_self _ _ _ hput (.array :: stack)

theorem aligned_shape {shape : Shape δ ρ} (h : ∀ m ∈ shape.members, m.value.Aligned) :
    shape.reader.Aligned := by
  refine aligned_of_runToken rfl fun b bs a rest hblank hr stack => ?_
  split at hr
  next hopen =>
    subst hopen
    obtain ⟨⟨draft, r'⟩, hmembers, hr⟩ := bind_eq_ok_iff.1 hr
    obtain rfl : rest = r' := length_of_close hr
    exact skipOpen_of_readMembers h hmembers stack
  next =>
    split at hr
    next hopen =>
      subst hopen
      obtain ⟨⟨draft, r'⟩, helements, hr⟩ := bind_eq_ok_iff.1 hr
      obtain rfl : rest = r' := length_of_close hr
      exact skipOpen_of_readElements h helements stack
    next => exact absurd hr refuse_ne_ok

end Records

end MailPush.Json
