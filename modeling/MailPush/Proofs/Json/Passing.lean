import MailPush.Proofs.Json.Grammar
import MailPush.Proofs.Json.Numerals
import MailPush.Proofs.Json.Sequences

set_option autoImplicit false

/-! # Passing over values

A well-formed value is passed over to its end (`skipValue_append`). The reader keeps the open
brackets on a stack, so the induction over the value says more: whatever brackets are open, a value
is passed over up to what they still demand (`Passed`), and so is a part of a bracket or what is
left of its parts. What an open bracket demands from the end of a value on is `resume`.
-/

namespace MailPush.Json

/-! ## Numbers -/

theorem skipDigits_append {ds rest : Bytes} (hds : Digits ds) (hrest : NoDigit rest) :
    skipDigits (ds ++ rest) = .ok rest := by
  have hne : ds.isEmpty = false := by simpa using hds.1
  rw [skipDigits, splitDigits_append hds.2 hrest]
  dsimp only
  rw [hne]
  rfl

/-- What follows the digits before a point is neither a digit nor a point. -/
theorem head_exponent {t rest : Bytes} (h : ExponentText t) (hrest : Ends rest) :
    ∀ b ∈ (t ++ rest).head?, isDigit b = false ∧ b ≠ byte '.' := by
  intro b hb
  rcases h with rfl | ⟨mark, sign, ds, hmark, -, -, rfl⟩
  · have hends := hrest b hb
    simp only [continuesNumber, Bool.or_eq_false_iff, beq_eq_false_iff_ne] at hends
    exact ⟨hends.1.1.1, hends.1.1.2⟩
  · obtain rfl : mark = b := Option.some.inj hb
    rcases hmark with rfl | rfl <;> decide

theorem skipExponent_append {t rest : Bytes} (h : ExponentText t) (hrest : Ends rest) :
    skipExponent (t ++ rest) = .ok rest := by
  rcases h with rfl | ⟨mark, sign, ds, hmark, hsign, hds, rfl⟩
  · cases rest with
    | nil => rfl
    | cons b bs =>
        have hends := hrest b rfl
        simp only [continuesNumber, Bool.or_eq_false_iff, beq_eq_false_iff_ne] at hends
        rw [List.nil_append, skipExponent, if_neg (not_or.2 ⟨hends.1.2, hends.2⟩)]
  · have hsplit : (splitSign (sign ++ ds ++ rest)).2 = ds ++ rest := by
      rcases hsign with rfl | rfl | rfl
      · -- the first digit is no sign
        obtain ⟨d, ds', rfl⟩ := List.exists_cons_of_ne_nil hds.1
        have hdigit := hds.2 d List.mem_cons_self
        have hminus : d ≠ byte '-' := by rintro rfl; revert hdigit; decide
        have hplus : d ≠ byte '+' := by rintro rfl; revert hdigit; decide
        rw [List.nil_append, List.cons_append, splitSign, if_neg hminus, if_neg hplus]
      · rfl
      · rfl
    rw [List.cons_append, skipExponent, if_pos hmark, hsplit, skipDigits_append hds hrest.noDigit]

theorem skipFraction_append {t rest : Bytes} (h : FractionText t)
    (hrest : ∀ b ∈ rest.head?, isDigit b = false ∧ b ≠ byte '.') :
    skipFraction (t ++ rest) = .ok rest := by
  rcases h with rfl | ⟨ds, hds, rfl⟩
  · cases rest with
    | nil => rfl
    | cons b bs => rw [List.nil_append, skipFraction, if_neg (hrest b rfl).2]
  · rw [List.cons_append, skipFraction, if_pos rfl,
      skipDigits_append hds fun b hb => (hrest b hb).1]

theorem skipMagnitude_append {whole fraction exponent rest : Bytes} (hwhole : WholeText whole)
    (hfraction : FractionText fraction) (hexponent : ExponentText exponent) (hrest : Ends rest) :
    skipMagnitude (whole ++ (fraction ++ exponent) ++ rest) = .ok rest := by
  have hbehind := head_exponent hexponent hrest
  have hdigit : NoDigit (fraction ++ (exponent ++ rest)) := by
    intro b hb
    rcases hfraction with rfl | ⟨ds, -, rfl⟩
    · exact (hbehind b hb).1
    · obtain rfl : byte '.' = b := Option.some.inj hb
      decide
  have hne : whole.isEmpty = false := by simpa using hwhole.1.1
  have hzero : hasLeadingZero whole = false := by
    cases hw : whole with
    | nil => rfl
    | cons d ds =>
        cases ds with
        | nil => rfl
        | cons d' ds =>
            refine beq_false_of_ne fun hd => ?_
            have hsingle := hwhole.2 (by rw [hw, hd]; rfl)
            rw [hw] at hsingle
            cases hsingle
  rw [List.append_assoc, List.append_assoc, skipMagnitude, splitDigits_append hwhole.1.2 hdigit]
  dsimp only
  rw [hne, hzero, skipFraction_append hfraction hbehind]
  exact skipExponent_append hexponent hrest

theorem skipNumber_append {t rest : Bytes} (h : NumberText t) (hrest : Ends rest) :
    skipNumber (t ++ rest) = .ok rest := by
  obtain ⟨hsign, hwhole, hfraction, hexponent⟩ := h
  rename_i sign whole fraction exponent
  have hmagnitude := skipMagnitude_append hwhole hfraction hexponent hrest
  rcases hsign with rfl | rfl
  · obtain ⟨d, ds, rfl⟩ := List.exists_cons_of_ne_nil hwhole.1.1
    have hdigit := hwhole.1.2 d List.mem_cons_self
    have hminus : d ≠ byte '-' := by rintro rfl; revert hdigit; decide
    rw [List.nil_append]
    rw [List.cons_append, List.cons_append] at hmagnitude ⊢
    rw [skipNumber, if_neg hminus, hmagnitude]
  · rw [List.singleton_append, List.cons_append, skipNumber, if_pos rfl, hmagnitude]

/-! ## Strings -/

theorem skipText_plain {b : UInt8} (h : Plain b) (rest : Bytes) :
    skipText (b :: rest) = skipText rest := by
  obtain ⟨hquote, hescape, hcontrol⟩ := h
  rw [skipText, if_neg hquote, if_neg hescape, if_neg (UInt8.not_lt.2 hcontrol)]

theorem skipText_escape {bs rest : Bytes} (h : skipEscape bs = .ok rest) :
    skipText (byte '\\' :: bs) = skipText rest := by
  rw [skipText, if_neg (by decide), if_pos rfl]
  split
  next fault he => rw [h] at he; cases he
  next rest' he => rw [h] at he; cases he; rfl

theorem skipText_quote (rest : Bytes) : skipText (byte '"' :: rest) = .ok rest := by
  rw [skipText, if_pos rfl]

/-- Four hexadecimal digits are read as some number. -/
theorem readHex_of_isSome {a b c d : UInt8} (h : ∀ h ∈ [a, b, c, d], (hexValue? h).isSome)
    (rest : Bytes) : ∃ n, readHex (a :: b :: c :: d :: rest) = .ok (n, rest) := by
  obtain ⟨va, ha⟩ := Option.isSome_iff_exists.1 (h a (by simp))
  obtain ⟨vb, hb⟩ := Option.isSome_iff_exists.1 (h b (by simp))
  obtain ⟨vc, hc⟩ := Option.isSome_iff_exists.1 (h c (by simp))
  obtain ⟨vd, hd⟩ := Option.isSome_iff_exists.1 (h d (by simp))
  exact ⟨_, by rw [readHex, ha, hb, hc, hd]⟩

/-- The bytes between the quotes of a string are passed over, and so is the closing quote. -/
theorem skipText_append {t : Bytes} (h : StringText t) (rest : Bytes) :
    skipText (t ++ byte '"' :: rest) = .ok rest := by
  induction h with
  | nil => exact skipText_quote rest
  | plain hb ht ih =>
      rw [List.cons_append, skipText_plain hb, ih]
  | short he ht ih =>
      rename_i e t
      rw [List.cons_append, List.cons_append]
      have hescape : ∀ bs, skipEscape (e :: bs) = .ok bs := by
        intro bs
        have hmem : e ∈ [byte '"', byte '\\', byte '/', byte 'b', byte 'f', byte 'n', byte 'r',
            byte 't'] := he
        simp only [List.mem_cons, List.not_mem_nil, or_false] at hmem
        rcases hmem with rfl | rfl | rfl | rfl | rfl | rfl | rfl | rfl <;> rfl
      rw [skipText_escape (hescape _), ih]
  | code hhex ht ih =>
      rename_i a b c d t
      simp only [List.cons_append]
      obtain ⟨n, hn⟩ := readHex_of_isSome hhex (t ++ byte '"' :: rest)
      have hescape : skipEscape (byte 'u' :: a :: b :: c :: d :: (t ++ byte '"' :: rest)) =
          .ok (t ++ byte '"' :: rest) := by
        rw [skipEscape, if_pos rfl, hn]
        rfl
      rw [skipText_escape hescape, ih]

/-! ## From one value to the next -/

/-- Passes over what is left after a step. -/
def proceed : Except Fault (List Frame × Bytes) → Except Fault Bytes
  | .error fault => .error fault
  | .ok ([], rest) => .ok rest
  | .ok (frame :: stack, rest) => skipOpen (frame :: stack) rest

theorem skipOpen_eq (stack : List Frame) (bs : Bytes) :
    skipOpen stack bs = proceed (skipStep stack bs) := by
  rw [skipOpen]
  split
  next hstep => simp only [hstep, proceed]
  next hstep => simp only [hstep, proceed]
  next hstep => simp only [hstep, proceed]

/-- Passes over what open brackets still demand, from the end of a value on. -/
def resume (stack : List Frame) (bs : Bytes) : Except Fault Bytes :=
  proceed (skipToNext stack bs)

theorem resume_nil (bs : Bytes) : resume [] bs = .ok bs := rfl

theorem resume_blank {ws : Bytes} (hws : Blank ws) (frame : Frame) (stack : List Frame)
    (bs : Bytes) : resume (frame :: stack) (ws ++ bs) = resume (frame :: stack) bs := by
  rw [resume, resume, skipToNext, skipToNext, skipBlank_append hws]

theorem skipOpen_blank {ws : Bytes} (hws : Blank ws) (stack : List Frame) (bs : Bytes) :
    skipOpen stack (ws ++ bs) = skipOpen stack bs := by
  rw [skipOpen_eq, skipOpen_eq, skipStep, skipStep, skipBlank_append hws]

/-- A value is entered: it follows at once in an array, and after a key in an object. -/
theorem proceed_key (frame : Frame) (stack : List Frame) (bs : Bytes) :
    proceed (skipKey frame bs >>= fun rest => .ok (frame :: stack, rest)) =
      skipKey frame bs >>= skipOpen (frame :: stack) := by
  cases skipKey frame bs <;> rfl

theorem resume_comma {frame : Frame} {stack : List Frame} {bs rest : Bytes}
    (h : skipBlank bs = byte ',' :: rest) :
    resume (frame :: stack) bs = skipKey frame rest >>= skipOpen (frame :: stack) := by
  rw [resume, skipToNext, h]
  exact proceed_key frame stack rest

theorem resume_close {frame : Frame} {stack : List Frame} {bs rest : Bytes}
    (h : skipBlank bs = frame.close :: rest) : resume (frame :: stack) bs = resume stack rest := by
  have hcomma : frame.close ≠ byte ',' := by cases frame <;> decide
  rw [resume, skipToNext, h]
  dsimp only
  rw [if_neg hcomma, if_pos rfl]
  rfl

/-- A scalar has no open brackets of its own. -/
theorem skipOpen_scalar {b : UInt8} {bs rest : Bytes} (stack : List Frame)
    (hblank : isBlank b = false) (hopen : b ≠ byte '[' ∧ b ≠ byte '{')
    (h : skipScalar (b :: bs) = .ok rest) : skipOpen stack (b :: bs) = resume stack rest := by
  rw [skipOpen_eq, skipStep, skipBlank_cons hblank]
  dsimp only
  rw [if_neg hopen.1, if_neg hopen.2, h]
  rfl

theorem skipOpen_opening (frame : Frame) (stack : List Frame) (bs : Bytes) :
    skipOpen stack (frame.opening :: bs) = proceed (skipToFirst frame stack bs) := by
  have hblank : isBlank frame.opening = false := by cases frame <;> decide
  rw [skipOpen_eq, skipStep, skipBlank_cons hblank]
  cases frame <;> rfl

/-- An empty bracket is closed at once. -/
theorem skipOpen_empty (frame : Frame) {bs rest : Bytes} (stack : List Frame)
    (h : skipBlank bs = frame.close :: rest) :
    skipOpen stack (frame.opening :: bs) = resume stack rest := by
  rw [skipOpen_opening, skipToFirst, h]
  dsimp only
  rw [if_pos rfl]
  rfl

/-- Any other bracket is entered. -/
theorem skipOpen_enter (frame : Frame) {b : UInt8} {bs rest : Bytes} (stack : List Frame)
    (h : skipBlank bs = b :: rest) (hb : b ≠ frame.close) :
    skipOpen stack (frame.opening :: bs) =
      skipKey frame (b :: rest) >>= skipOpen (frame :: stack) := by
  rw [skipOpen_opening, skipToFirst, h]
  dsimp only
  rw [if_neg hb]
  exact proceed_key frame stack _

/-- Blanks before a part do not matter. -/
theorem skipKey_blank {ws : Bytes} (hws : Blank ws) (frame : Frame) (stack : List Frame)
    (bs : Bytes) :
    (skipKey frame (ws ++ bs) >>= skipOpen (frame :: stack)) =
      skipKey frame bs >>= skipOpen (frame :: stack) := by
  cases frame with
  | array => exact skipOpen_blank hws _ bs
  | object =>
      rw [skipKey, skipKey, skipQuote, skipQuote, skipToken, skipToken, skipBlank_append hws]

/-! ## Well-formed values -/

/-- A text starts, behind blanks, with a byte that closes no bracket. -/
def Starts (t : Bytes) : Prop :=
  ∃ ws b t', Blank ws ∧ t = ws ++ b :: t' ∧ isBlank b = false ∧ b ≠ byte ']' ∧ b ≠ byte '}'

theorem starts_cons {b : UInt8} (t : Bytes) (hb : isBlank b = false)
    (hclose : b ≠ byte ']' ∧ b ≠ byte '}') : Starts (b :: t) :=
  ⟨[], b, t, blank_of_mem_nil, rfl, hb, hclose⟩

theorem Starts.append {t : Bytes} (h : Starts t) (more : Bytes) : Starts (t ++ more) := by
  obtain ⟨ws, b, t', hws, rfl, hb, hclose⟩ := h
  exact ⟨ws, b, t' ++ more, hws, by rw [List.append_assoc, List.cons_append], hb, hclose⟩

theorem Blank.append {ws ws' : Bytes} (h : Blank ws) (h' : Blank ws') : Blank (ws ++ ws') := by
  intro b hb
  rcases List.mem_append.1 hb with hb | hb
  · exact h b hb
  · exact h' b hb

theorem Starts.blank {ws t : Bytes} (hws : Blank ws) (h : Starts t) : Starts (ws ++ t) := by
  obtain ⟨ws', b, t', hws', rfl, hb, hclose⟩ := h
  exact ⟨ws ++ ws', b, t', hws.append hws', (List.append_assoc ..).symm, hb, hclose⟩

/-- A number starts with a minus sign or a digit. -/
theorem NumberText.exists_cons {t : Bytes} (h : NumberText t) :
    ∃ b t', t = b :: t' ∧ (b = byte '-' ∨ isDigit b = true) := by
  obtain ⟨hsign, hwhole, -, -⟩ := h
  rcases hsign with rfl | rfl
  · obtain ⟨d, ds, rfl⟩ := List.exists_cons_of_ne_nil hwhole.1.1
    exact ⟨d, _, rfl, .inr (hwhole.1.2 d List.mem_cons_self)⟩
  · exact ⟨byte '-', _, rfl, .inl rfl⟩

theorem isBlank_of_first {b : UInt8} (h : b = byte '-' ∨ isDigit b = true) : isBlank b = false := by
  rcases h with rfl | h
  · decide
  · exact isBlank_of_isDigit h

/-- A number does not start as another token does. -/
theorem ne_of_first {b c : UInt8} (h : b = byte '-' ∨ isDigit b = true)
    (hc : ¬ (c = byte '-' ∨ isDigit c = true)) : b ≠ c := by
  rintro rfl
  exact hc h

theorem WellFormed.starts {form : Form} {t : Bytes} (h : WellFormed form t) : Starts t := by
  induction h with
  | word hw =>
      simp only [List.mem_cons, List.not_mem_nil, or_false] at hw
      rcases hw with rfl | rfl | rfl <;> exact starts_cons _ (by decide) (by decide)
  | number ht =>
      obtain ⟨b, t, rfl, hb⟩ := ht.exists_cons
      exact starts_cons t (isBlank_of_first hb)
        ⟨ne_of_first hb (by decide), ne_of_first hb (by decide)⟩
  | string ht => exact starts_cons _ (by decide) (by decide)
  | empty hws =>
      rename_i frame ws
      cases frame <;> exact starts_cons _ (by decide) (by decide)
  | bracket ht ih =>
      rename_i frame t
      cases frame <;> exact starts_cons _ (by decide) (by decide)
  | item hbefore ht hbehind ih => exact .blank hbefore (ih.append _)
  | member hbefore hkey hcolon hafter ht hbehind ih =>
      exact .blank hbefore (starts_cons _ (by decide) (by decide))
  | last hp ih => exact ih
  | more hp ht ihp iht => exact ihp.append _

/-- Passing over a scalar looks at its first byte. -/
theorem skipScalar_number {b : UInt8} (h : b = byte '-' ∨ isDigit b = true) (bs : Bytes) :
    skipScalar (b :: bs) = skipNumber (b :: bs) := by
  rw [skipScalar, if_neg (ne_of_first h (by decide)), if_neg (ne_of_first h (by decide)),
    if_neg (ne_of_first h (by decide)), if_pos h]

/-- The key of a member is passed over up to its value. -/
theorem skipKey_member {before key colon after t behind : Bytes} (hbefore : Blank before)
    (hkey : StringText key) (hcolon : Blank colon) (rest : Bytes) :
    skipKey .object (memberBytes before key colon after t behind ++ rest) =
      .ok (after ++ (t ++ (behind ++ rest))) := by
  have hbytes : memberBytes before key colon after t behind ++ rest = before ++ byte '"' ::
      (key ++ byte '"' :: (colon ++ byte ':' :: (after ++ (t ++ (behind ++ rest))))) := by
    simp only [memberBytes, List.append_assoc, List.cons_append]
  rw [hbytes, skipKey, skipQuote, skipToken_append hbefore (by decide)]
  show (skipText _ >>= skipColon) = _
  rw [skipText_append hkey]
  exact skipToken_append hcolon (by decide) _

/-- What passing over a piece of well-formed JSON does. -/
def Passed : Form → Bytes → Prop
  | .value, t => ∀ stack rest, Ends rest → skipOpen stack (t ++ rest) = resume stack rest
  | .part frame, t => ∀ stack rest, Ends rest →
      (skipKey frame (t ++ rest) >>= skipOpen (frame :: stack)) = resume (frame :: stack) rest
  | .parts frame, t => ∀ stack rest,
      (skipKey frame (t ++ frame.close :: rest) >>= skipOpen (frame :: stack)) = resume stack rest

/-- A value between blanks in an open bracket. -/
theorem Passed.between {t : Bytes} (h : Passed .value t) {before behind : Bytes}
    (hbefore : Blank before) (hbehind : Blank behind) (frame : Frame) (stack : List Frame)
    {rest : Bytes} (hrest : Ends rest) :
    skipOpen (frame :: stack) (before ++ (t ++ (behind ++ rest))) =
      resume (frame :: stack) rest := by
  rw [skipOpen_blank hbefore, h _ _ (ends_blank_append hbehind hrest), resume_blank hbehind]

/-- **Well-formed JSON is passed over**, whatever is behind it and whatever brackets are open. -/
theorem WellFormed.passed {form : Form} {t : Bytes} (h : WellFormed form t) : Passed form t := by
  -- by induction on the value; a bracket is entered with one more frame on the stack
  induction h with
  | word hw =>
      intro stack rest hrest
      simp only [List.mem_cons, List.not_mem_nil, or_false] at hw
      rcases hw with rfl | rfl | rfl
      · exact skipOpen_scalar stack (by decide) (by decide)
          (skipLiteral_append (bytesOf "ull") rest)
      · exact skipOpen_scalar stack (by decide) (by decide)
          (skipLiteral_append (bytesOf "rue") rest)
      · exact skipOpen_scalar stack (by decide) (by decide)
          (skipLiteral_append (bytesOf "alse") rest)
  | number ht =>
      intro stack rest hrest
      have hskip := skipNumber_append ht hrest
      obtain ⟨b, t, rfl, hb⟩ := ht.exists_cons
      exact skipOpen_scalar stack (isBlank_of_first hb)
        ⟨ne_of_first hb (by decide), ne_of_first hb (by decide)⟩
        ((skipScalar_number hb _).trans hskip)
  | string ht =>
      rename_i t
      intro stack rest hrest
      refine skipOpen_scalar stack (by decide) (by decide) ?_
      show skipText (t ++ [byte '"'] ++ rest) = _
      rw [List.append_assoc]
      exact skipText_append ht rest
  | empty hws =>
      rename_i frame ws
      intro stack rest hrest
      refine skipOpen_empty frame stack ?_
      show skipBlank (ws ++ [frame.close] ++ rest) = _
      rw [List.append_assoc]
      exact skipBlank_append_cons hws frame.isBlank_close rest
  | bracket ht ih =>
      rename_i frame t
      intro stack rest hrest
      have hparts := ih stack rest
      -- the first part must not be taken for the end of the bracket
      obtain ⟨ws, b, t', hws, rfl, hb, hclose⟩ := ht.starts
      have hne : b ≠ frame.close := by
        cases frame with
        | array => exact hclose.1
        | object => exact hclose.2
      have hblank : skipBlank (ws ++ b :: t' ++ [frame.close] ++ rest) =
          b :: (t' ++ [frame.close] ++ rest) := by
        rw [List.append_assoc, List.append_assoc, List.cons_append, List.append_assoc]
        exact skipBlank_append_cons hws hb _
      rw [List.append_assoc, skipKey_blank hws] at hparts
      rw [List.cons_append, skipOpen_enter frame stack hblank hne, List.append_assoc]
      exact hparts
  | item hbefore ht hbehind ih =>
      intro stack rest hrest
      rw [List.append_assoc, List.append_assoc]
      exact ih.between hbefore hbehind .array stack hrest
  | member hbefore hkey hcolon hafter ht hbehind ih =>
      intro stack rest hrest
      rw [skipKey_member hbefore hkey hcolon]
      exact ih.between hafter hbehind .object stack hrest
  | last hp ih =>
      rename_i frame p
      intro stack rest
      have hends : Ends (frame.close :: rest) := ends_cons (by cases frame <;> decide)
      rw [ih stack _ hends]
      exact resume_close (skipBlank_cons frame.isBlank_close)
  | more hp ht ihp iht =>
      rename_i frame p t
      intro stack rest
      have hends : Ends (byte ',' :: (t ++ frame.close :: rest)) := ends_cons (by decide)
      rw [List.append_assoc, List.cons_append, ihp stack _ hends,
        resume_comma (skipBlank_cons (by decide))]
      exact iht stack rest

/-- **A well-formed value is passed over to its end.** -/
theorem skipValue_append {t rest : Bytes} (h : WellFormed .value t) (hrest : Ends rest) :
    skipValue (t ++ rest) = .ok rest :=
  h.passed [] rest hrest

end MailPush.Json
