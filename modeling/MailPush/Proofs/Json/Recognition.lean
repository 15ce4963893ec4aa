import MailPush.Proofs.Json.Alignment
import MailPush.Proofs.Json.Spelling

set_option autoImplicit false

/-! # Only well-formed values are passed over

The converse of passing over well-formed values: what is passed over is blanks and a well-formed
value (`exists_value`). The reader keeps the open brackets on a stack, so the induction says more:
what is left to be passed over is a value and then all that the open brackets still demand
(`Completes`). When a bracket is closed, its parts are put together from the one at hand and those
that were demanded after it (`Completes.parts`).

A well-formed value that starts with a bracket is an object with entries, or an array with items
(`exists_objectText`, `exists_arrayText`).
-/

namespace MailPush.Json

/-! ## Numbers -/

theorem splitDigits_eq (bs : Bytes) : bs = (splitDigits bs).1 ++ (splitDigits bs).2 :=
  List.takeWhile_append_dropWhile.symm

theorem isDigit_of_mem_splitDigits (bs : Bytes) : ∀ d ∈ (splitDigits bs).1, isDigit d = true :=
  List.all_eq_true.1 List.all_takeWhile

theorem exists_digits {bs rest : Bytes} (h : skipDigits bs = .ok rest) :
    ∃ ds, Digits ds ∧ bs = ds ++ rest := by
  rw [skipDigits] at h
  dsimp only at h
  split at h
  next => cases h
  next hne =>
    cases h
    exact ⟨_, ⟨by simpa using hne, isDigit_of_mem_splitDigits bs⟩, splitDigits_eq bs⟩

theorem exists_fraction {bs rest : Bytes} (h : skipFraction bs = .ok rest) :
    ∃ t, FractionText t ∧ bs = t ++ rest := by
  cases bs with
  | nil =>
      cases h
      exact ⟨[], .inl rfl, rfl⟩
  | cons b bs =>
      rw [skipFraction] at h
      split at h
      next hpoint =>
        obtain ⟨ds, hds, rfl⟩ := exists_digits h
        exact ⟨b :: ds, .inr ⟨ds, hds, by rw [hpoint]⟩, rfl⟩
      next =>
        cases h
        exact ⟨[], .inl rfl, rfl⟩

/-- A sign is none, a minus or a plus. -/
theorem exists_sign (bs : Bytes) : ∃ sign, (sign = [] ∨ sign = [byte '-'] ∨ sign = [byte '+']) ∧
    bs = sign ++ (splitSign bs).2 := by
  cases bs with
  | nil => exact ⟨[], .inl rfl, rfl⟩
  | cons b bs =>
      rw [splitSign]
      split
      next hminus => exact ⟨[byte '-'], .inr (.inl rfl), by rw [hminus]; rfl⟩
      next =>
        split
        next hplus => exact ⟨[byte '+'], .inr (.inr rfl), by rw [hplus]; rfl⟩
        next => exact ⟨[], .inl rfl, rfl⟩

theorem exists_exponent {bs rest : Bytes} (h : skipExponent bs = .ok rest) :
    ∃ t, ExponentText t ∧ bs = t ++ rest := by
  cases bs with
  | nil =>
      cases h
      exact ⟨[], .inl rfl, rfl⟩
  | cons b bs =>
      rw [skipExponent] at h
      split at h
      next hmark =>
        obtain ⟨sign, hsign, hbs⟩ := exists_sign bs
        obtain ⟨ds, hds, hrest⟩ := exists_digits h
        refine ⟨b :: (sign ++ ds), .inr ⟨b, sign, ds, hmark, hsign, hds, rfl⟩, ?_⟩
        rw [List.cons_append, List.append_assoc, ← hrest, ← hbs]
      next =>
        cases h
        exact ⟨[], .inl rfl, rfl⟩

/-- Digits without a zero in front of others. -/
theorem wholeText_of_hasLeadingZero {ds : Bytes} (hds : Digits ds)
    (h : hasLeadingZero ds = false) : WholeText ds := by
  refine ⟨hds, fun hhead => ?_⟩
  cases ds with
  | nil => cases hhead
  | cons d ds =>
      obtain rfl : d = byte '0' := Option.some.inj hhead
      cases ds with
      | nil => rfl
      | cons d' ds => cases h

theorem exists_magnitude {bs rest : Bytes} (h : skipMagnitude bs = .ok rest) :
    ∃ whole fraction exponent, WholeText whole ∧ FractionText fraction ∧ ExponentText exponent ∧
      bs = whole ++ (fraction ++ exponent) ++ rest := by
  rw [skipMagnitude] at h
  dsimp only at h
  split at h
  next => cases h
  next hwhole =>
    obtain ⟨hne, hzero⟩ := not_or.1 hwhole
    obtain ⟨r, hr, hrest⟩ := bind_eq_ok_iff.1 h
    obtain ⟨fraction, hfraction, hr⟩ := exists_fraction hr
    obtain ⟨exponent, hexponent, rfl⟩ := exists_exponent hrest
    have hds : Digits (splitDigits bs).1 :=
      ⟨by simpa using hne, isDigit_of_mem_splitDigits bs⟩
    refine ⟨_, fraction, exponent, wholeText_of_hasLeadingZero hds (eq_false_of_ne_true hzero),
      hfraction, hexponent, ?_⟩
    rw [List.append_assoc, List.append_assoc, ← hr]
    exact splitDigits_eq bs

theorem exists_number {bs rest : Bytes} (h : skipNumber bs = .ok rest) :
    ∃ t, NumberText t ∧ bs = t ++ rest := by
  cases bs with
  | nil => cases h
  | cons b bs =>
      rw [skipNumber] at h
      split at h
      next hminus =>
        obtain ⟨whole, fraction, exponent, hwhole, hfraction, hexponent, rfl⟩ := exists_magnitude h
        exact ⟨_, .mk (.inr rfl) hwhole hfraction hexponent, by rw [hminus]; rfl⟩
      next =>
        obtain ⟨whole, fraction, exponent, hwhole, hfraction, hexponent, heq⟩ := exists_magnitude h
        exact ⟨_, .mk (.inl rfl) hwhole hfraction hexponent, heq⟩

/-! ## Words and strings -/

theorem eq_of_skipLiteral {es bs rest : Bytes} (h : skipLiteral es bs = .ok rest) :
    bs = es ++ rest := by
  fun_induction skipLiteral es bs with
  | case1 bs => cases h; rfl
  | case2 => cases h
  | case3 es b bs ih => rw [ih h, List.cons_append]
  | case4 => cases h

theorem exists_hex {bs rest : Bytes} {n : Nat} (h : readHex bs = .ok (n, rest)) :
    ∃ t, Hex n t ∧ bs = t ++ rest := by
  unfold readHex at h
  split at h
  next a b c d bs =>
    split at h
    next va vb vc vd ha hb hc hd =>
      cases h
      exact ⟨[a, b, c, d], ⟨a, b, c, d, va, vb, vc, vd, rfl, ha, hb, hc, hd, rfl⟩, rfl⟩
    next => cases h
  next => cases h

/-- The letters of the short escapes, and the characters that they stand for. -/
theorem exists_short {b out : UInt8} (h : shortEscape? b = some out) :
    ∃ e c : Char, (e, c) ∈ [('"', '"'), ('\\', '\\'), ('/', '/'), ('b', '\x08'), ('f', '\x0c'),
      ('n', '\n'), ('r', '\r'), ('t', '\t')] ∧ b = byte e ∧ out = byte c := by
  unfold shortEscape? at h
  split at h
  next hself =>
    cases h
    rcases hself with rfl | rfl | rfl
    · exact ⟨'"', '"', by simp, rfl, rfl⟩
    · exact ⟨'\\', '\\', by simp, rfl, rfl⟩
    · exact ⟨'/', '/', by simp, rfl, rfl⟩
  next =>
    split at h
    next hb => cases h; exact ⟨'b', '\x08', by simp, hb, rfl⟩
    next =>
      split at h
      next hf => cases h; exact ⟨'f', '\x0c', by simp, hf, rfl⟩
      next =>
        split at h
        next hn => cases h; exact ⟨'n', '\n', by simp, hn, rfl⟩
        next =>
          split at h
          next hr => cases h; exact ⟨'r', '\r', by simp, hr, rfl⟩
          next =>
            split at h
            next ht => cases h; exact ⟨'t', '\t', by simp, ht, rfl⟩
            next => cases h

/-- An escape that is passed over extends the string before it. -/
theorem exists_escape {bs rest : Bytes} (h : skipEscape bs = .ok rest) :
    ∃ escape, bs = escape ++ rest ∧
      ∀ t, StringText t → StringText (byte '\\' :: (escape ++ t)) := by
  cases bs with
  | nil => cases h
  | cons b bs =>
      rw [skipEscape] at h
      split at h
      next hcode =>
        cases hn : readHex bs with
        | error => rw [hn] at h; cases h
        | ok p =>
            obtain ⟨n, r⟩ := p
            rw [hn] at h
            cases h
            obtain ⟨t, hhex, rfl⟩ := exists_hex hn
            obtain ⟨a, b', c, d, rfl, hsome⟩ := hhex.isSome
            exact ⟨b :: [a, b', c, d], rfl, fun t ht => hcode ▸ .code hsome ht⟩
      next =>
        split at h
        next out hshort =>
          cases h
          obtain ⟨e, c, hpair, rfl, -⟩ := exists_short hshort
          refine ⟨[byte e], rfl, fun t ht => .short ?_ ht⟩
          simp only [List.mem_cons, List.not_mem_nil, or_false, Prod.mk.injEq] at hpair
          rcases hpair with ⟨rfl, -⟩ | ⟨rfl, -⟩ | ⟨rfl, -⟩ | ⟨rfl, -⟩ | ⟨rfl, -⟩ | ⟨rfl, -⟩ |
            ⟨rfl, -⟩ | ⟨rfl, -⟩ <;> decide
        next => cases h

theorem exists_string {bs rest : Bytes} (h : skipText bs = .ok rest) :
    ∃ t, StringText t ∧ bs = t ++ byte '"' :: rest := by
  fun_induction skipText bs with
  | case1 => cases h
  | case2 bs =>
      cases h
      exact ⟨[], .nil, rfl⟩
  | case3 => cases h
  | case4 bs r hescape hlength hquote ih =>
      obtain ⟨t, ht, rfl⟩ := ih h
      obtain ⟨escape, rfl, hextend⟩ := exists_escape hescape
      exact ⟨_, hextend t ht, by rw [List.cons_append, List.append_assoc]⟩
  | case5 => cases h
  | case6 b bs hquote hslash hcontrol ih =>
      obtain ⟨t, ht, rfl⟩ := ih h
      exact ⟨b :: t, .plain ⟨hquote, hslash, UInt8.not_lt.1 hcontrol⟩ ht, rfl⟩

/-! ## Scalars and keys -/

theorem exists_scalar {bs rest : Bytes} (h : skipScalar bs = .ok rest) :
    ∃ t, WellFormed .value t ∧ bs = t ++ rest := by
  cases bs with
  | nil => cases h
  | cons b bs =>
      rw [skipScalar] at h
      split at h
      next hb =>
        refine ⟨_, .word (w := "null") (by simp), ?_⟩
        rw [hb, eq_of_skipLiteral h]
        rfl
      next =>
        split at h
        next hb =>
          refine ⟨_, .word (w := "true") (by simp), ?_⟩
          rw [hb, eq_of_skipLiteral h]
          rfl
        next =>
          split at h
          next hb =>
            refine ⟨_, .word (w := "false") (by simp), ?_⟩
            rw [hb, eq_of_skipLiteral h]
            rfl
          next =>
            split at h
            next =>
              obtain ⟨t, ht, heq⟩ := exists_number h
              exact ⟨t, .number ht, heq⟩
            next =>
              split at h
              next hb =>
                obtain ⟨t, ht, rfl⟩ := exists_string h
                exact ⟨_, .string ht, by rw [hb, List.cons_append, List.append_assoc]; rfl⟩
              next => cases h

/-- A token is the byte, behind blanks. -/
theorem exists_token {c : Char} {bs rest : Bytes} (h : skipToken c bs = .ok rest) :
    ∃ ws, Blank ws ∧ bs = ws ++ byte c :: rest :=
  exists_blank_append (eq_cons_of_skipByte h)

/-- Behind a key stands the value of its member. -/
theorem exists_part {frame : Frame} {bs ws t more : Bytes}
    (h : skipKey frame bs = .ok (ws ++ (t ++ more))) (hws : Blank ws) (ht : WellFormed .value t) :
    ∃ p, WellFormed (.part frame) p ∧ bs = p ++ more := by
  cases frame with
  | array =>
      cases h
      refine ⟨_, .item hws ht blank_of_mem_nil, ?_⟩
      rw [List.append_nil, List.append_assoc]
  | object =>
      obtain ⟨r₁, hr₁, h⟩ := bind_eq_ok_iff.1 h
      obtain ⟨r₂, hr₂, hr₃⟩ := bind_eq_ok_iff.1 h
      obtain ⟨before, hbefore, rfl⟩ := exists_token hr₁
      obtain ⟨key, hkey, rfl⟩ := exists_string hr₂
      obtain ⟨colon, hcolon, rfl⟩ := exists_token hr₃
      refine ⟨_, .member hbefore hkey hcolon hws ht blank_of_mem_nil, ?_⟩
      simp only [memberBytes, List.append_assoc, List.cons_append, List.append_nil]

/-! ## Brackets -/

/-- What open brackets demand from the end of a value on: that each of them is closed, with more
parts before that or none. -/
inductive Completes : List Frame → Bytes → Prop
  | nil : Completes [] []
  | close {frame : Frame} {stack : List Frame} {ws c : Bytes} : Blank ws → Completes stack c →
      Completes (frame :: stack) (ws ++ frame.close :: c)
  | more {frame : Frame} {stack : List Frame} {ws p c : Bytes} : Blank ws →
      WellFormed (.part frame) p → Completes (frame :: stack) c →
      Completes (frame :: stack) (ws ++ byte ',' :: (p ++ c))

/-- Blanks behind a part belong to it. -/
theorem WellFormed.append_blank {frame : Frame} {p ws : Bytes} (h : WellFormed (.part frame) p)
    (hws : Blank ws) : WellFormed (.part frame) (p ++ ws) := by
  cases h with
  | item hbefore ht hbehind =>
      rw [List.append_assoc, List.append_assoc]
      exact .item hbefore ht (hbehind.append hws)
  | member hbefore hkey hcolon hafter ht hbehind =>
      have h := WellFormed.member hbefore hkey hcolon hafter ht (hbehind.append hws)
      simpa only [memberBytes, List.append_assoc, List.cons_append] using h

theorem WellFormed.blank_append {frame : Frame} {p ws : Bytes} (h : WellFormed (.part frame) p)
    (hws : Blank ws) : WellFormed (.part frame) (ws ++ p) := by
  cases h with
  | item hbefore ht hbehind =>
      rw [← List.append_assoc]
      exact .item (hws.append hbefore) ht hbehind
  | member hbefore hkey hcolon hafter ht hbehind =>
      have h := WellFormed.member (hws.append hbefore) hkey hcolon hafter ht hbehind
      simpa only [memberBytes, List.append_assoc, List.cons_append] using h

/-- **The parts of a bracket** are the one at hand and those that stand before its end. -/
theorem Completes.parts {frame : Frame} {stack : List Frame} {c : Bytes}
    (h : Completes (frame :: stack) c) {p : Bytes} (hp : WellFormed (.part frame) p) :
    ∃ parts c', WellFormed (.parts frame) parts ∧ Completes stack c' ∧
      p ++ c = parts ++ frame.close :: c' := by
  -- on what is demanded, from any part that stands before it
  generalize hopen : frame :: stack = opened at h
  induction h generalizing p with
  | nil => cases hopen
  | close hws hc ih =>
      cases hopen
      rename_i ws c
      exact ⟨_, c, .last (hp.append_blank hws), hc, (List.append_assoc ..).symm⟩
  | more hws hnext hc ih =>
      cases hopen
      rename_i ws p' c
      obtain ⟨parts, c', hparts, hc', heq⟩ := ih hnext rfl
      refine ⟨_, c', .more (hp.append_blank hws) hparts, hc', ?_⟩
      rw [heq, List.append_assoc, List.append_assoc, List.cons_append]

/-- A text is a value, behind blanks, and then what open brackets demand. -/
def Holds (stack : List Frame) (bs rest : Bytes) : Prop :=
  ∃ ws t c, Blank ws ∧ WellFormed .value t ∧ Completes stack c ∧ bs = ws ++ (t ++ (c ++ rest))

/-- The same after a step: with no bracket left, nothing more is to come. -/
def Follows : List Frame → Bytes → Bytes → Prop
  | [], bs, rest => bs = rest
  | frame :: stack, bs, rest => Holds (frame :: stack) bs rest

/-- A bracket with a first part and all that it demands is a value. -/
theorem holds_bracket {frame : Frame} {stack : List Frame} {ws p c rest : Bytes} (hws : Blank ws)
    (hp : WellFormed (.part frame) p) (hc : Completes (frame :: stack) c) :
    Holds stack (ws ++ frame.opening :: (p ++ (c ++ rest))) rest := by
  obtain ⟨parts, c', hparts, hc', heq⟩ := hc.parts hp
  refine ⟨ws, _, c', hws, .bracket hparts, hc', ?_⟩
  rw [← List.append_assoc p, heq]
  simp only [List.append_assoc, List.cons_append, List.nil_append]

theorem completes_of_skipToNext {stack stack' : List Frame} {bs bs' rest : Bytes}
    (h : skipToNext stack bs = .ok (stack', bs')) (hrest : Follows stack' bs' rest) :
    ∃ c, Completes stack c ∧ bs = c ++ rest := by
  induction stack generalizing bs with
  | nil =>
      cases h
      exact ⟨[], .nil, hrest⟩
  | cons frame stack ih =>
      unfold skipToNext at h
      split at h
      next => cases h
      next b r hblank =>
        obtain ⟨ws, hws, rfl⟩ := exists_blank_append hblank
        -- a comma leads to one more part, the closing byte to what the outer brackets demand
        split at h
        next hcomma =>
          obtain ⟨r', hkey, h⟩ := bind_eq_ok_iff.1 h
          cases h
          obtain ⟨ws', t, c, hws', ht, hc, rfl⟩ := hrest
          obtain ⟨p, hp, rfl⟩ := exists_part hkey hws' ht
          refine ⟨_, .more hws hp hc, ?_⟩
          simp only [hcomma, List.append_assoc, List.cons_append]
        next =>
          split at h
          next hclose =>
            obtain ⟨c, hc, rfl⟩ := ih h
            refine ⟨_, @Completes.close frame stack ws c hws hc, ?_⟩
            rw [hclose, List.append_assoc, List.cons_append]
          next => cases h

theorem holds_of_skipToFirst {frame : Frame} {stack stack' : List Frame} {ws bs bs' rest : Bytes}
    (hws : Blank ws) (h : skipToFirst frame stack bs = .ok (stack', bs'))
    (hrest : Follows stack' bs' rest) : Holds stack (ws ++ frame.opening :: bs) rest := by
  unfold skipToFirst at h
  split at h
  next => cases h
  next b r hblank =>
    obtain ⟨ws', hws', rfl⟩ := exists_blank_append hblank
    split at h
    next hclose =>
      obtain ⟨c, hc, rfl⟩ := completes_of_skipToNext h hrest
      refine ⟨ws, _, c, hws, @WellFormed.empty frame ws' hws', hc, ?_⟩
      simp only [hclose, List.append_assoc, List.cons_append, List.nil_append]
    next =>
      obtain ⟨r', hkey, h⟩ := bind_eq_ok_iff.1 h
      cases h
      obtain ⟨ws'', t, c, hws'', ht, hc, rfl⟩ := hrest
      obtain ⟨p, hp, heq⟩ := exists_part hkey hws'' ht
      have hbracket : Holds stack (ws ++ frame.opening :: (ws' ++ p ++ (c ++ rest))) rest :=
        holds_bracket hws (hp.blank_append hws') hc
      rwa [List.append_assoc, ← heq] at hbracket

theorem holds_of_skipStep {stack stack' : List Frame} {bs bs' rest : Bytes}
    (h : skipStep stack bs = .ok (stack', bs')) (hrest : Follows stack' bs' rest) :
    Holds stack bs rest := by
  unfold skipStep at h
  split at h
  next => cases h
  next b r hblank =>
    obtain ⟨ws, hws, rfl⟩ := exists_blank_append hblank
    split at h
    next hopen => exact hopen ▸ @holds_of_skipToFirst .array _ _ _ _ _ _ hws h hrest
    next =>
      split at h
      next hopen => exact hopen ▸ @holds_of_skipToFirst .object _ _ _ _ _ _ hws h hrest
      next =>
        obtain ⟨r', hscalar, h⟩ := bind_eq_ok_iff.1 h
        obtain ⟨t, ht, heq⟩ := exists_scalar hscalar
        obtain ⟨c, hc, rfl⟩ := completes_of_skipToNext h hrest
        exact ⟨ws, t, c, hws, ht, hc, by rw [heq]⟩

/-- **What is passed over holds a value and all that the open brackets demand.** -/
theorem holds_of_skipOpen {stack : List Frame} {bs rest : Bytes}
    (h : skipOpen stack bs = .ok rest) : Holds stack bs rest := by
  fun_induction skipOpen stack bs with
  | case1 => cases h
  | case2 stack bs r hstep =>
      cases h
      exact holds_of_skipStep hstep rfl
  | case3 stack bs frame stack' r hstep hlength ih => exact holds_of_skipStep hstep (ih h)

/-- **Only blanks and a well-formed value are passed over.** -/
theorem exists_value {bs rest : Bytes} (h : skipValue bs = .ok rest) :
    ∃ ws t, Blank ws ∧ WellFormed .value t ∧ bs = ws ++ (t ++ rest) := by
  obtain ⟨ws, t, c, hws, ht, hc, rfl⟩ := holds_of_skipOpen h
  cases hc
  exact ⟨ws, t, hws, ht, rfl⟩

/-! ## Objects and arrays -/

/-- A value starts with its first byte, not with blanks. -/
theorem WellFormed.exists_cons {t : Bytes} (h : WellFormed .value t) :
    ∃ b t', t = b :: t' ∧ isBlank b = false := by
  cases h with
  | word hw =>
      simp only [List.mem_cons, List.not_mem_nil, or_false] at hw
      rcases hw with rfl | rfl | rfl <;> exact ⟨_, _, rfl, by decide⟩
  | number ht =>
      obtain ⟨b, t, rfl, hb⟩ := ht.exists_cons
      exact ⟨b, t, rfl, isBlank_of_first hb⟩
  | string ht => exact ⟨_, _, rfl, by decide⟩
  | empty hws => exact ⟨_, _, rfl, by rename_i frame ws; cases frame <;> decide⟩
  | bracket ht => exact ⟨_, _, rfl, by rename_i frame t; cases frame <;> decide⟩

/-- A value that starts as a bracket does is that bracket, empty or around its parts. -/
theorem WellFormed.bracket_cases {frame : Frame} {t : Bytes}
    (h : WellFormed .value (frame.opening :: t)) :
    (∃ ws, Blank ws ∧ t = ws ++ [frame.close]) ∨
      ∃ parts, WellFormed (.parts frame) parts ∧ t = parts ++ [frame.close] := by
  -- the first byte tells the forms of a value apart
  generalize hs : frame.opening :: t = s at h
  cases h with
  | word hw =>
      simp only [List.mem_cons, List.not_mem_nil, or_false] at hw
      rcases hw with rfl | rfl | rfl <;> cases frame <;>
        exact absurd (List.cons.inj hs).1 (by decide)
  | number ht =>
      obtain ⟨b, t, rfl, hb⟩ := ht.exists_cons
      obtain ⟨rfl, -⟩ := List.cons.inj hs
      cases frame <;> exact absurd hb (by decide)
  | string ht => cases frame <;> exact absurd (List.cons.inj hs).1 (by decide)
  | empty hws =>
      rename_i frame' ws
      obtain ⟨hopen, rfl⟩ := List.cons.inj hs
      obtain rfl : frame = frame' := by revert hopen; cases frame <;> cases frame' <;> decide
      exact .inl ⟨ws, hws, rfl⟩
  | bracket ht =>
      rename_i frame' parts
      obtain ⟨hopen, rfl⟩ := List.cons.inj hs
      obtain rfl : frame = frame' := by revert hopen; cases frame <;> cases frame' <;> decide
      exact .inr ⟨parts, ht, rfl⟩

theorem exists_entryText {p : Bytes} (h : WellFormed (.part .object) p) : ∃ e, EntryText e p := by
  cases h with
  | member hbefore hkey hcolon hafter ht hbehind =>
      exact ⟨⟨_, _⟩, .mk hbefore hkey hcolon hafter ht hbehind⟩

theorem exists_entriesText {t : Bytes} (h : WellFormed (.parts .object) t) :
    ∃ es, EntriesText es t := by
  generalize hform : Form.parts .object = form at h
  induction h with
  | last hp ih =>
      cases hform
      obtain ⟨e, he⟩ := exists_entryText hp
      exact ⟨[e], .last he⟩
  | more hp ht ihp iht =>
      cases hform
      obtain ⟨e, he⟩ := exists_entryText hp
      obtain ⟨es, hes⟩ := iht rfl
      exact ⟨e :: es, .more he hes⟩
  | word | number | string | empty | bracket | item | member => cases hform

/-- **A value that starts with a curly bracket is an object with entries.** -/
theorem exists_objectText {t : Bytes} (h : WellFormed .value (byte '\x7b' :: t)) :
    ∃ es, ObjectText es (byte '\x7b' :: t) := by
  rcases @WellFormed.bracket_cases .object t h with ⟨ws, hws, rfl⟩ | ⟨parts, hparts, rfl⟩
  · exact ⟨[], .empty hws⟩
  · obtain ⟨es, hes⟩ := exists_entriesText hparts
    exact ⟨es, .entries hes⟩

/-- An item of an array, given by its text. -/
def ItemValue (value t : Bytes) : Prop := t = value ∧ WellFormed .value value

theorem exists_itemsText {t : Bytes} (h : WellFormed (.parts .array) t) :
    ∃ values, ItemsText ItemValue values t := by
  generalize hform : Form.parts .array = form at h
  induction h with
  | last hp ih =>
      cases hform
      cases hp with
      | item hbefore ht hbehind => exact ⟨[_], .last hbefore ⟨rfl, ht⟩ hbehind⟩
  | more hp ht ihp iht =>
      cases hform
      obtain ⟨values, hvalues⟩ := iht rfl
      cases hp with
      | item hbefore ht hbehind =>
          have hitem : ItemValue _ _ := ⟨rfl, ht⟩
          exact ⟨_, by simpa only [List.append_assoc] using .more hbefore hitem hbehind hvalues⟩
  | word | number | string | empty | bracket | item | member => cases hform

/-- **A value that starts with a square bracket is an array with items.** -/
theorem exists_arrayText {t : Bytes} (h : WellFormed .value (byte '[' :: t)) :
    ∃ values, ArrayText ItemValue values (byte '[' :: t) := by
  rcases @WellFormed.bracket_cases .array t h with ⟨ws, hws, rfl⟩ | ⟨parts, hparts, rfl⟩
  · exact ⟨[], .empty hws⟩
  · obtain ⟨values, hvalues⟩ := exists_itemsText hparts
    exact ⟨values, .items hvalues⟩

end MailPush.Json
