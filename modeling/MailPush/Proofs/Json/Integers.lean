import Mathlib.Data.List.Induction
import MailPush.Proofs.Json.Objects
import MailPush.Proofs.Json.Recognition

set_option autoImplicit false

/-! # Integers are read from their numerals alone

The converse of reading numerals. Digits without a zero in front of others are the numeral of their
number (`numeral_digitsValue`), and a number ends where nothing continues it. So a reader of words
takes a value from its numeral only, up to the end of the number (`Reader.ReadsNumerals`), and the
reader of an option from this or from `null` (`Reader.Exact`). A whole text is decoded as a value
exactly when it is, without the blanks around it (`strip`), the text of the value
(`decode_eq_ok_iff_strip`).

What else may stand for a number (`OtherNumber`) is not read as a word, whatever follows it
(`OtherNumber.refuses`).
-/

namespace MailPush.Json

/-! ## Digits -/

/-- A digit is the byte of its value. -/
theorem digitByte_digitValue {b : UInt8} (h : isDigit b = true) :
    digitValue b < 10 ∧ digitByte (digitValue b) = b := by
  simp only [isDigit, Bool.and_eq_true, decide_eq_true_eq, UInt8.le_iff_toNat_le] at h
  have hlo : 48 ≤ b.toNat := h.1
  have hhi : b.toNat ≤ 57 := h.2
  have hbyte : ∀ d < 10, digitByte d = UInt8.ofNat (48 + d) := by decide
  have hvalue : digitValue b = b.toNat - 48 := rfl
  refine ⟨by omega, ?_⟩
  rw [hbyte _ (by omega), hvalue, Nat.add_sub_cancel' hlo, UInt8.ofNat_toNat]

/-- **Digits without a zero in front of others are the numeral of their number.** -/
theorem numeral_digitsValue {ds : Bytes} (h : WholeText ds) : numeral (digitsValue ds) = ds := by
  -- from the right, as a numeral is built
  induction ds using List.reverseRecOn with
  | nil => exact absurd rfl h.1.1
  | append_singleton ds d ih =>
      obtain ⟨⟨-, hdigits⟩, hzero⟩ := h
      obtain ⟨hlast, hbyte⟩ := digitByte_digitValue (hdigits d (by simp))
      rw [digitsValue_concat]
      by_cases hds : ds = []
      · subst hds
        rw [show digitsValue [] = 0 from rfl, Nat.mul_zero, Nat.zero_add, numeral_of_lt hlast,
          hbyte, List.nil_append]
      · have hhead : ds.head? ≠ some (byte '0') := by
          intro hhead
          have hsingle := hzero (by rw [List.head?_append, hhead]; rfl)
          have hlength := congrArg List.length hsingle
          rw [List.length_append, List.length_singleton, List.length_singleton] at hlength
          exact hds (List.length_eq_zero_iff.1 (by omega))
        have hfront : numeral (digitsValue ds) = ds :=
          ih ⟨⟨hds, fun x hx => hdigits x (List.mem_append_left _ hx)⟩,
            fun hzero => absurd hzero hhead⟩
        have hpos : digitsValue ds ≠ 0 := by
          intro hnone
          rw [hnone, numeral_of_lt (by decide)] at hfront
          exact hhead (by rw [← hfront]; rfl)
        rw [numeral_of_le (by omega), show (10 * digitsValue ds + digitValue d) / 10 =
            digitsValue ds by omega, show (10 * digitsValue ds + digitValue d) % 10 =
            digitValue d by omega, hfront, hbyte]

/-- Where no fraction is read, none begins. -/
theorem eq_of_readFraction {bs rest : Bytes} (h : readFraction bs = .ok (none, rest)) :
    bs = rest ∧ ∀ b ∈ bs.head?, b ≠ byte '.' := by
  cases bs with
  | nil =>
      cases h
      exact ⟨rfl, fun b hb => nomatch hb⟩
  | cons b bs =>
      rw [readFraction] at h
      split at h
      next =>
        obtain ⟨p, -, h⟩ := bind_eq_ok_iff.1 h
        cases h
      next hpoint =>
        cases h
        exact ⟨rfl, fun c hc => Option.some.inj hc ▸ hpoint⟩

/-- Where no exponent is read, none begins. -/
theorem eq_of_readExponent {bs rest : Bytes} (h : readExponent bs = .ok (none, rest)) :
    bs = rest ∧ ∀ b ∈ bs.head?, ¬ (b = byte 'e' ∨ b = byte 'E') := by
  cases bs with
  | nil =>
      cases h
      exact ⟨rfl, fun b hb => nomatch hb⟩
  | cons b bs =>
      rw [readExponent] at h
      split at h
      next =>
        obtain ⟨p, -, h⟩ := bind_eq_ok_iff.1 h
        cases h
      next hmark =>
        cases h
        exact ⟨rfl, fun c hc => Option.some.inj hc ▸ hmark⟩

theorem noDigit_splitDigits (bs : Bytes) : NoDigit (splitDigits bs).2 := by
  intro b hb
  have hhead := List.head?_dropWhile_not isDigit bs
  rw [show (bs.dropWhile isDigit).head? = some b from hb] at hhead
  simpa using hhead

/-- A magnitude that is an integer has digits alone, and neither a fraction nor an exponent. -/
theorem eq_of_readMagnitude {negative negative' : Bool} {bs rest : Bytes} {n : Nat}
    (h : readMagnitude negative bs = .ok (.integer negative' n, rest)) :
    negative = negative' ∧ bs = numeral n ++ rest ∧ Ends rest := by
  obtain ⟨⟨whole, r₁⟩, hwhole, h⟩ := bind_eq_ok_iff.1 h
  obtain ⟨hsplit, hempty, -⟩ := skipDigits_of_readDigits hwhole
  have hbs := splitDigits_eq bs
  have hdigits := isDigit_of_mem_splitDigits bs
  have hend := noDigit_splitDigits bs
  rw [hsplit] at hbs hdigits hend
  dsimp only at h
  split at h
  next => cases h
  next hzero =>
    obtain ⟨⟨fraction, r₂⟩, hfraction, h⟩ := bind_eq_ok_iff.1 h
    obtain ⟨⟨exponent, r₃⟩, hexponent, h⟩ := bind_eq_ok_iff.1 h
    dsimp only at h
    split at h
    next => cases h
    next =>
      split at h
      next hinteger =>
        cases h
        obtain rfl := Option.isNone_iff_eq_none.1 hinteger.1
        obtain rfl := Option.isNone_iff_eq_none.1 hinteger.2
        obtain ⟨rfl, hpoint⟩ := eq_of_readFraction hfraction
        obtain ⟨rfl, hmark⟩ := eq_of_readExponent hexponent
        have hds : Digits whole := ⟨by simpa using hempty, hdigits⟩
        refine ⟨rfl, ?_, fun b hb => ?_⟩
        · rw [numeral_digitsValue (wholeText_of_hasLeadingZero hds (eq_false_of_ne_true hzero))]
          exact hbs
        · obtain ⟨hlower, hupper⟩ := not_or.1 (hmark b hb)
          simp [continuesNumber, hend b hb, hpoint b hb, hlower, hupper]
      next => cases h

/-- **A number that is read as an integer is written as its numeral** and ends there. -/
theorem eq_of_readNumber {bs rest : Bytes} {negative : Bool} {n : Nat}
    (h : readNumber bs = .ok (.integer negative n, rest)) :
    bs = signedNumeral negative n ++ rest ∧ Ends rest := by
  cases bs with
  | nil => cases h
  | cons b bs =>
      rw [readNumber] at h
      split at h
      next hminus =>
        obtain ⟨rfl, rfl, hends⟩ := eq_of_readMagnitude h
        exact ⟨by rw [hminus]; rfl, hends⟩
      next =>
        obtain ⟨rfl, hbs, hends⟩ := eq_of_readMagnitude h
        exact ⟨hbs, hends⟩

/-! ## The numeral of an integer -/

/-- The decimal numeral of an integer. -/
def decimal (n : Int) : Bytes := utf8 (writeInt n)

theorem decimal_natCast (n : Nat) : decimal n = numeral n := rfl

theorem decimal_neg {n : Nat} (h : 0 < n) : decimal (-n) = byte '-' :: numeral n := by
  obtain ⟨n, rfl⟩ := Nat.exists_eq_succ_of_ne_zero (Nat.ne_of_gt h)
  exact utf8_cons_ascii (by decide) _

/-- An integer is a number, or the opposite of one that is not zero. -/
theorem decimal_cases (n : Int) :
    (∃ m : Nat, n = m ∧ decimal n = numeral m) ∨
      ∃ m : Nat, 0 < m ∧ n = -m ∧ decimal n = byte '-' :: numeral m := by
  cases n with
  | ofNat m => exact .inl ⟨m, rfl, rfl⟩
  | negSucc m => exact .inr ⟨m + 1, Nat.succ_pos m, rfl, decimal_neg (Nat.succ_pos m)⟩

theorem wholeText_numeral (n : Nat) : WholeText (numeral n) :=
  wholeText_of_hasLeadingZero ⟨numeral_ne_nil n, isDigit_of_mem_numeral n⟩
    (hasLeadingZero_numeral n)

theorem wellFormed_decimal (n : Int) : WellFormed .value (decimal n) := by
  have hnumber : ∀ (m : Nat) (sign : Bytes), (sign = [] ∨ sign = [byte '-']) →
      WellFormed .value (sign ++ numeral m) := by
    intro m sign hsign
    have h := NumberText.mk hsign (wholeText_numeral m) (.inl rfl) (.inl rfl)
    rw [List.append_nil, List.append_nil] at h
    exact .number h
  rcases decimal_cases n with ⟨m, -, heq⟩ | ⟨m, -, -, heq⟩
  · rw [heq]
    exact hnumber m [] (.inl rfl)
  · rw [heq]
    exact hnumber m [byte '-'] (.inr rfl)

/-! ## Exact readers -/

section Exact

variable {α β : Type} {r : Reader α} {form : α → Bytes} {val : α → Int}

/-- A reader takes every value from one text only, behind blanks. -/
def Reader.Exact (r : Reader α) (form : α → Bytes) : Prop :=
  ∀ bs a rest, r.run bs = .ok (a, rest) → ∃ ws, Blank ws ∧ bs = ws ++ (form a ++ rest)

theorem Reader.Exact.map (h : r.Exact form) {f : α → β} {form' : β → Bytes}
    (hform : ∀ a, form' (f a) = form a) : (r.map f).Exact form' := by
  intro bs b rest hr
  obtain ⟨⟨a, r'⟩, ha, hr⟩ := bind_eq_ok_iff.1 hr
  cases hr
  rw [hform]
  exact h bs a rest ha

/-- A reader takes every value from its numeral only, behind blanks, and the numeral to its end. -/
def Reader.ReadsNumerals (r : Reader α) (val : α → Int) : Prop :=
  ∀ bs a rest, r.run bs = .ok (a, rest) →
    ∃ ws, Blank ws ∧ Ends rest ∧ bs = ws ++ (decimal (val a) ++ rest)

theorem Reader.ReadsNumerals.map (h : r.ReadsNumerals val) {f : α → β} {val' : β → Int}
    (hval : ∀ a, val' (f a) = val a) : (r.map f).ReadsNumerals val' := by
  intro bs b rest hr
  obtain ⟨⟨a, r'⟩, ha, hr⟩ := bind_eq_ok_iff.1 hr
  cases hr
  rw [hval]
  exact h bs a rest ha

theorem Reader.ReadsNumerals.exact (h : r.ReadsNumerals val) :
    r.Exact fun a => decimal (val a) := by
  intro bs a rest hr
  obtain ⟨ws, hws, -, heq⟩ := h bs a rest hr
  exact ⟨ws, hws, heq⟩

/-- A number reader that converts integers alone takes a value from numerals only. -/
theorem readsNumerals_number {convert : Number → Option α} {f : α → β} {val : β → Int}
    (hdecimal : convert .decimal = none)
    (hval : ∀ negative n a, convert (.integer negative n) = some a →
      signedNumeral negative n = decimal (val (f a))) :
    ((numberReader convert).map f).ReadsNumerals val := by
  intro bs b rest hr
  obtain ⟨⟨a, r'⟩, ha, hr⟩ := bind_eq_ok_iff.1 hr
  cases hr
  replace ha : Reader.runToken _ bs = _ := ha
  rw [Reader.runToken] at ha
  split at ha
  next => cases ha
  next b bs' hblank =>
    obtain ⟨ws, hws, rfl⟩ := exists_blank_append hblank
    split at ha
    next =>
      obtain ⟨⟨n, r'⟩, hn, ha⟩ := bind_eq_ok_iff.1 ha
      dsimp only at ha
      split at ha
      next a' hconvert =>
        cases ha
        cases n with
        | integer negative n =>
            obtain ⟨heq, hends⟩ := eq_of_readNumber hn
            exact ⟨ws, hws, hends, by rw [← hval negative n a hconvert, ← heq]⟩
        | decimal =>
            rw [hdecimal] at hconvert
            cases hconvert
      next => cases ha
    next => exact absurd ha refuse_ne_ok

theorem natural?_eq_some {limit n a : Nat} {negative : Bool}
    (h : Number.natural? limit (.integer negative n) = some a) :
    negative = false ∧ n = a ∧ n ≤ limit := by
  cases negative with
  | false =>
      rw [Number.natural?] at h
      split at h
      next hle => exact ⟨rfl, Option.some.inj h, hle⟩
      next => cases h
  | true => cases h

theorem readsNumerals_uint32 : uint32Reader.ReadsNumerals fun n => n.toNat := by
  refine readsNumerals_number rfl fun negative n a h => ?_
  obtain ⟨rfl, rfl, hle⟩ := natural?_eq_some h
  rw [UInt32.toNat_ofNat_of_lt' (Nat.lt_succ_of_le hle), decimal_natCast]
  rfl

theorem readsNumerals_uint64 : uint64Reader.ReadsNumerals fun n => n.toNat := by
  refine readsNumerals_number rfl fun negative n a h => ?_
  obtain ⟨rfl, rfl, hle⟩ := natural?_eq_some h
  rw [UInt64.toNat_ofNat_of_lt' (Nat.lt_succ_of_le hle), decimal_natCast]
  rfl

theorem readsNumerals_int64 : int64Reader.ReadsNumerals Int64.toInt := by
  refine readsNumerals_number rfl fun negative n a h => ?_
  cases negative with
  | false =>
      rw [Number.signed?] at h
      split at h
      next hle =>
        cases h
        rw [Int64.toInt_ofInt_of_le (by omega) (by omega)]
        rfl
      next => cases h
  | true =>
      rw [Number.signed?] at h
      split at h
      next hle =>
        cases h
        rw [Int64.toInt_ofInt_of_le (by omega) (by omega), decimal_neg hle.1]
        rfl
      next => cases h

/-- The text of an option: `null` for none. -/
def orNull (form : α → Bytes) : Option α → Bytes
  | none => utf8 "null".toList
  | some a => form a

theorem exact_option (h : r.Exact form) : (optionReader r).Exact (orNull form) := by
  intro bs o rest hr
  replace hr : Reader.runToken _ bs = _ := hr
  rw [Reader.runToken] at hr
  split at hr
  next => cases hr
  next b bs' hblank =>
    obtain ⟨ws, hws, rfl⟩ := exists_blank_append hblank
    split at hr
    next hnull =>
      rw [readWord] at hr
      cases hskip : skipLiteral (bytesOf "ull") bs' with
      | error fault => rw [hskip] at hr; cases hr
      | ok r' =>
          rw [hskip] at hr
          cases hr
          exact ⟨ws, hws, by rw [hnull, eq_of_skipLiteral hskip]; rfl⟩
    next =>
      have hsome : (r.map Option.some).Exact (orNull form) := h.map fun a => rfl
      obtain ⟨ws', hws', heq⟩ := hsome _ _ _ hr
      exact ⟨ws ++ ws', hws.append hws', by rw [heq, List.append_assoc]⟩

end Exact

/-! ## Whole texts -/

/-- A text without the blanks around it. -/
def strip (text : Bytes) : Bytes := (skipBlank (skipBlank text).reverse).reverse

theorem blank_takeWhile (bs : Bytes) : Blank (bs.takeWhile isBlank) :=
  List.all_eq_true.1 List.all_takeWhile

theorem exists_strip (text : Bytes) :
    ∃ ws ws', Blank ws ∧ Blank ws' ∧ text = ws ++ (strip text ++ ws') := by
  have hsplit : ∀ bs : Bytes, bs = bs.takeWhile isBlank ++ skipBlank bs := fun bs =>
    List.takeWhile_append_dropWhile.symm
  have hbehind := congrArg List.reverse (hsplit (skipBlank text).reverse)
  rw [List.reverse_reverse, List.reverse_append] at hbehind
  refine ⟨text.takeWhile isBlank, ((skipBlank text).reverse.takeWhile isBlank).reverse,
    blank_takeWhile text, fun b hb => blank_takeWhile _ b (List.mem_reverse.1 hb), ?_⟩
  rw [strip, ← hbehind]
  exact hsplit text

/-- Blanks before two texts are not part of them. -/
theorem append_eq_of_blank {ws ws' t u x y : Bytes} (hws : Blank ws) (hws' : Blank ws')
    (ht : ∃ b t', t = b :: t' ∧ isBlank b = false) (hu : ∃ b u', u = b :: u' ∧ isBlank b = false)
    (h : ws ++ (t ++ x) = ws' ++ (u ++ y)) : t ++ x = u ++ y := by
  obtain ⟨b, t', rfl, hb⟩ := ht
  obtain ⟨c, u', rfl, hc⟩ := hu
  have hskip := congrArg skipBlank h
  rwa [List.cons_append, List.cons_append, skipBlank_append_cons hws hb,
    skipBlank_append_cons hws' hc] at hskip

/-- A text ends with a byte that is no blank. -/
def EndsSolid (t : Bytes) : Prop := ∃ t' b, t = t' ++ [b] ∧ isBlank b = false

theorem EndsSolid.append_left {t : Bytes} (h : EndsSolid t) (more : Bytes) :
    EndsSolid (more ++ t) := by
  obtain ⟨t', b, rfl, hb⟩ := h
  exact ⟨more ++ t', b, (List.append_assoc ..).symm, hb⟩

theorem Digits.endsSolid {ds : Bytes} (h : Digits ds) : EndsSolid ds :=
  ⟨ds.dropLast, ds.getLast h.1, (List.dropLast_concat_getLast h.1).symm,
    isBlank_of_isDigit (h.2 _ (List.getLast_mem h.1))⟩

theorem NumberText.endsSolid {t : Bytes} (h : NumberText t) : EndsSolid t := by
  obtain ⟨-, hwhole, hfraction, hexponent⟩ := h
  rename_i sign whole fraction exponent
  refine EndsSolid.append_left ?_ sign
  rcases hexponent with rfl | ⟨mark, sign, ds, -, -, hds, rfl⟩
  · rw [List.append_nil]
    rcases hfraction with rfl | ⟨ds, hds, rfl⟩
    · rw [List.append_nil]
      exact hwhole.1.endsSolid
    · exact (hds.endsSolid.append_left [byte '.']).append_left whole
  · exact (((hds.endsSolid.append_left sign).append_left [mark]).append_left _).append_left whole

theorem WellFormed.endsSolid {t : Bytes} (h : WellFormed .value t) : EndsSolid t := by
  cases h with
  | word hw =>
      simp only [List.mem_cons, List.not_mem_nil, or_false] at hw
      rcases hw with rfl | rfl | rfl
      · exact ⟨utf8 "nul".toList, byte 'l', by decide, by decide⟩
      · exact ⟨utf8 "tru".toList, byte 'e', by decide, by decide⟩
      · exact ⟨utf8 "fals".toList, byte 'e', by decide, by decide⟩
  | number ht => exact ht.endsSolid
  | string ht => exact ⟨_, byte '"', (List.cons_append ..).symm, by decide⟩
  | empty hws => exact ⟨_, _, (List.cons_append ..).symm, Frame.isBlank_close _⟩
  | bracket ht => exact ⟨_, _, (List.cons_append ..).symm, Frame.isBlank_close _⟩

/-- **A value is what blanks are stripped from.** -/
theorem strip_append {ws t ws' : Bytes} (hws : Blank ws) (ht : WellFormed .value t)
    (hws' : Blank ws') : strip (ws ++ (t ++ ws')) = t := by
  obtain ⟨b, front, hfirst, hb⟩ := ht.exists_cons
  obtain ⟨back, c, hlast, hc⟩ := ht.endsSolid
  have hbefore : skipBlank (ws ++ (t ++ ws')) = t ++ ws' := by
    rw [hfirst]
    exact skipBlank_append_cons hws hb _
  have hreverse : (t ++ ws').reverse = ws'.reverse ++ c :: back.reverse := by
    rw [List.reverse_append, hlast, List.reverse_append]
    rfl
  have hbehind : skipBlank (t ++ ws').reverse = t.reverse := by
    rw [hreverse, skipBlank_append_cons (fun b hb => hws' b (List.mem_reverse.1 hb)) hc, hlast,
      List.reverse_append]
    rfl
  rw [strip, hbefore, hbehind, List.reverse_reverse]

section Whole

variable {α : Type} [Readable α]

theorem exists_of_decode {text : Bytes} {a : α} (h : decode text = .ok a) :
    ∃ rest, (Readable.reader : Reader α).run text = .ok (a, rest) ∧ Blank rest := by
  obtain ⟨⟨a', rest⟩, hread, h⟩ := bind_eq_ok_iff.1 h
  dsimp only at h
  split at h
  next hblank =>
    cases h
    exact ⟨rest, hread, skipBlank_eq_nil_iff.1 hblank⟩
  next => cases h

/-- **A text is decoded as a value exactly when it is the text of the value**, with blanks around
it. -/
theorem decode_eq_ok_iff_strip {form : α → Bytes} (hexact : (Readable.reader : Reader α).Exact form)
    (htakes : ∀ a, Takes (Readable.reader : Reader α) a (form a))
    (hform : ∀ a, WellFormed .value (form a)) {text : Bytes} {a : α} :
    decode text = .ok a ↔ strip text = form a := by
  constructor
  · intro h
    obtain ⟨rest, hread, hrest⟩ := exists_of_decode h
    obtain ⟨ws, hws, rfl⟩ := hexact _ _ _ hread
    exact strip_append hws (hform a) hrest
  · intro h
    obtain ⟨ws, ws', hws, hws', heq⟩ := exists_strip text
    rw [heq, h]
    exact decode_of_takes (htakes a) hws hws'

end Whole

/-! ## Numbers that are no words -/

/-- What may stand for a number, and is no integer from `lo` to `hi` as it is written: with a plus
sign, zero with a minus sign, with a zero in front of other digits, with a fraction or an exponent,
or outside the range. -/
inductive OtherNumber (lo hi : Int) : Bytes → Prop
  | plus {t : Bytes} : OtherNumber lo hi (byte '+' :: t)
  | negativeZero : OtherNumber lo hi [byte '-', byte '0']
  | leadingZero {sign t : Bytes} {d : UInt8} : (sign = [] ∨ sign = [byte '-']) →
      isDigit d = true → OtherNumber lo hi (sign ++ byte '0' :: d :: t)
  | decimal {sign ds t : Bytes} {mark : UInt8} : (sign = [] ∨ sign = [byte '-']) →
      (∀ d ∈ ds, isDigit d = true) → (mark = byte '.' ∨ mark = byte 'e' ∨ mark = byte 'E') →
      OtherNumber lo hi (sign ++ (ds ++ mark :: t))
  | outside {n : Int} : ¬ (lo ≤ n ∧ n ≤ hi) → OtherNumber lo hi (Json.decimal n)

/-- No numeral starts with a sign. -/
theorem numeral_append_ne {m : Nat} {b : UInt8} {x rest : Bytes} (hb : isDigit b = false) :
    numeral m ++ rest ≠ b :: x := by
  intro h
  obtain ⟨c, bs, hbs, hdigit, -⟩ := exists_numeral_cons m
  rw [hbs] at h
  rw [(List.cons.inj h).1, hb] at hdigit
  cases hdigit

theorem numeral_append_inj {m n : Nat} {x y : Bytes} (hx : Ends x) (hy : Ends y)
    (h : numeral m ++ x = numeral n ++ y) : m = n := by
  have hsplit := congrArg splitDigits h
  rw [splitDigits_append (isDigit_of_mem_numeral m) hx.noDigit,
    splitDigits_append (isDigit_of_mem_numeral n) hy.noDigit] at hsplit
  rw [← digitsValue_numeral m, (Prod.mk.inj hsplit).1, digitsValue_numeral]

/-- No numeral starts with a zero but that of zero, which ends there. -/
theorem eq_zero_of_numeral_append {m : Nat} {x rest : Bytes} (hrest : Ends rest)
    (h : byte '0' :: x = numeral m ++ rest) : m = 0 ∧ NoDigit x := by
  obtain ⟨b, bs, hbs, -, hzero⟩ := exists_numeral_cons m
  have hnumeral : m = 0 → numeral m = [byte '0'] := fun hm => by rw [hm]; rfl
  rw [hbs, List.cons_append] at h
  obtain ⟨rfl, rfl⟩ := List.cons.inj h
  have hm : m = 0 := Nat.eq_zero_of_not_pos fun hpos => hzero hpos rfl
  obtain rfl : bs = [] := by
    rw [hnumeral hm] at hbs
    exact (List.cons.inj hbs).2.symm
  exact ⟨hm, hrest.noDigit⟩

/-- A sign stands before the numeral of an integer that has it. -/
theorem exists_numeral_append {sign x rest : Bytes} {n : Int}
    (hsign : sign = [] ∨ sign = [byte '-']) (hx : ∀ y, x ≠ byte '-' :: y)
    (h : sign ++ x = decimal n ++ rest) : ∃ m : Nat, x = numeral m ++ rest ∧
      (sign = [] ∧ n = m ∨ sign = [byte '-'] ∧ n = -m ∧ 0 < m) := by
  rcases decimal_cases n with ⟨m, hn, hm⟩ | ⟨m, hpos, hn, hm⟩ <;> rw [hm] at h <;>
    rcases hsign with rfl | rfl
  · exact ⟨m, h, .inl ⟨rfl, hn⟩⟩
  · exact absurd h.symm (numeral_append_ne (by decide))
  · exact absurd h (hx _)
  · exact ⟨m, (List.cons.inj h).2, .inr ⟨rfl, hn, hpos⟩⟩

/-- Where digits are followed by the mark of a fraction or an exponent, no numeral ends. -/
theorem digits_append_ne {ds x rest : Bytes} {mark : UInt8} {m : Nat}
    (hds : ∀ d ∈ ds, isDigit d = true)
    (hmark : isDigit mark = false ∧ continuesNumber mark = true) (hrest : Ends rest) :
    ds ++ mark :: x ≠ numeral m ++ rest := by
  intro h
  have hsplit := congrArg splitDigits h
  have hstop : NoDigit (mark :: x) := fun b hb => Option.some.inj hb ▸ hmark.1
  rw [splitDigits_append hds hstop,
    splitDigits_append (isDigit_of_mem_numeral m) hrest.noDigit] at hsplit
  have hend := hrest mark (by rw [← (Prod.mk.inj hsplit).2]; rfl)
  rw [hmark.2] at hend
  cases hend

/-- Neither a digit nor the mark of a fraction or an exponent is a sign. -/
theorem digits_append_ne_minus {ds x y : Bytes} {mark : UInt8}
    (hds : ∀ d ∈ ds, isDigit d = true) (hmark : continuesNumber mark = true) :
    ds ++ mark :: x ≠ byte '-' :: y := by
  intro h
  cases ds with
  | nil =>
      obtain rfl : mark = byte '-' := (List.cons.inj h).1
      exact absurd hmark (by decide)
  | cons d ds =>
      obtain rfl : d = byte '-' := (List.cons.inj h).1
      exact absurd (hds _ List.mem_cons_self) (by decide)

theorem decimal_append_inj {n n' : Int} {x y : Bytes} (hx : Ends x) (hy : Ends y)
    (h : decimal n' ++ x = decimal n ++ y) : n' = n := by
  rcases decimal_cases n' with ⟨m', rfl, hm'⟩ | ⟨m', -, rfl, hm'⟩ <;> rw [hm'] at h
  · obtain ⟨m, hm, ⟨-, rfl⟩ | ⟨hsign, -⟩⟩ := exists_numeral_append (.inl rfl)
      (fun y => numeral_append_ne (by decide)) h
    · rw [numeral_append_inj hx hy hm]
    · cases hsign
  · have hsign : [byte '-'] ++ (numeral m' ++ x) = decimal n ++ y := h
    obtain ⟨m, hm, ⟨hnone, -⟩ | ⟨-, rfl, -⟩⟩ := exists_numeral_append (.inr rfl)
      (fun y => numeral_append_ne (by decide)) hsign
    · cases hnone
    · rw [numeral_append_inj hx hy hm]

/-- **No other number is the numeral of an integer in the range**, whatever follows them. -/
theorem OtherNumber.append_ne {lo hi n : Int} {t x y : Bytes} (h : OtherNumber lo hi t)
    (hx : Ends x) (hy : Ends y) (hn : lo ≤ n ∧ n ≤ hi) : t ++ x ≠ Json.decimal n ++ y := by
  intro heq
  cases h with
  | plus =>
      obtain ⟨m, hm, -⟩ := exists_numeral_append (.inl rfl)
        (fun y h => absurd (List.cons.inj h).1 (by decide)) heq
      exact numeral_append_ne (by decide) hm.symm
  | negativeZero =>
      have hsign : [byte '-'] ++ byte '0' :: x = Json.decimal n ++ y := heq
      obtain ⟨m, hm, ⟨hnone, -⟩ | ⟨-, -, hpos⟩⟩ := exists_numeral_append (.inr rfl)
        (fun y h => absurd (List.cons.inj h).1 (by decide)) hsign
      · cases hnone
      · exact absurd (eq_zero_of_numeral_append hy hm).1 (Nat.ne_of_gt hpos)
  | leadingZero hsign hd =>
      rw [List.append_assoc] at heq
      obtain ⟨m, hm, -⟩ := exists_numeral_append hsign
        (fun y h => absurd (List.cons.inj h).1 (by decide)) heq
      have hend := (eq_zero_of_numeral_append hy hm).2 _ rfl
      rw [hd] at hend
      cases hend
  | decimal hsign hds hmark =>
      rename_i sign ds t mark
      have hcontinues : isDigit mark = false ∧ continuesNumber mark = true := by
        rcases hmark with rfl | rfl | rfl <;> decide
      rw [List.append_assoc, List.append_assoc] at heq
      obtain ⟨m, hm, -⟩ :=
        exists_numeral_append hsign (fun y => digits_append_ne_minus hds hcontinues.2) heq
      exact digits_append_ne hds hcontinues hy hm
  | outside hout => exact hout (decimal_append_inj hx hy heq ▸ hn)

/-- Another number starts with a byte of a number. -/
theorem OtherNumber.exists_cons {lo hi : Int} {t : Bytes} (h : OtherNumber lo hi t) :
    ∃ b t', t = b :: t' ∧ isBlank b = false ∧ b ≠ byte ']' ∧ b ≠ byte 'n' := by
  have hfirst : ∀ b, b = byte '-' ∨ isDigit b = true →
      isBlank b = false ∧ b ≠ byte ']' ∧ b ≠ byte 'n' := fun b hb =>
    ⟨isBlank_of_first hb, ne_of_first hb (by decide), ne_of_first hb (by decide)⟩
  cases h with
  | plus => exact ⟨_, _, rfl, by decide⟩
  | negativeZero => exact ⟨_, _, rfl, by decide⟩
  | leadingZero hsign hd =>
      rcases hsign with rfl | rfl <;> exact ⟨_, _, rfl, by decide⟩
  | decimal hsign hds hmark =>
      rename_i sign ds t mark
      rcases hsign with rfl | rfl
      · cases ds with
        | nil => rcases hmark with rfl | rfl | rfl <;> exact ⟨_, _, rfl, by decide⟩
        | cons d ds => exact ⟨d, _, rfl, hfirst d (.inr (hds d List.mem_cons_self))⟩
      · exact ⟨_, _, rfl, by decide⟩
  | outside hout =>
      rename_i n
      rcases decimal_cases n with ⟨m, -, hm⟩ | ⟨m, -, -, hm⟩ <;> rw [hm]
      · obtain ⟨b, bs, hbs, hdigit, -⟩ := exists_numeral_cons m
        exact ⟨b, bs, hbs, hfirst b (.inr hdigit)⟩
      · exact ⟨_, _, rfl, by decide⟩

section Refuses

variable {α β : Type} {r : Reader α} {val : α → Int} {lo hi : Int} {t : Bytes}

theorem Refuses.map (h : Refuses r t) (f : α → β) : Refuses (r.map f) t := by
  intro ws rest b rest' hws hrest hr
  obtain ⟨⟨a, r'⟩, ha, -⟩ := bind_eq_ok_iff.1 hr
  exact h ws rest a r' hws hrest ha

/-- **What is no number of a type is not read as one.** -/
theorem OtherNumber.refuses (h : OtherNumber lo hi t) (hr : r.ReadsNumerals val)
    (hrange : ∀ a, lo ≤ val a ∧ val a ≤ hi) : Refuses r t := by
  intro ws rest a rest' hws hrest hrun
  obtain ⟨ws', hws', hrest', heq⟩ := hr _ _ _ hrun
  obtain ⟨b, t', ht, hb, -⟩ := h.exists_cons
  exact h.append_ne hrest hrest' (hrange a)
    (append_eq_of_blank hws hws' ⟨b, t', ht, hb⟩ (wellFormed_decimal (val a)).exists_cons heq)

/-- An option is no such number either, which is not `null`. -/
theorem OtherNumber.refuses_option (h : OtherNumber lo hi t) (hr : Refuses r t) :
    Refuses (optionReader r) t := by
  intro ws rest o rest' hws hrest hrun
  obtain ⟨b, t', rfl, hb, -, hnull⟩ := h.exists_cons
  replace hrun : Reader.runToken _ (ws ++ b :: (t' ++ rest)) = _ := hrun
  rw [runToken_blank hws, runToken_cons hb, if_neg hnull] at hrun
  exact hr.map Option.some [] rest o rest' blank_of_mem_nil hrest hrun

end Refuses

end MailPush.Json
