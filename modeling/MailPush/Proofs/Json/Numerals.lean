import MailPush.Json.Writer
import MailPush.Proofs.Json.Reads

set_option autoImplicit false

/-! # Numerals

The decimal numeral of a number (`numeral`), as it is written, and what it is read as. A numeral of
a 64-bit word is never refused for its size (`exceedsDouble_numeral`), so it is read as the integer
that it denotes, with or without a minus sign (`readMagnitude_numeral`). A numeral cut short is the
numeral of a smaller number (`cut_numeral`); this is why a reading of it may succeed.
-/

namespace MailPush.Json

/-- The decimal digits of a number. -/
def numeral (n : Nat) : Bytes := utf8 (writeNat n)

/-! ## Digits -/

/-- The byte of a decimal digit. -/
def digitByte (d : Nat) : UInt8 := byte (Nat.digitChar d)

theorem isDigit_digitByte : ∀ d < 10, isDigit (digitByte d) = true := by decide

theorem digitValue_digitByte : ∀ d < 10, digitValue (digitByte d) = d := by decide

theorem digitByte_eq_zero_iff : ∀ d < 10, (digitByte d = byte '0' ↔ d = 0) := by decide

theorem numeral_of_lt {n : Nat} (h : n < 10) : numeral n = [digitByte n] := by
  have hascii : ∀ d < 10, (Nat.digitChar d).toNat < 128 := by decide
  rw [numeral, writeNat, Nat.toDigits_of_lt_base h, utf8_cons_ascii (hascii n h)]
  rfl

theorem numeral_of_le {n : Nat} (h : 10 ≤ n) :
    numeral n = numeral (n / 10) ++ [digitByte (n % 10)] := by
  have hlast := numeral_of_lt (Nat.mod_lt n (by decide : 0 < 10))
  rw [numeral, writeNat, Nat.toDigits_of_base_le (by decide) h, utf8_append]
  rw [numeral, writeNat, Nat.toDigits_of_lt_base (Nat.mod_lt n (by decide))] at hlast
  rw [hlast]
  rfl

/-- Numerals are built digit by digit. -/
theorem numeral_induction {P : Nat → Prop} (one : ∀ n < 10, P n)
    (more : ∀ n, 10 ≤ n → P (n / 10) → P n) (n : Nat) : P n := by
  induction n using Nat.strongRecOn with
  | ind n ih =>
      by_cases h : n < 10
      · exact one n h
      · exact more n (Nat.not_lt.1 h) (ih (n / 10) (by omega))

theorem isDigit_of_mem_numeral (n : Nat) : ∀ b ∈ numeral n, isDigit b = true := by
  induction n using numeral_induction with
  | one n h =>
      intro b hb
      rw [numeral_of_lt h, List.mem_singleton] at hb
      rw [hb]
      exact isDigit_digitByte n h
  | more n h ih =>
      intro b hb
      rw [numeral_of_le h, List.mem_append, List.mem_singleton] at hb
      rcases hb with hb | rfl
      · exact ih b hb
      · exact isDigit_digitByte _ (Nat.mod_lt n (by decide))

theorem digitsValue_concat (digits : Bytes) (b : UInt8) :
    digitsValue (digits ++ [b]) = 10 * digitsValue digits + digitValue b := by
  simp [digitsValue, List.foldl_append]

/-- A numeral denotes its number. -/
theorem digitsValue_numeral (n : Nat) : digitsValue (numeral n) = n := by
  induction n using numeral_induction with
  | one n h =>
      rw [numeral_of_lt h]
      show 10 * 0 + digitValue (digitByte n) = n
      rw [digitValue_digitByte n h]
      omega
  | more n h ih =>
      rw [numeral_of_le h, digitsValue_concat, ih,
        digitValue_digitByte _ (Nat.mod_lt n (by decide))]
      omega

/-- A numeral starts with a digit, which is not zero unless the number is. -/
theorem exists_numeral_cons (n : Nat) :
    ∃ b bs, numeral n = b :: bs ∧ isDigit b = true ∧ (0 < n → b ≠ byte '0') := by
  induction n using numeral_induction with
  | one n h =>
      refine ⟨digitByte n, [], numeral_of_lt h, isDigit_digitByte n h, fun hpos hzero => ?_⟩
      have := (digitByte_eq_zero_iff n h).1 hzero
      omega
  | more n h ih =>
      obtain ⟨b, bs, hbs, hdigit, hzero⟩ := ih
      refine ⟨b, bs ++ [digitByte (n % 10)], ?_, hdigit, fun _ => hzero (by omega)⟩
      rw [numeral_of_le h, hbs]
      rfl

theorem numeral_ne_nil (n : Nat) : numeral n ≠ [] := by
  obtain ⟨b, bs, hbs, -⟩ := exists_numeral_cons n
  rw [hbs]
  exact List.cons_ne_nil b bs

theorem hasLeadingZero_numeral (n : Nat) : hasLeadingZero (numeral n) = false := by
  by_cases h : n < 10
  · rw [numeral_of_lt h]
    rfl
  · obtain ⟨b, bs, hbs, -, hzero⟩ := exists_numeral_cons n
    have hne : (b == byte '0') = false := by simpa using hzero (by omega)
    rw [hbs]
    cases bs with
    | nil => rfl
    | cons c cs => exact hne

/-- **A numeral cut short is a numeral**, of a number that is not larger, and not zero. -/
theorem cut_numeral {n : Nat} {front : Bytes} (h : Cut front (numeral n)) :
    front = [] ∨ ∃ m, front = numeral m ∧ 0 < m ∧ m ≤ n := by
  induction n using numeral_induction generalizing front with
  | one n hn =>
      rw [numeral_of_lt hn] at h
      exact .inl h.eq_nil
  | more n hn ih =>
      rw [numeral_of_le hn] at h
      rcases h.append_cases with hcut | ⟨front', rfl, hfront'⟩
      · rcases ih hcut with rfl | ⟨m, rfl, hpos, hle⟩
        · exact .inl rfl
        · exact .inr ⟨m, rfl, hpos, by omega⟩
      · -- only the last digit is missing
        rw [hfront'.eq_nil]
        exact .inr ⟨n / 10, List.append_nil _, by omega, by omega⟩

/-! ## The range of a word -/

/-- Digits are taken up one by one for as long as the number is a word. -/
theorem absorbDigits_of_lt (digits : List Nat) (n : Nat)
    (h : digits.foldl (fun n d => n * 10 + d) n < wordLimit) :
    absorbDigits n digits = (digits.foldl (fun n d => n * 10 + d) n, 0) := by
  induction digits generalizing n with
  | nil => rfl
  | cons d ds ih =>
      -- what is taken up later does not make the number smaller
      have hgrow : ∀ (ds : List Nat) (m : Nat), m ≤ ds.foldl (fun n d => n * 10 + d) m := by
        intro ds
        induction ds with
        | nil => exact fun m => Nat.le_refl m
        | cons e es ihe =>
            intro m
            exact Nat.le_trans (by omega : m ≤ m * 10 + e) (ihe _)
      have hd : n * 10 + d < wordLimit := Nat.lt_of_le_of_lt (hgrow ds _) h
      rw [absorbDigits, if_pos hd]
      exact ih _ h

theorem digitsValue_eq_foldl (digits : Bytes) :
    digitsValue digits = (digits.map digitValue).foldl (fun n d => n * 10 + d) 0 := by
  rw [digitsValue, List.foldl_map]
  congr 1
  funext n d
  omega

/-- Rounding to 53 binary digits does not double a number. -/
theorem round53_le (n : Nat) : round53 n ≤ 2 * n := by
  unfold round53
  dsimp only
  split
  · omega
  next hwidth =>
    have hunit : Nat.pow 2 (n.log2 + 1 - 53) ≤ n := by
      have hn : n ≠ 0 := by
        rintro rfl
        exact hwidth (by decide)
      calc 2 ^ (n.log2 + 1 - 53) ≤ 2 ^ n.log2 := Nat.pow_le_pow_right (by decide) (by omega)
        _ ≤ n := Nat.log2_self_le hn
    generalize Nat.pow 2 (n.log2 + 1 - 53) = unit at hunit
    have hdiv : n / unit * unit ≤ n := Nat.div_mul_le_self n unit
    split
    · rw [Nat.add_mul, Nat.one_mul]
      omega
    · omega

/-- **No numeral of a word is beyond double precision.** -/
theorem exceedsDouble_numeral {n : Nat} (h : n < wordLimit) :
    exceedsDouble ((numeral n).map digitValue) [] 0 = false := by
  have hvalue : ((numeral n).map digitValue).foldl (fun n d => n * 10 + d) 0 = n := by
    rw [← digitsValue_eq_foldl, digitsValue_numeral]
  have habsorb : absorbDigits 0 ((numeral n).map digitValue) = (n, 0) := by
    rw [absorbDigits_of_lt _ 0 (by rw [hvalue]; exact h), hvalue]
  have hsmall : round53 n * round53 1 < doubleLimit := by
    have hone : round53 1 = 1 := by decide
    have hlimit : 2 * wordLimit ≤ doubleLimit := by decide +kernel
    have hround := round53_le n
    rw [hone]
    omega
  rw [exceedsDouble, habsorb]
  show (n != 0 && decide ((0 : Int) ≤ 0) && (decide ((308 : Int) < 0) ||
    decide (doubleLimit ≤ round53 n * round53 1))) = false
  simp [Nat.not_le.2 hsmall]

/-! ## Readings -/

/-- A text that does not start with a digit. -/
def NoDigit (bs : Bytes) : Prop := ∀ b ∈ bs.head?, isDigit b = false

theorem Ends.noDigit {rest : Bytes} (h : Ends rest) : NoDigit rest := by
  intro b hb
  have hends := h b hb
  simp only [continuesNumber, Bool.or_eq_false_iff] at hends
  exact hends.1.1.1

/-- Digits end where no digit follows. -/
theorem splitDigits_append {ds rest : Bytes} (hds : ∀ d ∈ ds, isDigit d = true)
    (hrest : NoDigit rest) : splitDigits (ds ++ rest) = (ds, rest) := by
  have hnone : rest.takeWhile isDigit = [] ∧ rest.dropWhile isDigit = rest := by
    cases rest with
    | nil => exact ⟨rfl, rfl⟩
    | cons b bs =>
        have hb : ¬ isDigit b = true := by simp [hrest b rfl]
        exact ⟨List.takeWhile_cons_of_neg hb, List.dropWhile_cons_of_neg hb⟩
  rw [splitDigits, List.takeWhile_append_of_pos hds, List.dropWhile_append_of_pos hds, hnone.1,
    hnone.2, List.append_nil]

theorem readDigits_numeral (n : Nat) {rest : Bytes} (hrest : Ends rest) :
    readDigits (numeral n ++ rest) = .ok (numeral n, rest) := by
  have hne : (numeral n).isEmpty = false := by
    simpa using numeral_ne_nil n
  rw [readDigits, splitDigits_append (isDigit_of_mem_numeral n) hrest.noDigit]
  dsimp only
  rw [hne]
  rfl

theorem readFraction_of_ends {rest : Bytes} (hrest : Ends rest) :
    readFraction rest = .ok (none, rest) := by
  cases rest with
  | nil => rfl
  | cons b bs =>
      have h := hrest b rfl
      simp only [continuesNumber, Bool.or_eq_false_iff, beq_eq_false_iff_ne] at h
      rw [readFraction, if_neg h.1.1.2]

theorem readExponent_of_ends {rest : Bytes} (hrest : Ends rest) :
    readExponent rest = .ok (none, rest) := by
  cases rest with
  | nil => rfl
  | cons b bs =>
      have h := hrest b rfl
      simp only [continuesNumber, Bool.or_eq_false_iff, beq_eq_false_iff_ne] at h
      rw [readExponent, if_neg (not_or.2 ⟨h.1.2, h.2⟩)]

/-- **A numeral is read as the integer that it denotes.** -/
theorem readMagnitude_numeral {n : Nat} (h : n < wordLimit) (negative : Bool) {rest : Bytes}
    (hrest : Ends rest) :
    readMagnitude negative (numeral n ++ rest) = .ok (.integer negative n, rest) := by
  rw [readMagnitude, readDigits_numeral n hrest]
  show (if hasLeadingZero (numeral n) = true then _ else
    readFraction rest >>= fun p => readExponent p.2 >>= fun q => _) = _
  rw [hasLeadingZero_numeral, readFraction_of_ends hrest]
  show (readExponent rest >>= fun q => _) = _
  rw [readExponent_of_ends hrest]
  show (if exceedsDouble ((numeral n).map digitValue) [] 0 = true then _ else
    Except.ok (Number.integer negative (digitsValue (numeral n)), rest)) = _
  rw [exceedsDouble_numeral h, digitsValue_numeral]
  rfl

/-- The numeral of a number with its sign. -/
def signedNumeral (negative : Bool) (n : Nat) : Bytes :=
  if negative then byte '-' :: numeral n else numeral n

theorem readNumber_signedNumeral {n : Nat} (h : n < wordLimit) (negative : Bool) {rest : Bytes}
    (hrest : Ends rest) :
    readNumber (signedNumeral negative n ++ rest) = .ok (.integer negative n, rest) := by
  have hmagnitude := readMagnitude_numeral h negative hrest
  cases negative with
  | true => exact hmagnitude
  | false =>
      obtain ⟨b, bs, hbs, hdigit, -⟩ := exists_numeral_cons n
      have hminus : b ≠ byte '-' := by
        rintro rfl
        revert hdigit
        decide
      show readNumber (numeral n ++ rest) = _
      rw [hbs, List.cons_append] at hmagnitude ⊢
      rw [readNumber, if_neg hminus]
      exact hmagnitude

theorem isBlank_of_isDigit {b : UInt8} (h : isDigit b = true) : isBlank b = false := by
  rw [Bool.eq_false_iff]
  intro hblank
  simp only [isBlank, Bool.or_eq_true, beq_iff_eq] at hblank
  rcases hblank with ((rfl | rfl) | rfl) | rfl <;> revert h <;> decide

/-- A number starts with a minus sign or a digit. -/
theorem exists_signedNumeral_cons (negative : Bool) (n : Nat) :
    ∃ b bs, signedNumeral negative n = b :: bs ∧ (b = byte '-' ∨ isDigit b = true) ∧
      isBlank b = false := by
  cases negative with
  | true => exact ⟨byte '-', numeral n, rfl, .inl rfl, by decide⟩
  | false =>
      obtain ⟨b, bs, hbs, hdigit, -⟩ := exists_numeral_cons n
      exact ⟨b, bs, hbs, .inr hdigit, isBlank_of_isDigit hdigit⟩

theorem numberReader_signedNumeral {α : Type} {convert : Number → Option α} {negative : Bool}
    {n : Nat} {a : α} (hn : n < wordLimit) (h : convert (.integer negative n) = some a)
    {rest : Bytes} (hrest : Ends rest) :
    (numberReader convert).run (signedNumeral negative n ++ rest) = .ok (a, rest) := by
  have hnumber := readNumber_signedNumeral hn negative hrest
  obtain ⟨b, bs, hbs, hfirst, hblank⟩ := exists_signedNumeral_cons negative n
  rw [hbs, List.cons_append] at hnumber ⊢
  show Reader.runToken _ (b :: (bs ++ rest)) = _
  rw [runToken_cons hblank, if_pos hfirst, hnumber]
  simp only [bind, Except.bind, h]

/-- **A number reader takes every numeral that it can convert**, and takes one cut short if it can
convert every smaller number. -/
theorem reads_signedNumeral {α : Type} {convert : Number → Option α} {negative : Bool} {n : Nat}
    {a : α} (hn : n < wordLimit) (h : convert (.integer negative n) = some a)
    (hbelow : ∀ m, 0 < m → m ≤ n → (convert (.integer negative m)).isSome) :
    Reads (numberReader convert).run (signedNumeral negative n) a where
  whole rest hrest := numberReader_signedNumeral hn h hrest
  cut front hfront := by
    have hsmaller : ∀ m, 0 < m → m ≤ n →
        Starved ((numberReader convert).run (signedNumeral negative m)) := by
      intro m hpos hm
      obtain ⟨c, hc⟩ := Option.isSome_iff_exists.1 (hbelow m hpos hm)
      have hrun := numberReader_signedNumeral (Nat.lt_of_le_of_lt hm hn) hc ends_nil
      rw [List.append_nil] at hrun
      exact .inr ⟨c, hrun⟩
    cases negative with
    | true =>
        rcases hfront.cons_cases with rfl | ⟨front', rfl, hfront'⟩
        · exact .inl rfl
        · rcases cut_numeral hfront' with rfl | ⟨m, rfl, hpos, hm⟩
          · exact .inl rfl
          · exact hsmaller m hpos hm
    | false =>
        rcases cut_numeral hfront with rfl | ⟨m, rfl, hpos, hm⟩
        · exact .inl rfl
        · exact hsmaller m hpos hm

/-! ## Words -/

theorem natural?_of_le {limit n : Nat} (h : n ≤ limit) :
    Number.natural? limit (.integer false n) = some n := by
  rw [Number.natural?, if_pos h]

theorem reads_natural {limit n : Nat} (hlimit : limit < wordLimit) (h : n ≤ limit) :
    Reads (numberReader (Number.natural? limit)).run (numeral n) n := by
  refine reads_signedNumeral (by omega) (natural?_of_le h) fun m _ hm => ?_
  rw [natural?_of_le (by omega)]
  rfl

theorem reads_uint32 (n : UInt32) : Reads uint32Reader.run (utf8 (Writable.write n)) n := by
  have hn : n.toNat ≤ 4294967295 := Nat.le_of_lt_succ n.toNat_lt
  have h := (reads_natural (by decide) hn).map UInt32.ofNat
  rwa [UInt32.ofNat_toNat] at h

theorem reads_uint64 (n : UInt64) : Reads uint64Reader.run (utf8 (Writable.write n)) n := by
  have hn : n.toNat ≤ 18446744073709551615 := Nat.le_of_lt_succ n.toNat_lt
  have h := (reads_natural (by decide) hn).map UInt64.ofNat
  rwa [UInt64.ofNat_toNat] at h

/-- An integer is read if its magnitude is that of a signed word. -/
theorem reads_signed {limit : Nat} (hlimit : limit + 1 < wordLimit) {n : Int}
    (hlo : -(limit + 1 : Int) ≤ n) (hhi : n ≤ limit) :
    Reads (numberReader (Number.signed? limit)).run (utf8 (writeInt n)) n := by
  cases n with
  | ofNat n =>
      have hn : n ≤ limit := by
        simp only [Int.ofNat_eq_natCast] at hhi
        omega
      have hsigned : ∀ m ≤ n, Number.signed? limit (.integer false m) = some (m : Int) := by
        intro m hm
        rw [Number.signed?, if_pos (Nat.le_trans hm hn)]
      refine reads_signedNumeral (by omega) (hsigned n (Nat.le_refl n)) ?_
      intro m _ hm
      rw [hsigned m hm]
      rfl
  | negSucc n =>
      have hn : n ≤ limit := by omega
      have hsigned : ∀ m, 0 < m → m ≤ n + 1 →
          Number.signed? limit (.integer true m) = some (-(m : Int)) := by
        intro m hpos hm
        rw [Number.signed?, if_pos ⟨hpos, by omega⟩]
      have hwrite : utf8 (writeInt (.negSucc n)) = signedNumeral true (n + 1) :=
        utf8_cons_ascii (by decide) _
      rw [hwrite]
      refine reads_signedNumeral (by omega) (hsigned (n + 1) (by omega) (Nat.le_refl _)) ?_
      intro m hpos hm
      rw [hsigned m hpos hm]
      rfl

theorem reads_int64 (n : Int64) : Reads int64Reader.run (utf8 (Writable.write n)) n := by
  have hlo := n.le_toInt
  have hhi := n.toInt_lt
  have hread : Reads (numberReader (Number.signed? 9223372036854775807)).run
      (utf8 (writeInt n.toInt)) n.toInt :=
    reads_signed (by decide) (by omega) (by omega)
  have h := hread.map Int64.ofInt
  rwa [Int64.ofInt_toInt] at h

end MailPush.Json
