import MailPush.Json.Writer
import MailPush.Proofs.Json.Reads

set_option autoImplicit false

/-! # Strings

What is written of a character spells it (`Spells`): it is read as the bytes of the character, and
cut short, within an escape or between two bytes, it leaves the string without its end. There are
three forms, the short escape, the escape by code point and the bytes themselves
(`spells_writeChar`). By induction over the characters the same holds of a string
(`delimits_readText`).
-/

namespace MailPush.Json

/-! ## One step of the reader -/

/-- Puts bytes in front of those that are read. -/
def prepend (bytes : Bytes) (result : Except Fault (Bytes × Bytes)) :
    Except Fault (Bytes × Bytes) :=
  result.map fun p => (bytes ++ p.1, p.2)

theorem prepend_append (as bs : Bytes) (result : Except Fault (Bytes × Bytes)) :
    prepend as (prepend bs result) = prepend (as ++ bs) result := by
  cases result with
  | error => rfl
  | ok p => simp [prepend, Except.map]

theorem unescape_nil : unescape [] = .error .truncated := by
  rw [unescape]

theorem unescape_quote (rest : Bytes) : unescape (byte '"' :: rest) = .ok ([], rest) := by
  rw [unescape, if_pos rfl]

theorem unescape_escape {bs char rest : Bytes} (h : readEscape bs = .ok (char, rest)) :
    unescape (byte '\\' :: bs) = prepend char (unescape rest) := by
  rw [unescape, if_neg (by decide), if_pos rfl]
  split
  next fault he =>
    rw [h] at he
    cases he
  next char' rest' he =>
    rw [h] at he
    cases he
    cases unescape rest <;> rfl

theorem unescape_escape_error {bs : Bytes} {fault : Fault} (h : readEscape bs = .error fault) :
    unescape (byte '\\' :: bs) = .error fault := by
  rw [unescape, if_neg (by decide), if_pos rfl]
  split
  next fault' he =>
    rw [h] at he
    cases he
    rfl
  next char' rest' he =>
    rw [h] at he
    cases he

/-- A byte that stands for itself in a string. -/
def Plain (b : UInt8) : Prop := b ≠ byte '"' ∧ b ≠ byte '\\' ∧ 0x20 ≤ b

theorem unescape_plain {b : UInt8} (h : Plain b) (rest : Bytes) :
    unescape (b :: rest) = prepend [b] (unescape rest) := by
  obtain ⟨hquote, hescape, hcontrol⟩ := h
  rw [unescape, if_neg hquote, if_neg hescape, if_neg (UInt8.not_lt.2 hcontrol)]
  cases unescape rest <;> rfl

theorem unescape_plain_append {bs : Bytes} (h : ∀ b ∈ bs, Plain b) (rest : Bytes) :
    unescape (bs ++ rest) = prepend bs (unescape rest) := by
  induction bs with
  | nil =>
      rw [List.nil_append]
      cases unescape rest <;> rfl
  | cons b bs ih =>
      rw [List.cons_append, unescape_plain (h b List.mem_cons_self),
        ih fun c hc => h c (List.mem_cons_of_mem _ hc), prepend_append]
      rfl

/-! ## Characters -/

/-- The text that is written of a character is read as its bytes, and there is nothing to be read
of it cut short. -/
structure Spells (text : Bytes) (c : Char) : Prop where
  whole : ∀ rest, unescape (text ++ rest) = prepend (String.utf8EncodeChar c) (unescape rest)
  cut : ∀ front, Cut front text → unescape front = .error .truncated

theorem spells_plain {c : Char} (h : ∀ b ∈ String.utf8EncodeChar c, Plain b) :
    Spells (String.utf8EncodeChar c) c where
  whole rest := unescape_plain_append h rest
  cut front hfront := by
    have hplain : ∀ b ∈ front, Plain b := fun b hb => h b (hfront.1.subset hb)
    rw [← List.append_nil front, unescape_plain_append hplain, unescape_nil]
    rfl

/-- A character is spelled by an escape that is read as its bytes. -/
theorem spells_escape {escape : Bytes} {c : Char}
    (h : ∀ rest, readEscape (escape ++ rest) = .ok (String.utf8EncodeChar c, rest))
    (hcut : ∀ front, Cut front escape → readEscape front = .error .truncated) :
    Spells (byte '\\' :: escape) c where
  whole rest := unescape_escape (h rest)
  cut front hfront := by
    rcases hfront.cons_cases with rfl | ⟨front', rfl, hfront'⟩
    · exact unescape_nil
    · exact unescape_escape_error (hcut front' hfront')

theorem spells_short {c : Char} {b e : UInt8} (hu : e ≠ byte 'u') (he : shortEscape? e = some b)
    (hc : String.utf8EncodeChar c = [b]) : Spells [byte '\\', e] c := by
  refine spells_escape ?_ ?_
  · intro rest
    show readEscape (e :: rest) = _
    rw [readEscape, if_neg hu, he, hc]
  · intro front hfront
    rw [hfront.eq_nil]
    rfl

theorem hexValue?_digitChar : ∀ d < 16, hexValue? (byte (Nat.digitChar d)) = some d := by decide

theorem readHex_cut {front : Bytes} {a b c d : UInt8} (h : Cut front [a, b, c, d]) :
    readHex front = .error .truncated := by
  rcases h.cons_cases with rfl | ⟨front₁, rfl, h₁⟩
  · rfl
  rcases h₁.cons_cases with rfl | ⟨front₂, rfl, h₂⟩
  · rfl
  rcases h₂.cons_cases with rfl | ⟨front₃, rfl, h₃⟩
  · rfl
  rw [h₃.eq_nil]
  rfl

/-- A code point of a character is no surrogate. -/
theorem not_isSurrogate (c : Char) :
    isTrailingSurrogate c.toNat = false ∧ isLeadingSurrogate c.toNat = false := by
  have hvalid : c.toNat < 0xD800 ∨ (0xDFFF < c.toNat ∧ c.toNat < 0x110000) := c.valid
  simp only [isTrailingSurrogate, isLeadingSurrogate, Bool.and_eq_false_iff,
    decide_eq_false_iff_not]
  omega

/-- A character is read from its code point. -/
theorem readCodePoint_of_readHex {c : Char} {bs rest : Bytes}
    (h : readHex bs = .ok (c.toNat, rest)) :
    readCodePoint bs = .ok (String.utf8EncodeChar c, rest) := by
  obtain ⟨htrailing, hleading⟩ := not_isSurrogate c
  rw [readCodePoint, h]
  show (if isTrailingSurrogate c.toNat = true then _ else
    if isLeadingSurrogate c.toNat = true then _ else
    Except.ok (codePointBytes c.toNat, rest)) = _
  rw [htrailing, hleading, codePointBytes, Char.ofNat_toNat]
  rfl

/-- The escape of a control character by its code point. -/
theorem spells_codePoint {c : Char} (h : c < ' ') :
    Spells (utf8 ['\\', 'u', '0', '0', Nat.digitChar (c.toNat / 16), Nat.digitChar (c.toNat % 16)])
      c := by
  have hc : c.toNat < 32 := h
  have hhi := hexValue?_digitChar (c.toNat / 16) (by omega)
  have hlo := hexValue?_digitChar (c.toNat % 16) (by omega)
  have hascii : ∀ d < 16, (Nat.digitChar d).toNat < 128 := by decide
  have hhex : ∀ rest, readHex (byte '0' :: byte '0' :: byte (Nat.digitChar (c.toNat / 16)) ::
      byte (Nat.digitChar (c.toNat % 16)) :: rest) = .ok (c.toNat, rest) := by
    intro rest
    have hzero : hexValue? (byte '0') = some 0 := by decide
    have hvalue : ((0 * 16 + 0) * 16 + c.toNat / 16) * 16 + c.toNat % 16 = c.toNat := by omega
    rw [readHex, hhi, hlo, hzero]
    dsimp only
    rw [hvalue]
  have htext : utf8 ['\\', 'u', '0', '0', Nat.digitChar (c.toNat / 16),
      Nat.digitChar (c.toNat % 16)] = byte '\\' :: byte 'u' :: byte '0' :: byte '0' ::
        byte (Nat.digitChar (c.toNat / 16)) :: [byte (Nat.digitChar (c.toNat % 16))] := by
    refine utf8_ascii fun d hd => ?_
    simp only [List.mem_cons, List.not_mem_nil, or_false] at hd
    rcases hd with rfl | rfl | rfl | rfl | rfl | rfl
    · decide
    · decide
    · decide
    · decide
    · exact hascii _ (by omega)
    · exact hascii _ (by omega)
  rw [htext]
  refine spells_escape ?_ ?_
  · intro rest
    exact readCodePoint_of_readHex (hhex rest)
  · intro front hfront
    rcases hfront.cons_cases with rfl | ⟨front', rfl, hfront'⟩
    · rfl
    · show readCodePoint front' = _
      rw [readCodePoint, readHex_cut hfront']
      rfl

/-- The short escapes of control characters are those that are read. -/
theorem spells_controlEscape {c e : Char} (h : controlEscape? c = some e) :
    Spells (utf8 ['\\', e]) c := by
  have hpairs : (c, e) ∈ [('\x08', 'b'), ('\t', 't'), ('\n', 'n'), ('\x0c', 'f'), ('\r', 'r')] := by
    unfold controlEscape? at h
    grind
  simp only [List.mem_cons, List.not_mem_nil, or_false, Prod.mk.injEq] at hpairs
  rcases hpairs with ⟨rfl, rfl⟩ | ⟨rfl, rfl⟩ | ⟨rfl, rfl⟩ | ⟨rfl, rfl⟩ | ⟨rfl, rfl⟩
  all_goals exact spells_short (by decide) rfl rfl

/-- The bytes of a character that is not escaped stand for themselves, in ASCII and beyond it. -/
theorem plain_of_mem {c : Char} (hquote : ¬ (c = '"' ∨ c = '\\')) (hcontrol : ¬ c < ' ') {b : UInt8}
    (hb : b ∈ String.utf8EncodeChar c) : Plain b := by
  by_cases hascii : c.toNat < 128
  · rw [utf8EncodeChar_ascii hascii, List.mem_singleton] at hb
    subst hb
    obtain ⟨h1, h2⟩ := not_or.1 hquote
    refine ⟨fun h => h1 (byte_inj hascii (by decide) h),
      fun h => h2 (byte_inj hascii (by decide) h), ?_⟩
    have hspace : 32 ≤ c.toNat := Nat.not_lt.1 hcontrol
    rw [UInt8.le_iff_toNat_le, toNat_byte hascii]
    exact hspace
  · have hbyte := UInt8.le_iff_toNat_le.1 (le_of_mem_utf8EncodeChar (Nat.not_lt.1 hascii) hb)
    have hlow : ∀ n : UInt8, n.toNat < 128 → b ≠ n := by
      rintro n hn rfl
      exact absurd hbyte (Nat.not_le.2 hn)
    refine ⟨hlow _ (by decide), hlow _ (by decide), ?_⟩
    rw [UInt8.le_iff_toNat_le]
    exact Nat.le_trans (by decide) hbyte

/-- **What is written of a character spells it.** -/
theorem spells_writeChar (c : Char) : Spells (utf8 (writeChar c)) c := by
  unfold writeChar
  split
  next h =>
    rcases h with rfl | rfl
    · exact spells_short (by decide) rfl rfl
    · exact spells_short (by decide) rfl rfl
  next hquote =>
    split
    next hcontrol =>
      cases he : controlEscape? c with
      | some e => exact spells_controlEscape he
      | none => exact spells_codePoint hcontrol
    next hcontrol =>
      have htext : utf8 [c] = String.utf8EncodeChar c := List.flatMap_singleton _ _
      rw [htext]
      exact spells_plain fun b => plain_of_mem hquote hcontrol

/-! ## Strings -/

/-- A string, from after its opening quote. -/
theorem unescape_writeText (cs : List Char) (rest : Bytes) :
    unescape (utf8 (cs.flatMap writeChar) ++ byte '"' :: rest) = .ok (utf8 cs, rest) := by
  induction cs with
  | nil => exact unescape_quote rest
  | cons c cs ih =>
      rw [List.flatMap_cons, utf8_append, List.append_assoc, (spells_writeChar c).whole, ih,
        utf8_cons]
      rfl

theorem unescape_cut {cs : List Char} {front : Bytes}
    (h : Cut front (utf8 (cs.flatMap writeChar) ++ [byte '"'])) :
    unescape front = .error .truncated := by
  induction cs generalizing front with
  | nil =>
      rw [h.eq_nil]
      exact unescape_nil
  | cons c cs ih =>
      rw [List.flatMap_cons, utf8_append, List.append_assoc] at h
      rcases h.append_cases with hcut | ⟨front', rfl, hfront'⟩
      · exact (spells_writeChar c).cut front hcut
      · rw [(spells_writeChar c).whole, ih hfront']
        rfl

/-- **A string is read as the text that was written.** -/
theorem readText_of_unescape {bs rest : Bytes} {text : String}
    (h : unescape bs = .ok (utf8 text.toList, rest)) : readText bs = .ok (text, rest) := by
  rw [readText, h]
  simp only [bind, Except.bind, textOf?_utf8, String.ofList_toList]

theorem delimits_readText (text : String) :
    Delimits readText (utf8 (text.toList.flatMap writeChar) ++ [byte '"']) text where
  whole rest := by
    refine readText_of_unescape ?_
    rw [List.append_assoc, List.singleton_append, unescape_writeText]
  cut front hfront := by
    rw [readText, unescape_cut hfront]
    rfl

theorem utf8_writeText (text : String) :
    utf8 (writeText text) = byte '"' :: (utf8 (text.toList.flatMap writeChar) ++ [byte '"']) := by
  rw [writeText, List.cons_append, utf8_cons_ascii (by decide), utf8_append]
  rfl

theorem delimits_text (text : String) : Delimits textReader.run (utf8 (writeText text)) text := by
  rw [utf8_writeText]
  exact .token (by decide) (delimits_readText text)

end MailPush.Json
