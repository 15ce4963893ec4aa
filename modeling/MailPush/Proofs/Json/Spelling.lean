import MailPush.Proofs.Json.Grammar

set_option autoImplicit false

/-! # Spelled texts

However the characters of a text are written between the quotes of a string, the string is
well-formed (`Spelled.stringText`) and is read as the text (`Spelled.readText`).
-/

namespace MailPush.Json

/-! ## Characters -/

theorem Hex.readHex {n : Nat} {t : Bytes} (h : Hex n t) (rest : Bytes) :
    readHex (t ++ rest) = .ok (n, rest) := by
  obtain ⟨a, b, c, d, va, vb, vc, vd, rfl, ha, hb, hc, hd, rfl⟩ := h
  show Json.readHex (a :: b :: c :: d :: rest) = _
  rw [Json.readHex, ha, hb, hc, hd]

theorem readCodePoint_pair {c : Char} {n : Nat} {t t' : Bytes} (hc : c.toNat = 0x10000 + n)
    (h : Hex (0xD800 + n / 0x400) t) (h' : Hex (0xDC00 + n % 0x400) t') (rest : Bytes) :
    readCodePoint (t ++ byte '\\' :: byte 'u' :: (t' ++ rest)) =
      .ok (String.utf8EncodeChar c, rest) := by
  have hvalid : c.toNat < 0xD800 ∨ (0xDFFF < c.toNat ∧ c.toNat < 0x110000) := c.valid
  have hfirst : isTrailingSurrogate (0xD800 + n / 0x400) = false ∧
      isLeadingSurrogate (0xD800 + n / 0x400) = true := by
    simp only [isTrailingSurrogate, isLeadingSurrogate, Bool.and_eq_false_iff, Bool.and_eq_true,
      decide_eq_false_iff_not, decide_eq_true_eq]
    omega
  have hsecond : isTrailingSurrogate (0xDC00 + n % 0x400) = true := by
    simp only [isTrailingSurrogate, Bool.and_eq_true, decide_eq_true_eq]
    omega
  have hjoin : joinSurrogates (0xD800 + n / 0x400) (0xDC00 + n % 0x400) = c.toNat := by
    rw [joinSurrogates]
    omega
  rw [readCodePoint, h.readHex]
  show (if isTrailingSurrogate (0xD800 + n / 0x400) = true then _ else
    if isLeadingSurrogate (0xD800 + n / 0x400) = true then
      Json.readHex (t' ++ rest) >>= fun p => _ else _) = _
  rw [hfirst.1, hfirst.2, h'.readHex]
  show (if isTrailingSurrogate (0xDC00 + n % 0x400) = true then
    Except.ok (codePointBytes (joinSurrogates _ _), rest) else _) = _
  rw [hsecond, hjoin, codePointBytes, Char.ofNat_toNat]
  rfl

/-- **However a character is written, its bytes are read.** -/
theorem CharText.unescape {c : Char} {t : Bytes} (h : CharText c t) (rest : Bytes) :
    unescape (t ++ rest) = prepend (String.utf8EncodeChar c) (Json.unescape rest) := by
  cases h with
  | plain hquote hescape hcontrol =>
      have hnot : ¬ (c = '"' ∨ c = '\\') := not_or.2 ⟨hquote, hescape⟩
      exact unescape_plain_append (fun b => plain_of_mem hnot hcontrol) rest
  | short hpair =>
      rename_i e
      refine unescape_escape ?_
      simp only [List.mem_cons, List.not_mem_nil, or_false, Prod.mk.injEq] at hpair
      rcases hpair with ⟨rfl, rfl⟩ | ⟨rfl, rfl⟩ | ⟨rfl, rfl⟩ | ⟨rfl, rfl⟩ | ⟨rfl, rfl⟩ |
        ⟨rfl, rfl⟩ | ⟨rfl, rfl⟩ | ⟨rfl, rfl⟩ <;> rfl
  | code hhex => exact unescape_escape (readCodePoint_of_readHex (hhex.readHex rest))
  | pair hc hfirst hsecond =>
      rename_i n t t'
      refine unescape_escape ?_
      show readCodePoint (t ++ byte '\\' :: byte 'u' :: t' ++ rest) = _
      rw [List.append_assoc]
      exact readCodePoint_pair hc hfirst hsecond rest

/-! ## Texts -/

theorem Hex.isSome {n : Nat} {t : Bytes} (h : Hex n t) :
    ∃ a b c d, t = [a, b, c, d] ∧ ∀ x ∈ [a, b, c, d], (hexValue? x).isSome := by
  obtain ⟨a, b, c, d, va, vb, vc, vd, rfl, ha, hb, hc, hd, -⟩ := h
  refine ⟨a, b, c, d, rfl, ?_⟩
  simp [ha, hb, hc, hd]

theorem StringText.plain_append {bs t : Bytes} (hbs : ∀ b ∈ bs, Plain b) (h : StringText t) :
    StringText (bs ++ t) := by
  induction bs with
  | nil => exact h
  | cons b bs ih =>
      exact .plain (hbs b List.mem_cons_self) (ih fun c hc => hbs c (List.mem_cons_of_mem _ hc))

/-- **A spelled text is a well-formed string.** -/
theorem Spelled.stringText {cs : List Char} {t : Bytes} (h : Spelled cs t) : StringText t := by
  induction h with
  | nil => exact .nil
  | cons hc hcs ih =>
      cases hc with
      | plain hquote hescape hcontrol =>
          exact ih.plain_append fun b => plain_of_mem (not_or.2 ⟨hquote, hescape⟩) hcontrol
      | short hpair =>
          rename_i e
          refine .short ?_ ih
          simp only [List.mem_cons, List.not_mem_nil, or_false, Prod.mk.injEq] at hpair
          rcases hpair with ⟨rfl, -⟩ | ⟨rfl, -⟩ | ⟨rfl, -⟩ | ⟨rfl, -⟩ | ⟨rfl, -⟩ | ⟨rfl, -⟩ |
            ⟨rfl, -⟩ | ⟨rfl, -⟩ <;> decide
      | code hhex =>
          obtain ⟨a, b, c, d, rfl, hsome⟩ := hhex.isSome
          exact .code hsome ih
      | pair _ hfirst hsecond =>
          obtain ⟨a, b, c, d, rfl, hsome⟩ := hfirst.isSome
          obtain ⟨a', b', c', d', rfl, hsome'⟩ := hsecond.isSome
          exact .code hsome (.code hsome' ih)

/-- A text without quotes, backslashes and control characters is spelled by its bytes. -/
theorem spelled_utf8 {cs : List Char} (h : ∀ c ∈ cs, c ≠ '"' ∧ c ≠ '\\' ∧ ¬ c < ' ') :
    Spelled cs (utf8 cs) := by
  induction cs with
  | nil => exact .nil
  | cons c cs ih =>
      obtain ⟨hquote, hescape, hcontrol⟩ := h c List.mem_cons_self
      rw [utf8_cons]
      exact .cons (.plain hquote hescape hcontrol) (ih fun d hd => h d (List.mem_cons_of_mem _ hd))

theorem Spelled.unescape {cs : List Char} {t : Bytes} (h : Spelled cs t) (rest : Bytes) :
    unescape (t ++ byte '"' :: rest) = .ok (utf8 cs, rest) := by
  induction h with
  | nil => exact unescape_quote rest
  | cons hc hcs ih =>
      rw [List.append_assoc, hc.unescape, ih, utf8_cons]
      rfl

/-- **However a text is spelled, it is read.** -/
theorem Spelled.readText {text : String} {t : Bytes} (h : Spelled text.toList t) (rest : Bytes) :
    readText (t ++ byte '"' :: rest) = .ok (text, rest) :=
  readText_of_unescape (h.unescape rest)

/-- A name that needs no escapes is spelled by its bytes. -/
theorem named_utf8 {name : String} (value : Bytes)
    (h : ∀ c ∈ name.toList, c ≠ '"' ∧ c ≠ '\\' ∧ ¬ c < ' ') :
    (Entry.mk (utf8 name.toList) value).Named name := spelled_utf8 h

end MailPush.Json
