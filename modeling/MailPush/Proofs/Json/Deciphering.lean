import MailPush.Proofs.Json.Recognition

set_option autoImplicit false

/-! # Only spelled texts are read

The converse of reading spelled texts: what stands between the quotes of a string that is read as a
text spells the text, character by character (`exists_spelled`).

The reader looks for characters in one row of bytes, in which those of escapes have been put beside
those that stand for themselves. No character is made of both: an escape yields all the bytes of
one character, and the first byte of a character continues no other. So the bytes that continue a
character stand in the string themselves (`exists_continued`).
-/

namespace MailPush.Json

/-! ## Characters in a row of bytes -/

theorem utf8EncodeChar_append_inj {c d : Char} {x y : Bytes}
    (h : String.utf8EncodeChar c ++ x = String.utf8EncodeChar d ++ y) : c = d ∧ x = y := by
  have hfirst : ∀ (c : Char) (x : Bytes),
      (String.utf8EncodeChar c ++ x).toByteArray.utf8DecodeChar? 0 = some c := by
    intro c x
    rw [List.toByteArray_append]
    exact ByteArray.utf8DecodeChar?_utf8EncodeChar_append
  have hc := hfirst c x
  rw [h, hfirst d y] at hc
  obtain rfl := Option.some.inj hc
  exact ⟨rfl, List.append_cancel_left h⟩

/-- A byte that continues a character. -/
def Continuation (b : UInt8) : Prop := 128 ≤ b.toNat ∧ b.toNat < 192

/-- A character has a first byte that continues no other, and then bytes that continue it. -/
theorem exists_utf8EncodeChar_cons (c : Char) : ∃ b bs, String.utf8EncodeChar c = b :: bs ∧
    ¬ Continuation b ∧ ∀ x ∈ bs, Continuation x := by
  have hbyte : ∀ n : Nat, n < 256 → (UInt8.ofNat n).toNat = n := fun n hn =>
    UInt8.toNat_ofNat_of_lt' hn
  have hfirst : ∀ n : Nat, n < 128 ∨ 192 ≤ n → n < 256 → ¬ Continuation (UInt8.ofNat n) := by
    intro n hn hlt hcontinues
    rw [Continuation, hbyte n hlt] at hcontinues
    omega
  have hcontinue : ∀ n : Nat, 128 ≤ n → n < 192 → Continuation (UInt8.ofNat n) := by
    intro n hlo hhi
    rw [Continuation, hbyte n (by omega)]
    exact ⟨hlo, hhi⟩
  rw [String.utf8EncodeChar.eq_1]
  split
  · exact ⟨_, _, rfl, hfirst _ (by omega) (by omega), fun x hx => nomatch hx⟩
  · split
    · refine ⟨_, _, rfl, hfirst _ (by omega) (by omega), fun x hx => ?_⟩
      rw [List.mem_singleton.1 hx]
      exact hcontinue _ (by omega) (by omega)
    · split
      · refine ⟨_, _, rfl, hfirst _ (by omega) (by omega), fun x hx => ?_⟩
        simp only [List.mem_cons, List.not_mem_nil, or_false] at hx
        rcases hx with rfl | rfl <;> exact hcontinue _ (by omega) (by omega)
      · refine ⟨_, _, rfl, hfirst _ (by omega) (by omega), fun x hx => ?_⟩
        simp only [List.mem_cons, List.not_mem_nil, or_false] at hx
        rcases hx with rfl | rfl | rfl <;> exact hcontinue _ (by omega) (by omega)

/-- A character whose first byte stands for itself is written by its bytes. -/
theorem charText_of_plain {c : Char} {b : UInt8} {bs : Bytes}
    (hc : String.utf8EncodeChar c = b :: bs) (hb : Plain b) :
    CharText c (String.utf8EncodeChar c) := by
  obtain ⟨hquote, hescape, hcontrol⟩ := hb
  have hascii : c.toNat < 128 → b = byte c := by
    intro h
    rw [utf8EncodeChar_ascii h] at hc
    exact (List.cons.inj hc).1.symm
  refine .plain ?_ ?_ fun hlt => ?_
  · rintro rfl
    exact hquote (hascii (by decide))
  · rintro rfl
    exact hescape (hascii (by decide))
  · have hsmall : c.toNat < 32 := hlt
    rw [hascii (by omega), UInt8.le_iff_toNat_le, toNat_byte (by omega)] at hcontrol
    exact absurd hcontrol (Nat.not_le.2 hsmall)

/-! ## Escapes -/

theorem hexValue?_lt {b : UInt8} {v : Nat} (h : hexValue? b = some v) : v < 16 := by
  unfold hexValue? at h
  simp only [UInt8.le_iff_toNat_le] at h
  split at h
  next hb =>
    cases h
    exact Nat.lt_of_le_of_lt (Nat.sub_le_sub_right hb.2 _) (by decide)
  next =>
    split at h
    next hb =>
      cases h
      exact Nat.lt_of_le_of_lt (Nat.add_le_add_right (Nat.sub_le_sub_right hb.2 _) 10) (by decide)
    next =>
      split at h
      next hb =>
        cases h
        exact Nat.lt_of_le_of_lt (Nat.add_le_add_right (Nat.sub_le_sub_right hb.2 _) 10)
          (by decide)
      next => cases h

theorem Hex.lt {n : Nat} {t : Bytes} (h : Hex n t) : n < 65536 := by
  obtain ⟨a, b, c, d, va, vb, vc, vd, -, ha, hb, hc, hd, rfl⟩ := h
  have hva := hexValue?_lt ha
  have hvb := hexValue?_lt hb
  have hvc := hexValue?_lt hc
  have hvd := hexValue?_lt hd
  omega

theorem toNat_ofNat {n : Nat} (h : n < 0xD800 ∨ 0xDFFF < n ∧ n < 0x110000) :
    (Char.ofNat n).toNat = n := by
  have hvalid : n.isValidChar := h
  have heq : Char.ofNat n = Char.ofNatAux n hvalid := dif_pos hvalid
  rw [heq]
  rfl

/-- The halves of a surrogate pair are those of the distance from the basic plane. -/
theorem charText_pair {n m : Nat} {t t' : Bytes} (hn : isLeadingSurrogate n = true)
    (hm : isTrailingSurrogate m = true) (hhex : Hex n t) (hhex' : Hex m t') :
    CharText (Char.ofNat (joinSurrogates n m))
      (byte '\\' :: byte 'u' :: (t ++ byte '\\' :: byte 'u' :: t')) := by
  simp only [isLeadingSurrogate, isTrailingSurrogate, Bool.and_eq_true, decide_eq_true_eq] at hn hm
  obtain ⟨k, hk⟩ : ∃ k, k = (n - 0xD800) * 0x400 + (m - 0xDC00) := ⟨_, rfl⟩
  have hjoin : joinSurrogates n m = 0x10000 + k := by rw [joinSurrogates]; omega
  have hchar : (Char.ofNat (joinSurrogates n m)).toNat = 0x10000 + k := by
    rw [toNat_ofNat (by omega), hjoin]
  have hfirst : 0xD800 + k / 0x400 = n := by omega
  have hsecond : 0xDC00 + k % 0x400 = m := by omega
  exact .pair hchar (hfirst.symm ▸ hhex) (hsecond.symm ▸ hhex')

theorem exists_codePoint {bs char rest : Bytes} (h : readCodePoint bs = .ok (char, rest)) :
    ∃ c t, CharText c (byte '\\' :: byte 'u' :: t) ∧ char = String.utf8EncodeChar c ∧
      bs = t ++ rest := by
  obtain ⟨⟨n, r₁⟩, hn, h⟩ := bind_eq_ok_iff.1 h
  obtain ⟨t, hhex, hbs⟩ := exists_hex hn
  have hlt := hhex.lt
  dsimp only at h
  split at h
  next => cases h
  next htrailing =>
    simp only [isTrailingSurrogate, Bool.and_eq_true, decide_eq_true_eq] at htrailing
    split at h
    next hleading =>
      obtain ⟨r₂, hslash, h⟩ := bind_eq_ok_iff.1 h
      obtain ⟨r₃, hmark, h⟩ := bind_eq_ok_iff.1 h
      obtain ⟨⟨m, r₄⟩, hm, h⟩ := bind_eq_ok_iff.1 h
      obtain ⟨t', hhex', hr₃⟩ := exists_hex hm
      dsimp only at h
      split at h
      next hpair =>
        simp only [Except.ok.injEq, Prod.mk.injEq] at h
        obtain ⟨rfl, rfl⟩ := h
        refine ⟨_, _, charText_pair hleading hpair hhex hhex', rfl, ?_⟩
        rw [hbs, eq_cons_of_skipByte hslash, eq_cons_of_skipByte hmark, hr₃, List.append_assoc]
        rfl
      next => cases h
    next hleading =>
      simp only [Except.ok.injEq, Prod.mk.injEq] at h
      obtain ⟨rfl, rfl⟩ := h
      simp only [isLeadingSurrogate, Bool.and_eq_true, decide_eq_true_eq] at hleading
      have hchar : (Char.ofNat n).toNat = n := toNat_ofNat (by omega)
      exact ⟨_, t, .code (hchar.symm ▸ hhex), rfl, hbs⟩

/-- **An escape that is read is one of a character.** -/
theorem exists_charText {bs char rest : Bytes} (h : readEscape bs = .ok (char, rest)) :
    ∃ c escape, CharText c (byte '\\' :: escape) ∧ char = String.utf8EncodeChar c ∧
      bs = escape ++ rest := by
  cases bs with
  | nil => cases h
  | cons b bs =>
      rw [readEscape] at h
      split at h
      next hcode =>
        obtain ⟨c, t, hc, hchar, rfl⟩ := exists_codePoint h
        exact ⟨c, byte 'u' :: t, hc, hchar, by rw [hcode]; rfl⟩
      next =>
        split at h
        next out hshort =>
          cases h
          obtain ⟨e, c, hpair, rfl, rfl⟩ := exists_short hshort
          have hascii : c.toNat < 128 := by
            simp only [List.mem_cons, List.not_mem_nil, or_false, Prod.mk.injEq] at hpair
            rcases hpair with ⟨-, rfl⟩ | ⟨-, rfl⟩ | ⟨-, rfl⟩ | ⟨-, rfl⟩ | ⟨-, rfl⟩ | ⟨-, rfl⟩ |
              ⟨-, rfl⟩ | ⟨-, rfl⟩ <;> decide
          exact ⟨c, [byte e], .short hpair, (utf8EncodeChar_ascii hascii).symm, rfl⟩
        next => cases h

/-! ## Strings -/

/-- What is read of a string: its end, an escape and more, or a byte that stands for itself and
more. -/
theorem unescape_cases {bs out rest : Bytes} (h : unescape bs = .ok (out, rest)) :
    (bs = byte '"' :: rest ∧ out = []) ∨
    (∃ c escape bs' tail, CharText c (byte '\\' :: escape) ∧ bs = byte '\\' :: (escape ++ bs') ∧
      unescape bs' = .ok (tail, rest) ∧ out = String.utf8EncodeChar c ++ tail) ∨
    ∃ b bs' tail, Plain b ∧ bs = b :: bs' ∧ unescape bs' = .ok (tail, rest) ∧ out = b :: tail := by
  unfold unescape at h
  split at h
  next => cases h
  next b bs =>
    split at h
    next hquote =>
      cases h
      exact .inl ⟨by rw [hquote], rfl⟩
    next hquote =>
      split at h
      next hslash =>
        split at h
        next => cases h
        next char bs' hescape =>
          obtain ⟨⟨tail, r⟩, htail, h⟩ := bind_eq_ok_iff.1 h
          cases h
          obtain ⟨c, escape, hc, rfl, rfl⟩ := exists_charText hescape
          exact .inr (.inl ⟨c, escape, bs', tail, hc, by rw [hslash], htail, rfl⟩)
      next hslash =>
        split at h
        next => cases h
        next hcontrol =>
          obtain ⟨⟨tail, r⟩, htail, h⟩ := bind_eq_ok_iff.1 h
          cases h
          exact .inr (.inr ⟨b, bs, tail, ⟨hquote, hslash, UInt8.not_lt.1 hcontrol⟩, rfl, htail,
            rfl⟩)

/-- Bytes that continue a character stand in a string themselves. -/
theorem exists_continued {xs bs out rest : Bytes} (hxs : ∀ x ∈ xs, Continuation x)
    (h : unescape bs = .ok (xs ++ out, rest)) :
    ∃ bs', bs = xs ++ bs' ∧ unescape bs' = .ok (out, rest) := by
  induction xs generalizing bs with
  | nil => exact ⟨bs, rfl, h⟩
  | cons x xs ih =>
      have hx := hxs x List.mem_cons_self
      have hmore : ∀ y ∈ xs, Continuation y := fun y hy => hxs y (List.mem_cons_of_mem _ hy)
      rcases unescape_cases h with ⟨-, hnil⟩ | ⟨c, -, -, tail, -, -, -, heq⟩ |
        ⟨b, bs', tail, -, rfl, htail, heq⟩
      · cases hnil
      · -- an escape does not yield a byte that continues a character
        obtain ⟨b, bytes, hbytes, hb, -⟩ := exists_utf8EncodeChar_cons c
        rw [hbytes] at heq
        obtain rfl : x = b := (List.cons.inj heq).1
        exact absurd hx hb
      · obtain ⟨rfl, rfl⟩ := List.cons.inj heq
        obtain ⟨bs'', rfl, hout⟩ := ih hmore htail
        exact ⟨bs'', rfl, hout⟩

/-- **A string that is read as characters spells them.** -/
theorem exists_spelled {cs : List Char} {bs rest : Bytes}
    (h : unescape bs = .ok (utf8 cs, rest)) : ∃ t, Spelled cs t ∧ bs = t ++ byte '"' :: rest := by
  induction cs generalizing bs with
  | nil =>
      rcases unescape_cases h with ⟨rfl, -⟩ | ⟨c, -, -, tail, -, -, -, heq⟩ |
        ⟨b, -, tail, -, -, -, heq⟩
      · exact ⟨[], .nil, rfl⟩
      · obtain ⟨b, bytes, hbytes, -⟩ := exists_utf8EncodeChar_cons c
        rw [hbytes] at heq
        cases heq
      · cases heq
  | cons c cs ih =>
      -- an escape yields all bytes of the character, a plain byte only the first of them
      rw [utf8_cons] at h
      obtain ⟨first, bytes, hbytes, -, hcontinue⟩ := exists_utf8EncodeChar_cons c
      rcases unescape_cases h with ⟨-, hnil⟩ | ⟨d, escape, bs', tail, hd, rfl, htail, heq⟩ |
        ⟨b, bs', tail, hb, rfl, htail, heq⟩
      · rw [hbytes] at hnil
        cases hnil
      · obtain ⟨rfl, rfl⟩ := utf8EncodeChar_append_inj heq
        obtain ⟨t, ht, rfl⟩ := ih htail
        exact ⟨_, .cons hd ht, by rw [List.append_assoc]; rfl⟩
      · rw [hbytes] at heq
        obtain ⟨rfl, rfl⟩ := List.cons.inj heq
        obtain ⟨bs'', rfl, hout⟩ := exists_continued hcontinue htail
        obtain ⟨t, ht, rfl⟩ := ih hout
        refine ⟨_, .cons (charText_of_plain hbytes hb) ht, ?_⟩
        rw [hbytes, List.append_assoc]
        rfl

/-- **A text that is read stands there spelled, up to the closing quote.** -/
theorem exists_spelled_text {bs rest : Bytes} {text : String}
    (h : readText bs = .ok (text, rest)) :
    ∃ t, Spelled text.toList t ∧ bs = t ++ byte '"' :: rest := by
  obtain ⟨⟨raw, r⟩, hraw, h⟩ := bind_eq_ok_iff.1 h
  dsimp only at h
  split at h
  next text' htext =>
    cases h
    rw [textOf?_eq_some_iff.1 htext, ← String.ofList_toList (s := text), bytesOf_ofList] at hraw
    exact exists_spelled hraw
  next => cases h

end MailPush.Json
