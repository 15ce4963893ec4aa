import MailPush.Json.Record
import MailPush.Proofs.Json.Utf8

set_option autoImplicit false

/-! # What a text is read as

A reading takes a value from the front of a text and leaves the rest. `Delimits read text a` says
that it takes the value `a` from `text` whatever follows, and that it asks for more on every text
cut short. A number does not show where it ends: what follows must not continue it, and a number
cut short is another number, after which nothing is left. This is the weaker `Reads read text a`.

The laws are composed as the readers are: tokens, words, conversions, options.
-/

namespace MailPush.Json

/-! ## Texts cut short -/

/-- A text is cut short: what is there of it is its front, and not all of it. -/
def Cut (front text : Bytes) : Prop := front <+: text ∧ front ≠ text

theorem not_cut_nil {front : Bytes} : ¬ Cut front [] :=
  fun h => h.2 (List.prefix_nil.1 h.1)

theorem Cut.cons_cases {front text : Bytes} {b : UInt8} (h : Cut front (b :: text)) :
    front = [] ∨ ∃ front', front = b :: front' ∧ Cut front' text := by
  obtain ⟨hstart, hne⟩ := h
  rcases List.prefix_cons_iff.1 hstart with rfl | ⟨front', rfl, hfront'⟩
  · exact .inl rfl
  · exact .inr ⟨front', rfl, hfront', fun heq => hne (heq ▸ rfl)⟩

/-- Nothing is there of a single byte cut short. -/
theorem Cut.eq_nil {front : Bytes} {b : UInt8} (h : Cut front [b]) : front = [] := by
  rcases h.cons_cases with rfl | ⟨front', -, hfront'⟩
  · rfl
  · exact absurd hfront' not_cut_nil

/-- Two texts in a row are cut short in the first, or after it in the second. -/
theorem Cut.append_cases {front text more : Bytes} (h : Cut front (text ++ more)) :
    Cut front text ∨ ∃ front', front = text ++ front' ∧ Cut front' more := by
  obtain ⟨hstart, hne⟩ := h
  rcases List.prefix_or_prefix_of_prefix hstart (List.prefix_append text more) with hin | hout
  · by_cases heq : front = text
    · refine .inr ⟨[], by rw [heq, List.append_nil], List.nil_prefix, ?_⟩
      intro hmore
      rw [← hmore, List.append_nil] at hne
      exact hne heq
    · exact .inl ⟨hin, heq⟩
  · obtain ⟨front', rfl⟩ := hout
    refine .inr ⟨front', rfl, (List.prefix_append_right_inj text).1 hstart, ?_⟩
    intro heq
    exact hne (heq ▸ rfl)

/-! ## The laws of a reading -/

/-- Whether a byte can continue a number. -/
def continuesNumber (b : UInt8) : Bool :=
  isDigit b || b == byte '.' || b == byte 'e' || b == byte 'E'

/-- A text that does not continue a number before it. -/
def Ends (rest : Bytes) : Prop := ∀ b ∈ rest.head?, continuesNumber b = false

theorem ends_nil : Ends [] := fun _ h => (nomatch h)

theorem ends_cons {b : UInt8} {rest : Bytes} (h : continuesNumber b = false) :
    Ends (b :: rest) := by
  intro c hc
  cases hc
  exact h

theorem Ends.of_prefix {front rest : Bytes} (h : Ends rest) (hfront : front <+: rest) :
    Ends front := by
  obtain ⟨more, rfl⟩ := hfront
  cases front with
  | nil => exact ends_nil
  | cons b bs => exact ends_cons (h b rfl)

section Laws

variable {α β : Type} {read : Bytes → Except Fault (α × Bytes)} {text : Bytes} {a : α}

/-- A reading has come to the end of what there is: it asks for more, or has left nothing. -/
def Starved (result : Except Fault (α × Bytes)) : Prop :=
  result = .error .truncated ∨ ∃ a, result = .ok (a, [])

/-- The text is read as a value, if what follows does not continue it. -/
structure Reads (read : Bytes → Except Fault (α × Bytes)) (text : Bytes) (a : α) : Prop where
  whole : ∀ rest, Ends rest → read (text ++ rest) = .ok (a, rest)
  cut : ∀ front, Cut front text → Starved (read front)

/-- The text is read as a value, whatever follows, and shows where it ends. -/
structure Delimits (read : Bytes → Except Fault (α × Bytes)) (text : Bytes) (a : α) : Prop where
  whole : ∀ rest, read (text ++ rest) = .ok (a, rest)
  cut : ∀ front, Cut front text → read front = .error .truncated

theorem Delimits.reads (h : Delimits read text a) : Reads read text a where
  whole rest _ := h.whole rest
  cut front hfront := .inl (h.cut front hfront)

/-! ## Tokens -/

theorem skipBlank_cons {b : UInt8} {bs : Bytes} (h : isBlank b = false) :
    skipBlank (b :: bs) = b :: bs :=
  List.dropWhile_cons_of_neg (by simp [h])

theorem skipBlank_append {ws bs : Bytes} (h : ∀ b ∈ ws, isBlank b = true) :
    skipBlank (ws ++ bs) = skipBlank bs :=
  List.dropWhile_append_of_pos h

theorem skipBlank_append_cons {ws : Bytes} {b : UInt8} (hws : ∀ b ∈ ws, isBlank b = true)
    (hb : isBlank b = false) (bs : Bytes) : skipBlank (ws ++ b :: bs) = b :: bs :=
  (skipBlank_append hws).trans (skipBlank_cons hb)

theorem skipToken_cons {c : Char} (h : isBlank (byte c) = false) (rest : Bytes) :
    skipToken c (byte c :: rest) = .ok rest := by
  rw [skipToken, skipBlank_cons h, skipByte, if_pos rfl]

theorem skipToken_append {ws : Bytes} {c : Char} (hws : ∀ b ∈ ws, isBlank b = true)
    (h : isBlank (byte c) = false) (rest : Bytes) :
    skipToken c (ws ++ byte c :: rest) = .ok rest := by
  rw [skipToken, skipBlank_append hws]
  exact skipToken_cons h rest

/-- A text of blanks alone has nothing after them, and no other text has. -/
theorem skipBlank_eq_nil_iff {bs : Bytes} : skipBlank bs = [] ↔ ∀ b ∈ bs, isBlank b = true := by
  constructor
  · intro h
    have hsplit : bs.takeWhile isBlank ++ skipBlank bs = bs := List.takeWhile_append_dropWhile
    rw [h, List.append_nil] at hsplit
    rw [← hsplit]
    exact List.all_eq_true.1 List.all_takeWhile
  · intro h
    have hskip : skipBlank (bs ++ []) = skipBlank [] := skipBlank_append h
    rwa [List.append_nil] at hskip

theorem runToken_cons {token : UInt8 → Bytes → Except Fault (α × Bytes)} {b : UInt8} {bs : Bytes}
    (h : isBlank b = false) : Reader.runToken token (b :: bs) = token b bs := by
  rw [Reader.runToken, skipBlank_cons h]

theorem Delimits.token {token : UInt8 → Bytes → Except Fault (α × Bytes)} {b : UInt8}
    (hb : isBlank b = false) (h : Delimits (token b) text a) :
    Delimits (Reader.runToken token) (b :: text) a where
  whole rest := by
    rw [List.cons_append, runToken_cons hb]
    exact h.whole rest
  cut front hfront := by
    rcases hfront.cons_cases with rfl | ⟨front', rfl, hfront'⟩
    · rfl
    · rw [runToken_cons hb]
      exact h.cut front' hfront'

/-! ## Conversions -/

theorem Reads.map {r : Reader α} (f : α → β) (h : Reads r.run text a) :
    Reads (r.map f).run text (f a) where
  whole rest hrest := by
    show (r.run (text ++ rest) >>= _) = _
    rw [h.whole rest hrest]
    rfl
  cut front hfront := by
    show Starved (r.run front >>= _)
    rcases h.cut front hfront with hcut | ⟨b, hcut⟩
    · rw [hcut]
      exact .inl rfl
    · rw [hcut]
      exact .inr ⟨f b, rfl⟩

/-! ## Words -/

theorem skipLiteral_append (es rest : Bytes) : skipLiteral es (es ++ rest) = .ok rest := by
  induction es with
  | nil => rfl
  | cons e es ih =>
      rw [List.cons_append, skipLiteral, if_pos rfl]
      exact ih

theorem skipLiteral_cut {es front : Bytes} (h : Cut front es) :
    skipLiteral es front = .error .truncated := by
  induction es generalizing front with
  | nil => exact absurd h not_cut_nil
  | cons e es ih =>
      rcases h.cons_cases with rfl | ⟨front', rfl, hfront'⟩
      · rfl
      · rw [skipLiteral, if_pos rfl]
        exact ih hfront'

theorem delimits_readWord (word : String) (a : α) :
    Delimits (readWord word a) (bytesOf word) a where
  whole rest := by
    rw [readWord, skipLiteral_append]
    rfl
  cut front hfront := by
    rw [readWord, skipLiteral_cut hfront]
    rfl

end Laws

theorem delimits_bool (b : Bool) :
    Delimits boolReader.run (utf8 (if b then "true" else "false").toList) b := by
  cases b with
  | true => exact .token (by decide) (delimits_readWord "rue" true)
  | false => exact .token (by decide) (delimits_readWord "alse" false)

/-! ## Options -/

section Options

variable {α : Type} {r : Reader α} {text : Bytes} {a : α}

theorem delimits_none : Delimits (optionReader r).run (utf8 "null".toList) none :=
  .token (by decide) (delimits_readWord "ull" none)

/-- A value is read as one that is there, if it does not start as `null` does. -/
theorem Reads.present {b : UInt8} (hb : isBlank b = false) (hn : b ≠ byte 'n')
    (h : Reads r.run (b :: text) a) : Reads (optionReader r).run (b :: text) (some a) := by
  have hmap : Reads (r.map Option.some).run (b :: text) (some a) := h.map _
  have hrun : ∀ bs, (optionReader r).run (b :: bs) = (r.map Option.some).run (b :: bs) := by
    intro bs
    show Reader.runToken _ (b :: bs) = _
    rw [runToken_cons hb, if_neg hn]
  constructor
  · intro rest hrest
    rw [List.cons_append, hrun]
    exact hmap.whole rest hrest
  · intro front hfront
    rcases hfront.cons_cases with rfl | ⟨front', rfl, -⟩
    · exact .inl rfl
    · rw [hrun]
      exact hmap.cut _ hfront

end Options

end MailPush.Json
