import MailPush.Proofs.Json.Sequences
import MailPush.Proofs.Json.Strings

set_option autoImplicit false

/-! # Lists and names

An array is a sequence whose state is the list of the items read so far (`continues_items`), so a
written list is read as that list (`delimits_list`). A name of a fixed set is read as the value
that it names.
-/

namespace MailPush.Json

section Lists

variable {α : Type} {r : Reader α}

/-! ## The items of an array -/

theorem readMoreItems_nil {bs : Bytes} (h : skipBlank bs = []) :
    readMoreItems r bs = .error .truncated := by
  rw [readMoreItems]
  split
  next => rfl
  next b rest h' => rw [h] at h'; cases h'

theorem readMoreItems_close {bs rest : Bytes} (h : skipBlank bs = byte ']' :: rest) :
    readMoreItems r bs = .ok ([], rest) := by
  rw [readMoreItems]
  split
  next h' => rw [h] at h'; cases h'
  next b rest' h' =>
    rw [h] at h'
    cases h'
    exact if_pos rfl

theorem readMoreItems_comma {bs rest : Bytes} (h : skipBlank bs = byte ',' :: rest) :
    readMoreItems r bs =
      r.run rest >>= fun p => readMoreItems r p.2 >>= fun q => .ok (p.1 :: q.1, q.2) := by
  rw [readMoreItems]
  split
  next h' => rw [h] at h'; cases h'
  next b rest' h' =>
    rw [h] at h'
    cases h'
    rw [if_neg (by decide), if_pos rfl]
    split
    next fault hrun => rw [hrun]; rfl
    next a rest'' hrun =>
      conv => rhs; rw [hrun]
      rfl

/-- Reads one item more than there are. -/
def nextItem (r : Reader α) (items : List α) (bs : Bytes) : Except Fault (List α × Bytes) :=
  (r.map fun a => items ++ [a]).run bs

theorem nextItem_eq (items : List α) (bs : Bytes) :
    nextItem r items bs = r.run bs >>= fun p => .ok (items ++ [p.1], p.2) := rfl

/-- Reads the items that follow those that there are. -/
def itemsFrom (r : Reader α) (items : List α) (bs : Bytes) : Except Fault (List α × Bytes) :=
  (readMoreItems r bs).map fun p => (items ++ p.1, p.2)

theorem continues_items (r : Reader α) : Continues (nextItem r) .array (itemsFrom r) where
  nil items bs h := by
    rw [itemsFrom, readMoreItems_nil h]
    rfl
  close items bs rest h := by
    rw [itemsFrom, readMoreItems_close h]
    simp [Except.map]
  comma items bs rest h := by
    rw [itemsFrom, readMoreItems_comma h, nextItem_eq]
    cases r.run rest with
    | error fault => rfl
    | ok p =>
        show Except.map _ (readMoreItems r p.2 >>= _) = itemsFrom r (items ++ [p.1]) p.2
        rw [itemsFrom]
        cases readMoreItems r p.2 with
        | error fault => rfl
        | ok q => simp [bind, Except.bind, Except.map]

theorem Reads.nextItem {text : Bytes} {a : α} (h : Reads r.run text a) (items : List α) :
    Reads (nextItem r items) text (items ++ [a]) :=
  h.map _

/-- An array whose first item does not start as an array ends is a sequence of items. -/
theorem delimits_array {b : UInt8} {text tail : Bytes} {a : α} {items : List α}
    (hblank : isBlank b = false) (hb : b ≠ byte ']') (hitem : Reads r.run (b :: text) a)
    (htail : Tail (nextItem r) .array [a] tail items) :
    Delimits (listReader r).run (byte '[' :: (b :: text ++ tail)) items := by
  have hitems := htail.delimits_cons (continues_items r) (hitem.nextItem [])
  refine .token (by decide) ?_
  have hfirst : ∀ bs, readItems r (b :: bs) =
      nextItem r [] (b :: bs) >>= fun p => itemsFrom r p.1 p.2 := by
    intro bs
    rw [readItems, skipBlank_cons hblank, nextItem_eq]
    dsimp only
    rw [if_neg hb]
    cases r.run (b :: bs) with
    | error fault => rfl
    | ok p =>
        show (readMoreItems r p.2 >>= _) = itemsFrom r [p.1] p.2
        rw [itemsFrom]
        cases readMoreItems r p.2 <;> rfl
  constructor
  · intro rest
    have hwhole := hitems.whole rest
    rw [List.cons_append, List.cons_append] at hwhole ⊢
    exact (hfirst _).trans hwhole
  · intro front hfront
    have hcut := hitems.cut front hfront
    cases front with
    | nil => rfl
    | cons c front =>
        obtain rfl : c = b := (List.cons_prefix_cons.1 hfront.1).1
        exact (hfirst _).trans hcut

theorem delimits_nil : Delimits (listReader r).run [byte '[', byte ']'] ([] : List α) := by
  refine .token (by decide) ⟨fun rest => rfl, fun front hfront => ?_⟩
  rw [hfront.eq_nil]
  rfl

/-- **A written list is read as that list**, if its items start with a byte that is neither blank
nor the end of an array. -/
theorem delimits_list [Writable α] {b : UInt8} (hblank : isBlank b = false) (hb : b ≠ byte ']')
    (h : ∀ a : α, ∃ text, utf8 (Writable.write a) = b :: text ∧ Reads r.run (b :: text) a)
    (items : List α) : Delimits (listReader r).run (utf8 (Writable.write items)) items := by
  have hwrite : utf8 (Writable.write items) =
      byte '[' :: (utf8 (separate (items.map Writable.write)) ++ [byte ']']) := by
    show utf8 ('[' :: separate (items.map Writable.write) ++ [']']) = _
    rw [List.cons_append, utf8_cons_ascii (by decide), utf8_append]
    rfl
  rw [hwrite]
  cases items with
  | nil => exact delimits_nil
  | cons a as =>
      have htail : ∀ before, Tail (nextItem r) .array before
          ((as.map Writable.write).flatMap (fun p => byte ',' :: utf8 p) ++ [byte ']'])
          (before ++ as) := by
        clear hwrite
        induction as with
        | nil =>
            intro before
            rw [List.append_nil]
            exact .close blank_of_mem_nil
        | cons next as ih =>
            intro before
            obtain ⟨text, htext, hread⟩ := h next
            have hrest := ih (before ++ [next])
            rw [List.append_assoc] at hrest
            rw [List.map_cons, List.flatMap_cons, List.append_assoc, htext]
            exact .more blank_of_mem_nil (hread.nextItem before) hrest
      obtain ⟨text, htext, hread⟩ := h a
      rw [List.map_cons, utf8_separate, htext, List.append_assoc]
      exact delimits_array hblank hb hread (htail [a])

end Lists

/-! ## Names -/

theorem delimits_name {α : Type} {ofName? : String → Option α} {name : String} {a : α}
    (h : ofName? name = some a) : Delimits (nameReader ofName?).run (utf8 (writeText name)) a := by
  have htext := delimits_readText name
  rw [utf8_writeText]
  refine .token (by decide) ⟨fun rest => ?_, fun front hfront => ?_⟩
  · show readName ofName? _ = _
    rw [readName, htext.whole rest]
    simp only [bind, Except.bind, h]
  · show readName ofName? _ = _
    rw [readName, htext.cut front hfront]
    rfl

end MailPush.Json
