set_option autoImplicit false

/-! # Rows by number

Rows that are kept in the order of their numbers, each number at most once (`Rows`). `Rows.get?`
is the view of the rows through which the operations are described.
-/

namespace MailPush

/-- Rows of type `ρ` in the order of their numbers. -/
structure Rows (ρ : Type) where
  entries : List (Int64 × ρ)
  ordered : entries.Pairwise fun a b => a.1 < b.1

namespace Rows

variable {ρ : Type}

/-- No rows. -/
def empty : Rows ρ := ⟨[], .nil⟩

/-- The number of rows. -/
def size (rows : Rows ρ) : Nat := rows.entries.length

/-- The row of a number. -/
def get? (rows : Rows ρ) (id : Int64) : Option ρ := rows.entries.lookup id

/-- The list with a row put at its place, instead of one of the same number. -/
def putEntry (id : Int64) (row : ρ) : List (Int64 × ρ) → List (Int64 × ρ)
  | [] => [(id, row)]
  | e :: es =>
    if id < e.1 then (id, row) :: e :: es
    else if id = e.1 then (id, row) :: es
    else e :: putEntry id row es

theorem mem_putEntry {id : Int64} {row : ρ} {es : List (Int64 × ρ)} {x : Int64 × ρ}
    (h : x ∈ putEntry id row es) : x = (id, row) ∨ x ∈ es := by
  induction es with
  | nil => simpa [putEntry] using h
  | cons e es ih =>
    unfold putEntry at h
    split at h
    next => simpa using h
    next =>
      split at h
      next =>
        rcases List.mem_cons.1 h with h | h
        · exact .inl h
        · exact .inr (List.mem_cons_of_mem _ h)
      next =>
        rcases List.mem_cons.1 h with h | h
        · exact .inr (h ▸ List.mem_cons_self)
        · exact (ih h).imp_right (List.mem_cons_of_mem _)

theorem ordered_putEntry {id : Int64} {row : ρ} {es : List (Int64 × ρ)}
    (h : es.Pairwise fun a b => a.1 < b.1) :
    (putEntry id row es).Pairwise fun a b => a.1 < b.1 := by
  induction es with
  | nil => exact List.pairwise_singleton _ _
  | cons e es ih =>
    obtain ⟨he, hes⟩ := List.pairwise_cons.1 h
    unfold putEntry
    split
    next hlt =>
      refine List.pairwise_cons.2 ⟨fun x hx => ?_, h⟩
      rcases List.mem_cons.1 hx with rfl | hx
      · exact hlt
      · exact Int64.lt_trans hlt (he x hx)
    next hlt =>
      split
      next heq => exact List.pairwise_cons.2 ⟨fun x hx => heq ▸ he x hx, hes⟩
      next hne =>
        refine List.pairwise_cons.2 ⟨fun x hx => ?_, ih hes⟩
        rcases mem_putEntry hx with rfl | hx
        · exact Int64.lt_of_le_of_ne (Int64.not_lt.1 hlt) (Ne.symm hne)
        · exact he x hx

/-- The rows with one put at a number, instead of any that was there. -/
def put (rows : Rows ρ) (id : Int64) (row : ρ) : Rows ρ :=
  ⟨putEntry id row rows.entries, ordered_putEntry rows.ordered⟩

/-- The rows that satisfy a condition. -/
def keep (rows : Rows ρ) (p : Int64 → ρ → Bool) : Rows ρ :=
  ⟨rows.entries.filter fun e => p e.1 e.2, rows.ordered.filter _⟩

/-- The rows, each changed by a function of its number and content. -/
def update (rows : Rows ρ) (f : Int64 → ρ → ρ) : Rows ρ :=
  ⟨rows.entries.map fun e => (e.1, f e.1 e.2), by
    rw [List.pairwise_map]
    exact rows.ordered⟩

/-- Whether a number is in use. -/
def contains (rows : Rows ρ) (id : Int64) : Bool := rows.entries.any fun e => e.1 == id

end Rows

end MailPush
