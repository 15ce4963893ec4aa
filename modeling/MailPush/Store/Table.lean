import MailPush.Store.Rows

set_option autoImplicit false

/-! # Tables that number their rows

A table gives each new row the number after its sequence, and the sequence moves to it. A row
may also be inserted under a number of its own, which raises the sequence when it is larger.
Nothing lowers the sequence, so the numbers of deleted rows are not given out again; once the
sequence has reached the largest number, a new row finds none.
-/

namespace MailPush

/-- Numbered rows of type `ρ` and the sequence from which new numbers are taken. -/
structure Table (ρ : Type) where
  rows : Rows ρ
  sequence : Int64
  sequence_nonneg : 0 ≤ sequence
  le_sequence : ∀ e ∈ rows.entries, e.1 ≤ sequence

namespace Table

variable {ρ : Type}

/-- The table without rows, at the start of its sequence. -/
def empty : Table ρ := ⟨.empty, 0, by decide, by simp [Rows.empty]⟩

/-- The number of the next new row, if there is one. -/
def nextId? (table : Table ρ) : Option Int64 :=
  if table.sequence = Int64.maxValue then none else some (table.sequence + 1)

theorem toInt_nextId {table : Table ρ} {id : Int64} (h : table.nextId? = some id) :
    id.toInt = table.sequence.toInt + 1 := by
  unfold nextId? at h
  split at h
  next => simp at h
  next hne =>
    cases h
    have h0 := Int64.le_iff_toInt_le.1 table.sequence_nonneg
    have hmax := table.sequence.toInt_lt
    have hne' : table.sequence.toInt ≠ Int64.maxValue.toInt := fun he => hne (Int64.toInt_inj.1 he)
    rw [Int64.toInt_maxValue] at hne'
    rw [Int64.toInt_zero] at h0
    rw [Int64.toInt_add, Int64.toInt_one, Int.bmod_eq_of_le] <;> omega

theorem sequence_lt_nextId {table : Table ρ} {id : Int64} (h : table.nextId? = some id) :
    table.sequence < id := by
  rw [Int64.lt_iff_toInt_lt, toInt_nextId h]
  omega

/-- A sequence raised to a row number, if that is larger. -/
def raise (sequence id : Int64) : Int64 := if sequence < id then id else sequence

theorem le_raise_left (sequence id : Int64) : sequence ≤ raise sequence id := by
  unfold raise
  split
  · exact Int64.le_of_lt ‹_›
  · exact Int64.le_refl _

theorem le_raise_right (sequence id : Int64) : id ≤ raise sequence id := by
  unfold raise
  split
  · exact Int64.le_refl _
  · exact Int64.not_lt.1 ‹_›

/-- The table with its sequence raised to a row number. -/
def advance (table : Table ρ) (id : Int64) : Table ρ where
  rows := table.rows
  sequence := raise table.sequence id
  sequence_nonneg := Int64.le_trans table.sequence_nonneg (le_raise_left _ _)
  le_sequence e he := Int64.le_trans (table.le_sequence e he) (le_raise_left _ _)

/-- The table with a row put at a number, and its sequence raised to that. -/
def put (table : Table ρ) (id : Int64) (row : ρ) : Table ρ where
  rows := table.rows.put id row
  sequence := raise table.sequence id
  sequence_nonneg := Int64.le_trans table.sequence_nonneg (le_raise_left _ _)
  le_sequence e he := by
    rcases Rows.mem_putEntry he with rfl | he
    · exact le_raise_right _ _
    · exact Int64.le_trans (table.le_sequence e he) (le_raise_left _ _)

/-- The table with the rows that satisfy a condition. -/
def keep (table : Table ρ) (p : Int64 → ρ → Bool) : Table ρ where
  rows := table.rows.keep p
  sequence := table.sequence
  sequence_nonneg := table.sequence_nonneg
  le_sequence e he := table.le_sequence e (List.mem_filter.1 he).1

/-- The table with each row changed by a function of its number and content. -/
def update (table : Table ρ) (f : Int64 → ρ → ρ) : Table ρ where
  rows := table.rows.update f
  sequence := table.sequence
  sequence_nonneg := table.sequence_nonneg
  le_sequence e he := by
    obtain ⟨x, hx, rfl⟩ := List.mem_map.1 he
    exact table.le_sequence x hx

/-- The table with a new row under the next number, and that number. -/
def insert? (table : Table ρ) (row : ρ) : Option (Int64 × Table ρ) :=
  table.nextId?.map fun id => (id, table.put id row)

end Table

end MailPush
