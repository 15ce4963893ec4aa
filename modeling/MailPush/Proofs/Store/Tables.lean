import MailPush.Store.Table

set_option autoImplicit false

/-! # New rows come last

A table takes the number of a new row from a sequence that is above every number in use, so the
new row stands behind all others (`Table.entries_insert?`), also behind those that are not there
any more. A new row can be refused only at the end of the sequence (`Table.insert?_of_room`).
-/

namespace MailPush

variable {ρ : Type}

namespace Rows

theorem eq_of_entries {a b : Rows ρ} (h : a.entries = b.entries) : a = b := by
  cases a
  cases b
  cases h
  rfl

/-- A row whose number is above all others is put at the end. -/
theorem putEntry_of_lt {id : Int64} {row : ρ} {es : List (Int64 × ρ)}
    (h : ∀ e ∈ es, e.1 < id) : putEntry id row es = es ++ [(id, row)] := by
  induction es with
  | nil => rfl
  | cons e es ih =>
      have he : e.1 < id := h e List.mem_cons_self
      have hnot : ¬ id < e.1 := Int64.not_lt.2 (Int64.le_of_lt he)
      have hne : id ≠ e.1 := (Int64.ne_of_lt he).symm
      rw [putEntry, if_neg hnot, if_neg hne, ih fun x hx => h x (List.mem_cons_of_mem _ hx)]
      rfl

end Rows

namespace Table

variable {table table' : Table ρ} {row : ρ} {id : Int64}

theorem eq_of_entries (hrows : table.rows.entries = table'.rows.entries)
    (hseq : table.sequence = table'.sequence) : table = table' := by
  cases table
  cases table'
  cases Rows.eq_of_entries hrows
  cases hseq
  rfl

theorem lt_nextId (h : table.nextId? = some id) : ∀ e ∈ table.rows.entries, e.1 < id := by
  intro e he
  exact Int64.lt_of_le_of_lt (table.le_sequence e he) (sequence_lt_nextId h)

theorem nextId?_congr (h : table'.sequence = table.sequence) : table'.nextId? = table.nextId? := by
  rw [nextId?, nextId?, h]

/-- A table whose sequence has not reached its end has a number for a new row. -/
theorem nextId?_of_room (h : table.sequence.toInt < Int64.maxValue.toInt) :
    ∃ id, table.nextId? = some id := by
  have hne : table.sequence ≠ Int64.maxValue := by
    intro heq
    rw [heq] at h
    exact Int.lt_irrefl _ h
  exact ⟨_, if_neg hne⟩

theorem insert?_of_room (row : ρ) (h : table.sequence.toInt < Int64.maxValue.toInt) :
    ∃ id table', table.insert? row = some (id, table') := by
  obtain ⟨id, hid⟩ := nextId?_of_room h
  exact ⟨id, table.put id row, by rw [insert?, hid]; rfl⟩

theorem of_insert? (h : table.insert? row = some (id, table')) :
    table.nextId? = some id ∧ table' = table.put id row := by
  rw [insert?, Option.map_eq_some_iff] at h
  obtain ⟨next, hnext, heq⟩ := h
  cases heq
  exact ⟨hnext, rfl⟩

/-- **A new row comes last.** -/
theorem entries_insert? (h : table.insert? row = some (id, table')) :
    table'.rows.entries = table.rows.entries ++ [(id, row)] := by
  obtain ⟨hid, rfl⟩ := of_insert? h
  exact Rows.putEntry_of_lt (lt_nextId hid)

/-- A new row takes one number of the sequence. -/
theorem sequence_insert? (h : table.insert? row = some (id, table')) :
    table'.sequence.toInt = table.sequence.toInt + 1 := by
  obtain ⟨hid, rfl⟩ := of_insert? h
  have hraise : (table.put id row).sequence = id := if_pos (sequence_lt_nextId hid)
  rw [hraise, toInt_nextId hid]

/-- How many numbers are left for new rows. -/
def left (table : Table ρ) : Nat := (Int64.maxValue.toInt - table.sequence.toInt).toNat

theorem nextId?_of_left_eq_zero (h : table.left = 0) : table.nextId? = none := by
  have hlt := table.sequence.toInt_lt
  have hmax : table.sequence = Int64.maxValue := by
    rw [← Int64.toInt_inj]
    rw [left, Int64.toInt_maxValue] at h
    rw [Int64.toInt_maxValue]
    omega
  exact if_pos hmax

theorem room_of_left_pos (h : 0 < table.left) :
    table.sequence.toInt < Int64.maxValue.toInt := by
  rw [left] at h
  omega

/-- Without a number that is left a new row is refused. -/
theorem insert?_of_left_eq_zero (row : ρ) (h : table.left = 0) : table.insert? row = none := by
  rw [insert?, nextId?_of_left_eq_zero h]
  rfl

theorem left_insert? (h : table.insert? row = some (id, table')) :
    table'.left = table.left - 1 := by
  rw [left, left, sequence_insert? h]
  omega

/-- A new row takes one of the numbers that are left. -/
theorem insert?_of_left {n : Nat} (row : ρ) (h : table.left = n + 1) :
    ∃ id table', table.insert? row = some (id, table') ∧ table'.left = n := by
  have room : table.sequence.toInt < Int64.maxValue.toInt := room_of_left_pos (by omega)
  obtain ⟨id, table', hinsert⟩ := insert?_of_room row room
  refine ⟨id, table', hinsert, ?_⟩
  rw [left_insert? hinsert, h]
  rfl

theorem keep_comm (p q : Int64 → ρ → Bool) : (table.keep p).keep q = (table.keep q).keep p := by
  refine eq_of_entries ?_ rfl
  show (table.rows.entries.filter _).filter _ = (table.rows.entries.filter _).filter _
  rw [List.filter_filter, List.filter_filter]
  apply List.filter_congr
  intro e _
  exact Bool.and_comm _ _

/-- Rows that are left out do not matter to a new one. -/
theorem insert?_keep (p : Int64 → ρ → Bool) (hrow : ∀ id, p id row = true) :
    (table.keep p).insert? row = (table.insert? row).map fun new => (new.1, new.2.keep p) := by
  -- rows that go leave the sequence, so the new row has the same number in both tables
  have hnext : (table.keep p).nextId? = table.nextId? := rfl
  rw [insert?, insert?, hnext]
  cases hid : table.nextId? with
  | none => rfl
  | some id =>
      have hlt := lt_nextId hid
      have hput : (table.keep p).put id row = (table.put id row).keep p := by
        refine eq_of_entries ?_ rfl
        show Rows.putEntry id row (table.rows.entries.filter _) =
          (Rows.putEntry id row table.rows.entries).filter _
        have hnew : [(id, row)].filter (fun e => p e.1 e.2) = [(id, row)] := by
          rw [List.filter_eq_self]
          intro e he
          rw [List.mem_singleton.1 he]
          exact hrow id
        rw [Rows.putEntry_of_lt hlt, List.filter_append, hnew]
        apply Rows.putEntry_of_lt
        intro e he
        exact hlt e (List.mem_filter.1 he).1
      show some (id, (table.keep p).put id row) = some (id, (table.put id row).keep p)
      rw [hput]

end Table

end MailPush
