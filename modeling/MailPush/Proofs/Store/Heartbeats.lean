import MailPush.Store.Repository

set_option autoImplicit false

/-! # The row of a heartbeat

The heartbeats of all accounts are rows under the numbers of their accounts. Putting a row or
keeping some of them changes what is found under the numbers concerned, and nothing else
(`Rows.get?_put_self`, `Rows.get?_put_of_ne`, `Rows.get?_keep`).

A row is a signed word. It takes the heartbeats below 2^63 and yields them again
(`Repository.heartbeatOfStored_toInt64`), and refuses the others.
-/

namespace MailPush

theorem AccountId.number_inj {a b : AccountId} : a.number = b.number ↔ a = b := by
  cases a
  cases b
  exact AccountId.mk.injEq _ _ ▸ Iff.rfl

namespace Rows

variable {ρ : Type}

theorem lookup_putEntry (id other : Int64) (row : ρ) (es : List (Int64 × ρ)) :
    (putEntry id row es).lookup other = if other = id then some row else es.lookup other := by
  induction es with
  | nil =>
      rw [putEntry, List.lookup_cons]
      by_cases h : other = id
      · rw [if_pos h, h, beq_self_eq_true]
      · rw [if_neg h, beq_false_of_ne h]
  | cons e es ih =>
      unfold putEntry
      by_cases h : other = id
      · subst h
        rw [if_pos rfl] at ih ⊢
        split
        · rw [List.lookup_cons, beq_self_eq_true]
        · split
          · rw [List.lookup_cons, beq_self_eq_true]
          next hne => rw [List.lookup_cons, beq_false_of_ne hne, ih]
      · rw [if_neg h] at ih ⊢
        split
        · rw [List.lookup_cons, beq_false_of_ne h]
        · split
          next heq => rw [List.lookup_cons, List.lookup_cons, beq_false_of_ne h,
            beq_false_of_ne (heq ▸ h)]
          · rw [List.lookup_cons, List.lookup_cons, ih]

theorem get?_put_self (rows : Rows ρ) (id : Int64) (row : ρ) :
    (rows.put id row).get? id = some row :=
  (lookup_putEntry id id row rows.entries).trans (if_pos rfl)

theorem get?_put_of_ne {id other : Int64} (rows : Rows ρ) (row : ρ) (h : other ≠ id) :
    (rows.put id row).get? other = rows.get? other :=
  (lookup_putEntry id other row rows.entries).trans (if_neg h)

/-- What is kept by number is found as before, and the rest is not found. -/
theorem get?_keep (rows : Rows ρ) (p : Int64 → Bool) (id : Int64) :
    (rows.keep fun i _ => p i).get? id = if p id then rows.get? id else none := by
  show (rows.entries.filter fun e => p e.1).lookup id =
    if p id then rows.entries.lookup id else none
  induction rows.entries with
  | nil => exact (ite_self none).symm
  | cons e es ih =>
      have hcons : (e :: es).filter (fun e => p e.1) =
          if p e.1 then e :: es.filter fun e => p e.1 else es.filter fun e => p e.1 :=
        List.filter_cons
      rw [hcons]
      by_cases h : id = e.1
      · subst h
        split
        · rw [List.lookup_cons, List.lookup_cons, beq_self_eq_true]
        next hp => rw [ih, if_neg hp]
      · have hne : (id == e.1) = false := beq_false_of_ne h
        split
        · rw [List.lookup_cons, List.lookup_cons, hne, ih]
        · rw [List.lookup_cons, hne, ih]

end Rows

namespace Repository

/-- A heartbeat fits its row. -/
def storable (secs : UInt64) : Bool := secs.toNat < 9223372036854775808

variable {secs : UInt64}

theorem storable_iff : storable secs = true ↔ secs.toNat < 9223372036854775808 :=
  decide_eq_true_iff

/-- A heartbeat that fits is read as it was written. -/
theorem heartbeatOfStored_toInt64 (h : storable secs) :
    heartbeatOfStored secs.toInt64 = some secs := by
  have hlt := storable_iff.1 h
  have hint : secs.toInt64.toInt = secs.toNat := by
    rw [← Int64.toInt_toBitVec, UInt64.toBitVec_toInt64]
    exact BitVec.toInt_eq_toNat_of_lt (by rw [UInt64.toNat_toBitVec]; omega)
  have hnonneg : ¬ secs.toInt64 < 0 := by
    rw [Int64.lt_iff_toInt_lt, hint, Int64.toInt_zero]
    omega
  rw [heartbeatOfStored, if_neg hnonneg, UInt64.toUInt64_toInt64]

theorem storedOfHeartbeat_of_storable (h : storable secs) :
    storedOfHeartbeat secs = .ok secs.toInt64 :=
  if_pos (storable_iff.1 h)

theorem storedOfHeartbeat_of_not_storable (h : ¬ storable secs) :
    storedOfHeartbeat secs = .error (.outOfRange secs) :=
  if_neg fun hlt => h (storable_iff.2 hlt)

end Repository

end MailPush
