import MailPush.Classification
import Mathlib.Tactic.SplitIfs

set_option autoImplicit false

/-! # The table of status codes

The classification of a response as a table on the number of its status, with the fatal codes
given as ranges (`FatalAuthCode`, `FatalProtocolCode`). `classify_eq_table` says that
`classify` computes this table, and `action_classify` gives the action that each row mandates.
-/

namespace MailPush

/-! ## Ranges of codes -/

/-- The codes that stop an account until it is authorised again. -/
def FatalAuthCode (n : Nat) : Prop :=
  (126 ≤ n ∧ n ≤ 131) ∨ n = 139 ∨ n = 141 ∨ n = 177

/-- The codes that show a disagreement about state or protocol. -/
def FatalProtocolCode (n : Nat) : Prop :=
  (132 ≤ n ∧ n ≤ 138) ∨ n = 140 ∨ (142 ≤ n ∧ n ≤ 145) ∨ n = 147 ∨ n = 148 ∨ n = 150

instance : DecidablePred FatalAuthCode := fun n =>
  inferInstanceAs (Decidable ((126 ≤ n ∧ n ≤ 131) ∨ n = 139 ∨ n = 141 ∨ n = 177))

instance : DecidablePred FatalProtocolCode := fun n =>
  inferInstanceAs (Decidable ((132 ≤ n ∧ n ≤ 138) ∨ n = 140 ∨ (142 ≤ n ∧ n ≤ 145) ∨ n = 147 ∨
    n = 148 ∨ n = 150))

namespace Status

/-- The number of a status. -/
def number (s : Status) : Nat := s.code.toNat

theorem number_inj {s t : Status} : s.number = t.number ↔ s = t := by
  obtain ⟨c⟩ := s
  obtain ⟨d⟩ := t
  simp only [number, UInt32.toNat_inj, Status.mk.injEq]

theorem mem_codes_iff {s : Status} {codes : List UInt32} :
    codes.contains s.code = true ↔ s.number ∈ codes.map UInt32.toNat := by
  rw [List.contains_iff_mem, List.mem_map]
  constructor
  · intro h
    exact ⟨s.code, h, rfl⟩
  · rintro ⟨c, hc, heq⟩
    rwa [← UInt32.toNat_inj.1 heq]

theorem isFatalAuth_iff {s : Status} : s.isFatalAuth = true ↔ FatalAuthCode s.number := by
  have hcodes : fatalAuthCodes.map UInt32.toNat = [126, 127, 128, 129, 130, 131, 139, 141, 177] :=
    rfl
  rw [isFatalAuth, mem_codes_iff, hcodes, FatalAuthCode]
  simp only [List.mem_cons, List.not_mem_nil, or_false]
  omega

theorem isFatalProtocol_iff {s : Status} :
    s.isFatalProtocol = true ↔ FatalProtocolCode s.number := by
  have hcodes : fatalProtocolCodes.map UInt32.toNat
      = [132, 133, 134, 135, 136, 137, 138, 140, 142, 143, 144, 145, 147, 148, 150] := rfl
  rw [isFatalProtocol, mem_codes_iff, hcodes, FatalProtocolCode]
  simp only [List.mem_cons, List.not_mem_nil, or_false]
  omega

end Status

/-! ## The table -/

/-- What a status number says of a response that carries it. -/
def classificationTable (n : Nat) (r : Response) : Classification :=
  if n = 1 then .expired
  else if n = 2 then .changesFound r.folders
  else if n = 3 ∨ n = 4 then .badRequest r.status
  else if n = 5 then .heartbeatOutOfBounds r.heartbeatInterval
  else if n = 6 then .tooManyFolders r.maxFolders
  else if n = 7 then .folderListStale
  else if n = 8 then .transientServerError
  else if n = 111 then .retryLater
  else if FatalAuthCode n then .fatalAuth r.status
  else if FatalProtocolCode n then .fatalProtocol r.status
  else .unrecognized r.status

/-- **The classification is the table.** -/
theorem classify_eq_table (r : Response) : classify r = classificationTable r.status.number r := by
  have code (c : UInt32) : (r.status = ⟨c⟩) = (r.status.number = c.toNat) :=
    propext Status.number_inj.symm
  simp only [classify, classificationTable, Status.expired, Status.changesFound,
    Status.requestIncomplete, Status.requestMalformed, Status.heartbeatOutOfBounds,
    Status.tooManyFolders, Status.folderRefreshNeeded, Status.serverError,
    Status.serverErrorRetry, code, Status.isFatalAuth_iff, Status.isFatalProtocol_iff]
  rfl

/-- What a status number mandates for a response that carries it. -/
def actionTable (n : Nat) (r : Response) : Option Action :=
  if n = 1 then some .increaseHeartbeat
  else if n = 2 then some (.resyncFolders r.folders)
  else if n = 5 then r.heartbeatInterval.map .forceHeartbeat
  else if n = 7 then some .refreshFolderList
  else none

/-- **The action is that of the table**: four rows mandate one, the others none. -/
theorem action_classify (r : Response) :
    (classify r).action = actionTable r.status.number r := by
  rw [classify_eq_table]
  generalize r.status.number = n
  by_cases h1 : n = 1
  · subst h1
    rfl
  by_cases h2 : n = 2
  · subst h2
    rfl
  by_cases h5 : n = 5
  · subst h5
    show (Classification.heartbeatOutOfBounds r.heartbeatInterval).action =
      r.heartbeatInterval.map .forceHeartbeat
    cases r.heartbeatInterval with
    | none => rfl
    | some secs => rfl
  by_cases h7 : n = 7
  · subst h7
    rfl
  -- no other row carries an action, whichever it is
  simp only [classificationTable, actionTable, h1, h2, h5, h7, if_false]
  split_ifs <;> rfl

/-! ## Rows of the common codes -/

/-- Away from the codes of pings only the common codes are left of the table. -/
theorem classificationTable_common {n : Nat} (hn : n = 0 ∨ 8 < n) (r : Response) :
    classificationTable n r =
      if n = 111 then .retryLater
      else if FatalAuthCode n then .fatalAuth r.status
      else if FatalProtocolCode n then .fatalProtocol r.status
      else .unrecognized r.status := by
  rw [classificationTable, if_neg (by omega), if_neg (by omega), if_neg (by omega),
    if_neg (by omega), if_neg (by omega), if_neg (by omega), if_neg (by omega)]

theorem classificationTable_fatalAuth {n : Nat} (h : FatalAuthCode n) (r : Response) :
    classificationTable n r = .fatalAuth r.status := by
  have hn : 8 < n ∧ n ≠ 111 := by
    unfold FatalAuthCode at h
    omega
  obtain ⟨hlt, h111⟩ := hn
  rw [classificationTable_common (.inr hlt), if_neg h111, if_pos h]

theorem classificationTable_fatalProtocol {n : Nat} (h : FatalProtocolCode n) (r : Response) :
    classificationTable n r = .fatalProtocol r.status := by
  have hn : 8 < n ∧ n ≠ 111 ∧ ¬ FatalAuthCode n := by
    unfold FatalProtocolCode at h
    unfold FatalAuthCode
    omega
  obtain ⟨hlt, h111, hauth⟩ := hn
  rw [classificationTable_common (.inr hlt), if_neg h111, if_neg hauth, if_pos h]

/-- A code of no other row is passed through. -/
theorem classificationTable_other {n : Nat} (hn : n = 0 ∨ 8 < n) (h111 : n ≠ 111)
    (hauth : ¬ FatalAuthCode n) (hprotocol : ¬ FatalProtocolCode n) (r : Response) :
    classificationTable n r = .unrecognized r.status := by
  rw [classificationTable_common hn, if_neg h111, if_neg hauth, if_neg hprotocol]

/-! ## What a response means -/

/-- Two responses carry the same status, and the same in the one field that has a meaning for
this status. -/
structure SameMeaning (r r' : Response) : Prop where
  status_eq : r.status = r'.status
  folders_eq : r.status.number = 2 → r.folders = r'.folders
  heartbeatInterval_eq : r.status.number = 5 → r.heartbeatInterval = r'.heartbeatInterval
  maxFolders_eq : r.status.number = 6 → r.maxFolders = r'.maxFolders

/-- The other fields are not looked at. -/
theorem SameMeaning.classify_eq {r r' : Response} (h : SameMeaning r r') :
    classify r = classify r' := by
  obtain ⟨hs, hf, hi, hm⟩ := h
  rw [classify_eq_table, classify_eq_table, ← hs]
  generalize r.status.number = n at hf hi hm
  unfold classificationTable
  -- the rows that read a field are three, and each of them reads one
  by_cases h2 : n = 2
  · rw [hf h2, hs]
    simp [h2]
  by_cases h5 : n = 5
  · rw [hi h5, hs]
    simp [h5]
  by_cases h6 : n = 6
  · rw [hm h6, hs]
    simp [h6]
  rw [hs]
  simp only [h2, h5, h6, if_false]

end MailPush
