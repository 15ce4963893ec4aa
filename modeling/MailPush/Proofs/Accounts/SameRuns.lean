import MailPush.Proofs.Accounts.Renaming

set_option autoImplicit false

/-! # Runs over renamed folders

What is computed from the folders of an account does not look into their ids. The list that is
read from rows which are the same up to a renaming is the same up to it (`list_same`); a ping over
such lists sends the same message and has the same outcome up to the renaming (`run_same`), and so
it makes the same adjustment (`adjustment?_same`).
-/

namespace MailPush.Accounts.Renaming

open Repository

variable {R : Renaming}

/-! ## Lists of folders -/

section Folders

variable {list list' : List Folder}

theorem select_same (h : List.Forall₂ R.SameFolder list list') :
    Folder.select list = Folder.select list' := by
  induction h with
  | nil => rfl
  | cons hfg hrest ih =>
      rename_i f g rest rest'
      rw [Folder.select, Folder.select] at ih ⊢
      have heligible : g.isEligible = f.isEligible := by rw [hfg.2]; rfl
      have hwatched : g.watched = f.watched := by rw [hfg.2]; rfl
      rw [List.filter_cons, List.filter_cons, heligible]
      split
      · rw [List.map_cons, List.map_cons, hwatched, ih]
      · exact ih

theorem find?_same (h : List.Forall₂ R.SameFolder list list') (serverId : String) :
    Option.Rel R.SameFolder (Folder.findByServerId? list serverId)
      (Folder.findByServerId? list' serverId) := by
  rw [Folder.findByServerId?, Folder.findByServerId?]
  induction h with
  | nil => exact .none
  | cons hfg hrest ih =>
      rename_i f g rest rest'
      have hserver : g.serverId = f.serverId := by rw [hfg.2]
      rw [List.find?_cons, List.find?_cons, hserver]
      cases f.serverId == serverId with
      | true => exact .some hfg
      | false => exact ih

theorem effect_same {f g : Folder} (h : R.SameFolder f g) :
    R.SameEffect (.ofFolder f) (.ofFolder g) := by
  obtain ⟨hid, hg⟩ := h
  rw [hg]
  exact .syncFolder f.serverId f.folderClass hid

theorem resolve_same (h : List.Forall₂ R.SameFolder list list') (serverIds : List String) :
    List.Forall₂ R.SameEffect (Effect.resolve list serverIds) (Effect.resolve list' serverIds) := by
  have hrefl : List.Forall₂ Eq serverIds serverIds := List.forall₂_refl serverIds
  refine List.rel_filterMap ?_ hrefl
  rintro serverId _ rfl
  show Option.Rel R.SameEffect ((Folder.findByServerId? list serverId).map .ofFolder)
    ((Folder.findByServerId? list' serverId).map .ofFolder)
  have hfind := find?_same h serverId
  generalize Folder.findByServerId? list serverId = found at hfind
  generalize Folder.findByServerId? list' serverId = found' at hfind
  cases hfind with
  | none => exact .none
  | some hfg => exact .some (effect_same hfg)

theorem ofAction_same (h : List.Forall₂ R.SameFolder list list') (action : Option Action) :
    List.Forall₂ R.SameEffect (Effect.ofAction list action) (Effect.ofAction list' action) := by
  unfold Effect.ofAction
  split
  · exact resolve_same h _
  · exact .cons .refreshFolderList .nil
  · exact .nil

end Folders

/-! ## Runs -/

theorem sameOutcome_ofClassification {effects effects' : List Effect}
    (h : List.Forall₂ R.SameEffect effects effects') (c : Classification) :
    R.SameOutcome (.ofClassification c effects) (.ofClassification c effects') := by
  cases c with
  | retryLater | fatalAuth | fatalProtocol => exact .other fun _ _ hne => nomatch hne
  | expired | changesFound | badRequest | heartbeatOutOfBounds | tooManyFolders | folderListStale
  | transientServerError | unrecognized => exact .completed _ h

theorem conclude_same {list list' : List Folder} (h : List.Forall₂ R.SameFolder list list')
    (ping : Ping) (received : Except TransportError Response) :
    R.SameOutcome (ping.conclude list received).outcome (ping.conclude list' received).outcome := by
  cases received with
  | error failure => exact .other fun _ _ hne => nomatch hne
  | ok response => exact sameOutcome_ofClassification (ofAction_same h _) _

/-- Outcomes that are the same up to a renaming show the same adjustment. -/
theorem SameOutcome.adjustment?_eq {o o' : Outcome} (h : R.SameOutcome o o') :
    o.adjustment? = o'.adjustment? := by
  cases h with
  | completed c heffects =>
      cases c with
      | heartbeatOutOfBounds serverHeartbeat => cases serverHeartbeat <;> rfl
      | expired | changesFound | badRequest | tooManyFolders | folderListStale
      | transientServerError | retryLater | fatalAuth | fatalProtocol | unrecognized => rfl
  | other => rfl

theorem adjustment?_same {σ τ : Type} {r : Ping.Run σ} {r' : Ping.Run τ}
    (h : Agree R.SameOutcome r.result r'.result) : r.adjustment? = r'.adjustment? := by
  rw [Ping.Run.adjustment?, Ping.Run.adjustment?]
  generalize r.result = result at h
  generalize r'.result = result' at h
  cases h with
  | ok houtcome => exact houtcome.adjustment?_eq
  | error e => rfl

/-- **Runs over renamed folders.** Where the same ping reads lists that are the same up to a
renaming, the message is the same, and so is the result up to the renaming. -/
theorem run_same {σ τ : Type} {env : Collaborators σ} {env' : Collaborators τ} {ping : Ping}
    {w : σ} {w' : τ} (hcodec : env.codec = env'.codec)
    (h : Agree (List.Forall₂ R.SameFolder) (env.registry.folders ping.account w).result
      (env'.registry.folders ping.account w').result) (x : Exchange) :
    Agree R.SameOutcome (Ping.run env ping x w).result (Ping.run env' ping x w').result ∧
      (Ping.run env ping x w).sent = (Ping.run env' ping x w').sent := by
  generalize hread : (env.registry.folders ping.account w).result = read at h
  generalize hread' : (env'.registry.folders ping.account w').result = read' at h
  cases h with
  | error e =>
      simp only [Ping.run, hread, hread', and_true]
      exact .error _
  | ok hlist =>
      rename_i list list'
      have hrequest : ping.request? list = ping.request? list' :=
        congrArg (Request.build? ping.heartbeat.secs) (select_same hlist)
      cases hr : ping.request? list with
      | none =>
          rw [hr] at hrequest
          simp only [Ping.run, hread, hread', hr, ← hrequest, and_true]
          exact .ok (.other fun _ _ => Outcome.noConfusion)
      | some request =>
          rw [hr] at hrequest
          cases hp : env.codec.encode request with
          | error e =>
              simp only [Ping.run, hread, hread', hr, ← hrequest, ← hcodec, hp, and_true]
              exact .error _
          | ok payload =>
              have hprep : Ping.Prepared env ping w list request payload := ⟨hread, hr, hp⟩
              have hprep' : Ping.Prepared env' ping w' list' request payload :=
                ⟨hread', hrequest.symm, hcodec ▸ hp⟩
              rw [Ping.run_of_prepared hprep, Ping.run_of_prepared hprep', ← hcodec]
              cases x.received? env.codec ping.heartbeat.timeout with
              | none => exact ⟨.ok (.other fun _ _ => Outcome.noConfusion), rfl⟩
              | some received =>
                  have hsame := conclude_same hlist ping received
                  rw [Ping.finish_result, Ping.finish_result, Ping.finish_sent, Ping.finish_sent]
                  exact ⟨.ok hsame, rfl⟩

/-! ## Rows -/

section Rows

variable {rows rows' : List (Int64 × FolderRow)}

theorem SameRow.folder {e e' : Int64 × FolderRow} (h : R.SameRow e e') :
    Agree R.SameFolder (e.2.folder e.1) (e'.2.folder e'.1) := by
  obtain ⟨hid, hrow⟩ := h
  rw [← hrow, FolderRow.folder, FolderRow.folder]
  cases FolderClass.ofName? e.2.className with
  | none => exact .error _
  | some c => exact .ok ⟨hid, rfl⟩

/-- Rows that are the same up to a renaming are read as lists that are the same up to it. -/
theorem list_same (h : List.Forall₂ R.SameRow rows rows') :
    Agree (List.Forall₂ R.SameFolder) (rows.mapM fun e => e.2.folder e.1)
      (rows'.mapM fun e => e.2.folder e.1) := by
  induction h with
  | nil => exact .ok .nil
  | cons he hrest ih =>
      rename_i e e' rest rest'
      rw [List.mapM_cons, List.mapM_cons]
      have hfolder := he.folder
      generalize e.2.folder e.1 = read at hfolder
      generalize e'.2.folder e'.1 = read' at hfolder
      generalize (rest.mapM fun e => e.2.folder e.1) = reads at ih
      generalize (rest'.mapM fun e => e.2.folder e.1) = reads' at ih
      cases hfolder with
      | error failure => exact .error failure
      | ok hfolder =>
          cases ih with
          | error failure => exact .error failure
          | ok hfolders => exact .ok (.cons hfolder hfolders)

theorem idOf?_same (h : List.Forall₂ R.SameRow rows rows') (serverId : String) :
    Option.Rel (fun m n => R.rel ⟨m⟩ ⟨n⟩) (FolderTable.idOf? rows serverId)
      (FolderTable.idOf? rows' serverId) := by
  rw [FolderTable.idOf?, FolderTable.idOf?]
  induction h with
  | nil => exact .none
  | cons he hrest ih =>
      rename_i e e' rest rest'
      rw [List.find?_cons, List.find?_cons, ← he.2]
      cases e.2.serverId == serverId with
      | true => exact .some he.1
      | false => exact ih

/-- A row is saved under numbers that the renaming relates. -/
theorem saveRow_same (h : List.Forall₂ R.SameRow rows rows') {n n' : Int64}
    (hn : R.rel ⟨n⟩ ⟨n'⟩) (row : FolderRow) :
    List.Forall₂ R.SameRow (FolderTable.saveRow n row rows) (FolderTable.saveRow n' row rows') := by
  have hid := idOf?_same h row.serverId
  unfold FolderTable.saveRow
  generalize FolderTable.idOf? rows row.serverId = found at hid
  generalize FolderTable.idOf? rows' row.serverId = found' at hid
  cases hid with
  | none => exact List.rel_append h (.cons ⟨hn, rfl⟩ .nil)
  | some =>
      refine List.rel_map ?_ h
      rintro e e' ⟨hid, hrow⟩
      exact ⟨hid, by simp only [hrow]⟩

end Rows

end MailPush.Accounts.Renaming
