import QAuth.Sessions.System

/-!
# What holds of every session task

A registry row and an unspent code are of a session that is not revoked, and a transaction that has
recorded a client, or ended a session, holds the row of that session. Two such transactions
therefore never overlap on one session, and what a statement has read of a session it holds is
still so when it commits.
-/

namespace QAuth.Sessions

open QAuth.Token Locks Table Transition

/-! ### The committed rows -/

def Tables.Unrevoked (db : Tables) (sid realmId : Uuid) : Prop :=
  ∃ session ∈ db.sessions, session.id = sid ∧ session.realmId = realmId ∧ session.revokedAt = none

def Tables.Revoked (db : Tables) (sid : Uuid) : Prop :=
  ∃ session ∈ db.sessions, session.id = sid ∧ session.revokedAt ≠ none

def Tables.HasClient (db : Tables) (realmId oauthClientId : Uuid) : Prop :=
  ∃ client ∈ db.clients, client.id = oauthClientId ∧ client.realmId = realmId

/-- The committed rows, at any time. -/
structure Tables.Ok (db : Tables) : Prop where
  ids : (db.sessions.map Session.id).Nodup
  clientIds : (db.clients.map OAuthClient.id).Nodup
  registry : ∀ row ∈ db.registry, ∃ realmId,
    db.Unrevoked row.sessionId realmId ∧ db.HasClient realmId row.oauthClientId
  codes : ∀ code ∈ db.codes, code.used = false → ∀ sid ∈ code.sessionId,
    ∃ realmId, db.Unrevoked sid realmId

theorem Tables.Ok.not_revoked {db : Tables} (h : db.Ok) {sid realmId : Uuid}
    (hunrevoked : db.Unrevoked sid realmId) : ¬ db.Revoked sid := by
  rintro ⟨session, hsession, hid, hrevoked⟩
  obtain ⟨session', hsession', hid', -, hnone⟩ := hunrevoked
  rw [eq_of_key_eq h.ids hsession hsession' (hid.trans hid'.symm)] at hrevoked
  exact hrevoked hnone

/-! ### Transactions -/

/-- What a transaction has written, beside the committed rows. -/
structure Txn.Ok (db : Tables) (txn : Txn) : Prop where
  ended : ∀ session ∈ txn.ended, (.session session.id, .exclusive) ∈ txn.locks ∧
    db.Unrevoked session.id session.realmId ∧ session.revokedAt ≠ none
  endedIds : (txn.ended.map Session.id).Nodup
  removed : ∀ row ∈ txn.removed, row.sessionId ∈ txn.ended.map Session.id
  deleted : ∀ sid ∈ txn.deleted, (.session sid, .exclusive) ∈ txn.locks ∧ db.Revoked sid
  inserted : ∀ row ∈ txn.inserted, (.session row.sessionId, .shared) ∈ txn.locks ∧
    (.registry row.key, .exclusive) ∈ txn.locks ∧
    row.key ∉ db.registry.map SessionClient.key ∧
    ∃ realmId, db.Unrevoked row.sessionId realmId ∧ db.HasClient realmId row.oauthClientId
  code : ∀ code ∈ txn.code, ∀ sid ∈ code.sessionId, (.session sid, .shared) ∈ txn.locks ∧
    ∃ realmId, db.Unrevoked sid realmId
  /-- A transaction that inserts ends and deletes nothing. -/
  inserts : txn.inserted ≠ none ∨ txn.code ≠ none → txn.ended = [] ∧ txn.deleted = []

theorem Txn.Ok.of_empty {db : Tables} {locks : List (Resource × Mode)} {spent : List Uuid} :
    Txn.Ok db { Txn.empty with locks := locks, spent := spent } where
  ended _ h := nomatch h
  endedIds := List.nodup_nil
  removed _ h := nomatch h
  deleted _ h := nomatch h
  inserted _ h := nomatch h
  code _ h := nomatch h
  inserts _ := ⟨rfl, rfl⟩

/-! ### Programs -/

/-- The share lock of `recordClient` is held. -/
def MintStage.holding : MintStage → Bool
  | .locked | .recorded | .minted => true
  | _ => false

/-- What a mint has established. -/
structure MintOk (db : Tables) (txn : Txn) (mint : Mint) (stage : MintStage) : Prop where
  locked : stage.holding = true → (.session mint.sessionId, .shared) ∈ txn.locks ∧
    db.Unrevoked mint.sessionId mint.realmId ∧ db.HasClient mint.realmId mint.oauthClientId
  ended : txn.ended = []
  removed : txn.removed = []
  deleted : txn.deleted = []
  events : txn.events = []
  inserted : stage.holding = false ∨ stage = .locked → txn.inserted = none
  code : stage.holding = false ∨ stage = .locked ∨ stage = .recorded → txn.code = none

/-- The update has not been made. -/
def RevokeStage.selecting : RevokeStage → Bool
  | .begun | .locking _ _ => true
  | _ => false

/-- The statement that deletes the registry rows has been made. -/
def RevokeStage.past : RevokeStage → Bool
  | .begun | .locking _ _ | .updated => false
  | _ => true

/-- The clients that the revocation has read. -/
def RevokeStage.clients : RevokeStage → Option (List ClientDetailWithLogout)
  | .detailed clients | .spending clients _ | .finished clients => some clients
  | _ => none

/-- The codes still to be spent, once they have been read. -/
def RevokeStage.left : RevokeStage → Option (List Uuid)
  | .spending _ todo => some todo
  | .finished _ => some []
  | _ => none

/-- The key of the registry row that a detail is of. -/
def ClientDetailWithLogout.key (client : ClientDetailWithLogout) : Uuid × Uuid :=
  client.detail.key

/-- The events that the revocation has written. -/
def RevokeStage.notices (ended : List Session) : RevokeStage → List ClientSessionEnded
  | .finished clients => (endings ended clients).flatMap Ending.notices
  | _ => []

/-- What a revocation has established. -/
structure RevokeOk (db : Tables) (txn : Txn) (stage : RevokeStage) : Prop where
  inserted : txn.inserted = none
  code : txn.code = none
  deleted : txn.deleted = []
  locked : ∀ todo locked, stage = .locking todo locked →
    ∀ sid ∈ locked, (.session sid, .exclusive) ∈ txn.locks
  ended : stage.selecting = true → txn.ended = []
  unremoved : stage.past = false → txn.removed = []
  removed : stage.past = true → txn.removed = db.served txn
  clients : ∀ clients, stage.clients = some clients →
    (clients.map ClientDetailWithLogout.key).Perm (txn.removed.map SessionClient.key)
  left : ∀ todo, stage.left = some todo → ∀ code ∈ db.codes, isUnspent txn code = true →
    code.id ∈ todo ∨ code.id ∈ txn.spent
  events : txn.events = stage.notices txn.ended

/-- A transaction that neither ends nor inserts anything. -/
structure DeleteOk (txn : Txn) : Prop where
  ended : txn.ended = []
  removed : txn.removed = []
  inserted : txn.inserted = none
  code : txn.code = none
  events : txn.events = []

/-- What the statements of a task have established. -/
def ProgramOk (db : Tables) (txn : Txn) : Program → Prop
  | .minting mint stage => MintOk db txn mint stage
  | .revoking _ stage => RevokeOk db txn stage
  | .deleting _ _ => DeleteOk txn
  | .spending _ _ => DeleteOk txn ∧ txn.deleted = []
  | .ended => txn = .empty

/-- A task beside the committed rows. -/
structure TaskOk (db : Tables) (task : Task) : Prop where
  txn : task.txn.Ok db
  program : ProgramOk db task.txn task.program

theorem TaskOk.empty (db : Tables) : TaskOk db ⟨.empty, .ended⟩ :=
  ⟨.of_empty, rfl⟩

/-! ### A change of the tables -/

/-- What a change of the committed rows from `db` to `db'` leaves of the facts of a task that holds
`locks`. -/
structure Keeps (db db' : Tables) (locks : List (Resource × Mode)) : Prop where
  unrevoked : ∀ sid realmId mode, (.session sid, mode) ∈ locks → db.Unrevoked sid realmId →
    db'.Unrevoked sid realmId
  revoked : ∀ sid, (.session sid, .exclusive) ∈ locks → db.Revoked sid → db'.Revoked sid
  client : ∀ realmId oauthClientId, db.HasClient realmId oauthClientId →
    db'.HasClient realmId oauthClientId
  fresh : ∀ key, (.registry key, .exclusive) ∈ locks →
    key ∉ db.registry.map SessionClient.key → key ∉ db'.registry.map SessionClient.key
  served : ∀ ids : List Uuid, (∀ sid ∈ ids, (.session sid, .exclusive) ∈ locks) →
    (db'.registry.filter fun row ↦ row.sessionId ∈ ids) =
      db.registry.filter fun row ↦ row.sessionId ∈ ids
  codes : ∀ code' ∈ db'.codes, code'.used = false → ∀ sid ∈ code'.sessionId,
    (.session sid, .exclusive) ∈ locks →
    ∃ code ∈ db.codes, code.id = code'.id ∧ code.used = false ∧ code.sessionId = some sid

section Keeps

variable {db db' : Tables} {txn : Txn}

theorem Txn.Ok.keep (hk : Keeps db db' txn.locks) (h : txn.Ok db) : txn.Ok db' where
  ended session hsession := by
    obtain ⟨hlock, hunrevoked, hrevoked⟩ := h.ended session hsession
    exact ⟨hlock, hk.unrevoked _ _ _ hlock hunrevoked, hrevoked⟩
  endedIds := h.endedIds
  removed := h.removed
  deleted sid hsid := by
    obtain ⟨hlock, hrevoked⟩ := h.deleted sid hsid
    exact ⟨hlock, hk.revoked sid hlock hrevoked⟩
  inserted row hrow := by
    obtain ⟨hsession, hkey, hfresh, realmId, hunrevoked, hclient⟩ := h.inserted row hrow
    exact ⟨hsession, hkey, hk.fresh _ hkey hfresh, realmId,
      hk.unrevoked _ _ _ hsession hunrevoked, hk.client _ _ hclient⟩
  code code hcode sid hsid := by
    obtain ⟨hsession, realmId, hunrevoked⟩ := h.code code hcode sid hsid
    exact ⟨hsession, realmId, hk.unrevoked _ _ _ hsession hunrevoked⟩
  inserts := h.inserts

/-- The sessions that a transaction has ended are its own. -/
theorem Txn.Ok.lock_of_mem_ended (h : txn.Ok db) {sid : Uuid}
    (hsid : sid ∈ txn.ended.map Session.id) : (.session sid, .exclusive) ∈ txn.locks := by
  obtain ⟨session, hsession, rfl⟩ := List.mem_map.mp hsid
  exact (h.ended session hsession).1

theorem TaskOk.keep {task : Task} (hk : Keeps db db' task.txn.locks) (h : TaskOk db task) :
    TaskOk db' task := by
  refine ⟨h.txn.keep hk, ?_⟩
  have hprogram := h.program
  unfold ProgramOk at hprogram ⊢
  split
  · rename_i mint stage hprog
    rw [hprog] at hprogram
    refine { hprogram with locked := fun hholding ↦ ?_ }
    obtain ⟨hlock, hunrevoked, hclient⟩ := hprogram.locked hholding
    exact ⟨hlock, hk.unrevoked _ _ _ hlock hunrevoked, hk.client _ _ hclient⟩
  · rename_i job stage hprog
    rw [hprog] at hprogram
    refine { hprogram with removed := fun hpast ↦ ?_, left := fun todo hleft code' hcode' hunspent ↦ ?_ }
    · rw [hprogram.removed hpast]
      exact (hk.served _ fun sid hsid ↦ h.txn.lock_of_mem_ended hsid).symm
    · simp only [isUnspent, decide_eq_true_eq] at hunspent
      obtain ⟨hused, sid, hsid, hended⟩ := hunspent
      obtain ⟨code, hcode, hid, hused, hsession⟩ :=
        hk.codes code' hcode' hused sid hsid (h.txn.lock_of_mem_ended hended)
      rw [← hid]
      refine hprogram.left todo hleft code hcode ?_
      simp only [isUnspent, decide_eq_true_eq]
      exact ⟨hused, sid, hsession, hended⟩
  · rename_i hprog
    rwa [hprog] at hprogram
  · rename_i hprog
    rwa [hprog] at hprogram
  · rename_i hprog
    rwa [hprog] at hprogram

end Keeps

/-! ### Commits -/

section Commit

variable {db : Tables} {txn other : Txn} {session : Session} {locks : List (Resource × Mode)}

@[simp] theorem endSession_id : (Tables.endSession txn session).id = session.id := by
  unfold Tables.endSession
  split <;> rfl

@[simp] theorem endSession_realmId :
    (Tables.endSession txn session).realmId = session.realmId := by
  unfold Tables.endSession
  split <;> rfl

theorem endSession_of_not_mem (h : session.id ∉ txn.ended.map Session.id) :
    Tables.endSession txn session = session := by
  unfold Tables.endSession
  split
  · rename_i ended hfind
    have hid : ended.id = session.id := by simpa using List.find?_some hfind
    exact absurd (List.mem_map.mpr ⟨ended, List.mem_of_find?_eq_some hfind, hid⟩) h
  · rfl

/-- A session after a commit was there before, and was not deleted. -/
theorem mem_commit_sessions :
    session ∈ (db.commit txn).sessions ↔
      ∃ old ∈ db.sessions, session = Tables.endSession txn old ∧ old.id ∉ txn.deleted := by
  simp only [Tables.commit, List.mem_filter, List.mem_map, Bool.not_eq_true',
    List.contains_eq_mem, decide_eq_false_iff_not]
  constructor
  · rintro ⟨⟨old, hold, rfl⟩, hdeleted⟩
    rw [endSession_id] at hdeleted
    exact ⟨old, hold, rfl, hdeleted⟩
  · rintro ⟨old, hold, rfl, hdeleted⟩
    refine ⟨⟨old, hold, rfl⟩, ?_⟩
    rw [endSession_id]
    exact hdeleted

/-- A session that a transaction neither ended nor deleted is as it was. -/
theorem mem_commit_of_untouched (h : session ∈ db.sessions)
    (hended : session.id ∉ txn.ended.map Session.id) (hdeleted : session.id ∉ txn.deleted) :
    session ∈ (db.commit txn).sessions :=
  mem_commit_sessions.mpr ⟨session, h, (endSession_of_not_mem hended).symm, hdeleted⟩

theorem Tables.Unrevoked.commit {sid realmId : Uuid} (h : db.Unrevoked sid realmId)
    (hended : sid ∉ txn.ended.map Session.id) (hdeleted : sid ∉ txn.deleted) :
    (db.commit txn).Unrevoked sid realmId := by
  obtain ⟨session, hsession, rfl, hrealm, hrevoked⟩ := h
  exact ⟨session, mem_commit_of_untouched hsession hended hdeleted, rfl, hrealm, hrevoked⟩

/-- A session that one transaction holds is neither ended nor deleted by another. -/
theorem not_mem_of_locked {sid : Uuid} {mode : Mode} (hother : other.Ok db)
    (hcompat : Compatible locks other.locks) (hlock : (.session sid, mode) ∈ locks) :
    sid ∉ other.ended.map Session.id ∧ sid ∉ other.deleted := by
  constructor
  · exact fun hended ↦ hcompat.symm.not_mem (hother.lock_of_mem_ended hended) hlock
  · exact fun hdeleted ↦ hcompat.symm.not_mem (hother.deleted sid hdeleted).1 hlock

theorem mem_commit_registry {row : SessionClient} :
    row ∈ (db.commit txn).registry ↔
      (row ∈ db.registry ∧ row ∉ txn.removed ∧ row.sessionId ∉ txn.deleted) ∨
        txn.inserted = some row := by
  simp [Tables.commit]

/-- A code after a commit was there before, or is the one the transaction minted. -/
theorem mem_commit_codes {code : AuthorizationCode} :
    code ∈ (db.commit txn).codes ↔
      (∃ old ∈ db.codes, Tables.endCode txn old = code) ∨ txn.code = some code := by
  simp [Tables.commit]

/-- A code that is unspent after a commit was unspent before, and its session was not deleted. -/
theorem of_endCode_unused {code : AuthorizationCode} {sid : Uuid}
    (hused : (Tables.endCode txn code).used = false)
    (hsid : sid ∈ (Tables.endCode txn code).sessionId) :
    code.used = false ∧ code.id ∉ txn.spent ∧ code.sessionId = some sid ∧ sid ∉ txn.deleted := by
  simp only [Tables.endCode, Bool.or_eq_false_iff, List.contains_eq_mem,
    decide_eq_false_iff_not] at hused
  simp only [Tables.endCode, Option.mem_def, Option.filter_eq_some_iff, Bool.not_eq_true',
    List.contains_eq_mem, decide_eq_false_iff_not] at hsid
  exact ⟨hused.1, hused.2, hsid.1, hsid.2⟩

/-- A commit keeps the facts of every other task. -/
theorem Keeps.commit (hcompat : Compatible locks other.locks) (hother : other.Ok db) :
    Keeps db (db.commit other) locks where
  unrevoked sid realmId mode hlock h := by
    obtain ⟨hended, hdeleted⟩ := not_mem_of_locked hother hcompat hlock
    exact h.commit hended hdeleted
  revoked sid hlock h := by
    obtain ⟨hended, hdeleted⟩ := not_mem_of_locked hother hcompat hlock
    obtain ⟨session, hsession, rfl, hrevoked⟩ := h
    exact ⟨session, mem_commit_of_untouched hsession hended hdeleted, rfl, hrevoked⟩
  client _ _ h := h
  fresh key hlock h := by
    intro hmem
    obtain ⟨row, hrow, rfl⟩ := List.mem_map.mp hmem
    rcases mem_commit_registry.mp hrow with ⟨hrow, -, -⟩ | hrow
    · exact h (List.mem_map_of_mem hrow)
    · exact hcompat.not_mem hlock (hother.inserted row hrow).2.1
  served ids hids := by
    have hout : ∀ sid ∈ ids, sid ∉ other.ended.map Session.id ∧ sid ∉ other.deleted :=
      fun sid hsid ↦ not_mem_of_locked hother hcompat (hids sid hsid)
    have hinserted : (other.inserted.toList.filter fun row ↦ row.sessionId ∈ ids) = [] := by
      refine List.filter_eq_nil_iff.mpr fun row hrow hsid ↦ ?_
      have hshared := (hother.inserted row (Option.mem_toList.mp hrow)).1
      exact hcompat.not_mem (hids _ (of_decide_eq_true hsid)) hshared
    simp only [Tables.commit, List.filter_append, hinserted, List.append_nil, List.filter_filter]
    refine List.filter_congr fun row _ ↦ ?_
    by_cases hsid : row.sessionId ∈ ids
    · obtain ⟨hended, hdeleted⟩ := hout _ hsid
      have hremoved : row ∉ other.removed := fun hrow ↦ hended (hother.removed row hrow)
      simp [hsid, hdeleted, hremoved]
    · simp [hsid]
  codes code' hcode' hused sid hsid hlock := by
    rcases mem_commit_codes.mp hcode' with ⟨code, hcode, rfl⟩ | hcode'
    · obtain ⟨hused, -, hsession, -⟩ := of_endCode_unused hused hsid
      exact ⟨code, hcode, rfl, hused, hsession⟩
    · exact absurd (hother.code code' hcode' sid hsid).1 (hcompat.not_mem hlock)

/-- What the last statement of a transaction leaves for its commit. -/
structure Txn.Complete (db : Tables) (txn : Txn) : Prop where
  removed : txn.removed = db.served txn
  spent : ∀ code ∈ db.codes, isUnspent txn code = true → code.id ∈ txn.spent

/-- A transaction that has ended no session has no registry row to delete and no code to spend. -/
theorem Txn.Complete.of_ended_eq_nil (hended : txn.ended = []) (hremoved : txn.removed = []) :
    txn.Complete db where
  removed := by
    rw [hremoved, Tables.served, hended]
    exact (List.filter_eq_nil_iff.mpr fun _ _ h ↦ by simp at h).symm
  spent code _ h := by
    simp [isUnspent, hended] at h

theorem TaskOk.complete {task : Task} (h : TaskOk db task)
    (hcomplete : task.program.complete = true) : task.txn.Complete db := by
  have hprogram := h.program
  unfold Program.complete at hcomplete
  split at hcomplete <;> rename_i hprog
  · rw [hprog] at hprogram
    exact .of_ended_eq_nil hprogram.ended hprogram.removed
  · rw [hprog] at hprogram
    refine ⟨hprogram.removed rfl, fun code hcode hunspent ↦ ?_⟩
    exact (hprogram.left [] rfl code hcode hunspent).resolve_left List.not_mem_nil
  · rw [hprog] at hprogram
    exact .of_ended_eq_nil hprogram.ended hprogram.removed
  · rw [hprog] at hprogram
    exact .of_ended_eq_nil hprogram.1.ended hprogram.1.removed
  · cases hcomplete

/-- The registry rows of the sessions that a transaction ends or deletes are gone with its commit,
and so are their unspent codes. -/
theorem Tables.Ok.commit (hdb : db.Ok) (htxn : txn.Ok db) (hcomplete : txn.Complete db) :
    (db.commit txn).Ok where
  ids := by
    have hmap : (db.sessions.map (endSession txn)).map Session.id = db.sessions.map Session.id := by
      rw [List.map_map]
      exact List.map_congr_left fun _ _ ↦ endSession_id
    have hnodup : ((db.sessions.map (endSession txn)).map Session.id).Nodup := by
      rw [hmap]
      exact hdb.ids
    exact hnodup.sublist (List.filter_sublist.map _)
  clientIds := hdb.clientIds
  registry row hrow := by
    rcases mem_commit_registry.mp hrow with ⟨hrow, hremoved, hdeleted⟩ | hinserted
    · obtain ⟨realmId, hunrevoked, hclient⟩ := hdb.registry row hrow
      refine ⟨realmId, hunrevoked.commit (fun hended ↦ hremoved ?_) hdeleted, hclient⟩
      rw [hcomplete.removed]
      exact List.mem_filter.mpr ⟨hrow, decide_eq_true hended⟩
    · obtain ⟨-, -, -, realmId, hunrevoked, hclient⟩ := htxn.inserted row hinserted
      obtain ⟨hended, hdeleted⟩ := htxn.inserts (.inl (by rw [hinserted]; exact nofun))
      exact ⟨realmId, hunrevoked.commit (by simp [hended]) (by simp [hdeleted]), hclient⟩
  codes code hcode hused sid hsid := by
    rcases mem_commit_codes.mp hcode with ⟨old, hold, rfl⟩ | hminted
    · obtain ⟨hused, hspent, hsession, hdeleted⟩ := of_endCode_unused hused hsid
      obtain ⟨realmId, hunrevoked⟩ := hdb.codes old hold hused sid hsession
      refine ⟨realmId, hunrevoked.commit (fun hended ↦ hspent ?_) hdeleted⟩
      refine hcomplete.spent old hold ?_
      simp only [isUnspent, decide_eq_true_eq]
      exact ⟨hused, sid, hsession, hended⟩
    · obtain ⟨-, realmId, hunrevoked⟩ := htxn.code code hminted sid hsid
      obtain ⟨hended, hdeleted⟩ := htxn.inserts (.inr (by rw [hminted]; exact nofun))
      exact ⟨realmId, hunrevoked.commit (by simp [hended]) (by simp [hdeleted])⟩

end Commit

/-! ### Statements -/

section Statements

variable {s : State} {db : Tables} {txn : Txn} {task : Task} {mint : Mint} {job : Revocation}

/-- More locks change nothing else. -/
theorem Txn.Ok.lock (h : txn.Ok db) (resource : Resource) (mode : Mode) :
    (txn.lock resource mode).Ok db where
  ended session hsession := by
    obtain ⟨hlock, hrest⟩ := h.ended session hsession
    exact ⟨List.mem_cons_of_mem _ hlock, hrest⟩
  endedIds := h.endedIds
  removed := h.removed
  deleted sid hsid := ⟨List.mem_cons_of_mem _ (h.deleted sid hsid).1, (h.deleted sid hsid).2⟩
  inserted row hrow := by
    obtain ⟨hsession, hkey, hrest⟩ := h.inserted row hrow
    exact ⟨List.mem_cons_of_mem _ hsession, List.mem_cons_of_mem _ hkey, hrest⟩
  code code hcode sid hsid := by
    obtain ⟨hsession, hrest⟩ := h.code code hcode sid hsid
    exact ⟨List.mem_cons_of_mem _ hsession, hrest⟩
  inserts := h.inserts

theorem of_isLive {now : ℕ} (h : db.isLive mint now = true) :
    db.Unrevoked mint.sessionId mint.realmId ∧ db.HasClient mint.realmId mint.oauthClientId := by
  obtain ⟨session, hsession, hlive⟩ := List.any_eq_true.mp h
  simp only [decide_eq_true_eq] at hlive
  obtain ⟨hrealm, hid, hrevoked, -, client, hclient, hclientId, hclientRealm⟩ := hlive
  exact ⟨⟨session, hsession, hid, hrealm, hrevoked⟩,
    ⟨client, hclient, hclientId, hclientRealm.trans hrealm⟩⟩

theorem taskOk_mintCall {stage : MintStage} (htxn : txn.Ok s.db) (h : MintOk s.db txn mint stage)
    (hcall : mintCall s txn mint stage = some task) : TaskOk s.db task := by
  unfold mintCall at hcall
  split at hcall
  · split_ifs at hcall <;> rw [← Option.some.inj hcall]
    · exact ⟨htxn, ⟨nofun, h.ended, h.removed, h.deleted, h.events, fun _ ↦ h.inserted (.inl rfl),
        fun _ ↦ h.code (.inl rfl)⟩⟩
    · exact .empty _
  · split_ifs at hcall with hlive <;> rw [← Option.some.inj hcall]
    · obtain ⟨hunrevoked, hclient⟩ := of_isLive hlive
      exact ⟨htxn.lock _ _, ⟨fun _ ↦ ⟨List.mem_cons_self, hunrevoked, hclient⟩, h.ended, h.removed,
        h.deleted, h.events, fun _ ↦ h.inserted (.inl rfl), fun _ ↦ h.code (.inl rfl)⟩⟩
    · exact .empty _
  · obtain ⟨hlock, hunrevoked, hclient⟩ := h.locked rfl
    have hok := htxn.lock (.registry (mint.sessionId, mint.oauthClientId)) .exclusive
    rw [← Option.some.inj hcall]
    refine ⟨{ hok with inserted := ?_, inserts := fun _ ↦ ⟨h.ended, h.deleted⟩ }, ?_⟩
    · intro row hrow
      simp only [Option.mem_def] at hrow
      split_ifs at hrow with hkey
      rw [← Option.some.inj hrow]
      exact ⟨List.mem_cons_of_mem _ hlock, List.mem_cons_self, hkey, mint.realmId, hunrevoked,
        hclient⟩
    · exact ⟨fun _ ↦ ⟨List.mem_cons_of_mem _ hlock, hunrevoked, hclient⟩, h.ended, h.removed,
        h.deleted, h.events, (by rintro (hstage | hstage) <;> cases hstage),
        fun _ ↦ h.code (.inr (.inl rfl))⟩
  · obtain ⟨hlock, hunrevoked, hclient⟩ := h.locked rfl
    have hok := htxn.lock (.code mint.code.id) .exclusive
    split_ifs at hcall
    rw [← Option.some.inj hcall]
    refine ⟨{ hok with code := ?_, inserts := fun _ ↦ ⟨h.ended, h.deleted⟩ }, ?_⟩
    · intro code hcode sid hsid
      rw [← Option.some.inj hcode] at hsid
      rw [← Option.some.inj hsid]
      exact ⟨List.mem_cons_of_mem _ hlock, mint.realmId, hunrevoked⟩
    · exact ⟨fun _ ↦ ⟨List.mem_cons_of_mem _ hlock, hunrevoked, hclient⟩, h.ended, h.removed,
        h.deleted, h.events, (by rintro (hstage | hstage) <;> cases hstage),
        (by rintro (hstage | hstage | hstage) <;> cases hstage)⟩
  · cases hcall

theorem update_eq_some {endedAt : ℕ} {reason : SessionRevokedReason} {selection : Selection}
    {session ended : Session} (h : selection.update db endedAt reason session = some ended) :
    ended.id = session.id ∧ ended.realmId = session.realmId ∧ ended.revokedAt ≠ none := by
  unfold Selection.update at h
  split at h
  · obtain ⟨realm, -, h⟩ := Option.bind_eq_some_iff.mp h
    split_ifs at h
    rw [← Option.some.inj h]
    exact ⟨rfl, rfl, nofun⟩
  · rw [← Option.some.inj h]
    exact ⟨rfl, rfl, nofun⟩

theorem of_mem_updateLocked {locked : List Uuid} {ended : Session}
    (h : ended ∈ db.updateLocked job locked) :
    ended.id ∈ locked ∧ db.Unrevoked ended.id ended.realmId ∧ ended.revokedAt ≠ none := by
  obtain ⟨session, hsession, h⟩ := List.mem_filterMap.mp h
  split_ifs at h with hguard
  obtain ⟨hid, hrealm, hended⟩ := update_eq_some h
  refine ⟨hid ▸ hguard.1, ⟨session, hsession, hid.symm, hrealm.symm, hguard.2⟩, hended⟩

theorem nodup_updateLocked (hdb : db.Ok) {locked : List Uuid} :
    ((db.updateLocked job locked).map Session.id).Nodup := by
  refine hdb.ids.sublist (sublist_map_filterMap fun session ended h ↦ ?_)
  split_ifs at h
  exact (update_eq_some h).1

theorem clientDetail_eq_some (hdb : db.Ok) (htxn : txn.Ok db) {row : SessionClient}
    (hrow : row ∈ db.served txn) :
    ∃ client, clientDetail db.clients txn.ended row = some client ∧ client.key = row.key := by
  obtain ⟨hrow, hended⟩ := List.mem_filter.mp hrow
  obtain ⟨realmId, hunrevoked, client, hclient, hclientId, hclientRealm⟩ := hdb.registry row hrow
  obtain ⟨session, hsession, hid⟩ := List.mem_map.mp (of_decide_eq_true hended)
  have hfindClient : ∃ found, db.clients.find? (·.id = row.oauthClientId) = some found ∧
      found.realmId = realmId := by
    obtain ⟨found, hfound⟩ := Option.isSome_iff_exists.mp
      (List.find?_isSome (p := (·.id = row.oauthClientId)).mpr ⟨client, hclient, by simpa⟩)
    have hfoundId : found.id = row.oauthClientId := by simpa using List.find?_some hfound
    refine ⟨found, hfound, ?_⟩
    rw [eq_of_key_eq hdb.clientIds (List.mem_of_find?_eq_some hfound) hclient
      (hfoundId.trans hclientId.symm), hclientRealm]
  have hfindSession : ∃ found, txn.ended.find? (·.id = row.sessionId) = some found ∧
      found.realmId = realmId := by
    obtain ⟨found, hfound⟩ := Option.isSome_iff_exists.mp
      (List.find?_isSome (p := (·.id = row.sessionId)).mpr ⟨session, hsession, by simpa⟩)
    have hfoundId : found.id = row.sessionId := by simpa using List.find?_some hfound
    obtain ⟨-, ⟨a, ha, haId, haRealm, -⟩, -⟩ := htxn.ended found (List.mem_of_find?_eq_some hfound)
    obtain ⟨b, hb, hbId, hbRealm, -⟩ := hunrevoked
    refine ⟨found, hfound, ?_⟩
    rw [← haRealm, ← hbRealm, eq_of_key_eq hdb.ids ha hb (by rw [haId, hbId, hfoundId])]
  obtain ⟨c, hc, hcRealm⟩ := hfindClient
  obtain ⟨e, he, heRealm⟩ := hfindSession
  refine ⟨⟨⟨row, c.clientId, c.name⟩, c.backchannelLogoutUri.isSome⟩, ?_, rfl⟩
  rw [clientDetail, hc, he]
  simp [hcRealm, heRealm]

/-- The details are those of the rows that were deleted. -/
theorem withClientDetails_perm (hdb : db.Ok) (htxn : txn.Ok db) {rows : List SessionClient}
    (hrows : ∀ row ∈ rows, row ∈ db.served txn) :
    ((withClientDetails db.clients txn.ended rows).map ClientDetailWithLogout.key).Perm
      (rows.map SessionClient.key) := by
  have hkeys : (rows.filterMap (clientDetail db.clients txn.ended)).map ClientDetailWithLogout.key =
      rows.map SessionClient.key := by
    induction rows with
    | nil => rfl
    | cons row rows ih =>
      obtain ⟨client, hclient, hkey⟩ := clientDetail_eq_some hdb htxn (hrows row List.mem_cons_self)
      rw [List.filterMap_cons, hclient, List.map_cons, List.map_cons, hkey,
        ih fun row hrow ↦ hrows row (List.mem_cons_of_mem _ hrow)]
  rw [← hkeys]
  exact perm_orderBy.map _

/-- The update of a revocation, whichever rows it has locked. -/
theorem taskOk_update {locked : List Uuid} (hdb : db.Ok) (htxn : txn.Ok db) {stage : RevokeStage}
    (hlocked : ∀ sid ∈ locked, (.session sid, .exclusive) ∈ txn.locks)
    (h : RevokeOk db txn stage) (hstage : stage.past = false) :
    TaskOk db ⟨{ txn with ended := db.updateLocked job locked }, .revoking job .updated⟩ := by
  have hremoved : txn.removed = [] := h.unremoved hstage
  refine ⟨{ htxn with
    ended := fun session hsession ↦ ?_
    endedIds := nodup_updateLocked hdb
    removed := fun row hrow ↦ ?_
    inserts := fun hinserts ↦ ?_ }, ?_⟩
  · obtain ⟨hid, hunrevoked, hrevoked⟩ := of_mem_updateLocked hsession
    exact ⟨hlocked _ hid, hunrevoked, hrevoked⟩
  · simp only [hremoved] at hrow
    cases hrow
  · simp only [h.inserted, h.code] at hinserts
    exact absurd hinserts (by simp)
  · refine ⟨h.inserted, h.code, h.deleted, nofun, nofun, fun _ ↦ hremoved, nofun, nofun, nofun, ?_⟩
    · have hevents := h.events
      cases stage with
      | begun => exact hevents
      | locking todo locked => exact hevents
      | updated => exact hevents
      | removed => cases hstage
      | detailed clients => cases hstage
      | spending clients todo => cases hstage
      | finished clients => cases hstage

theorem taskOk_revokeCall {stage : RevokeStage} (hdb : s.db.Ok) (htxn : txn.Ok s.db)
    (h : RevokeOk s.db txn stage) (hcall : revokeCall s txn job stage = some task) :
    TaskOk s.db task := by
  have hnone : ∀ {P : Prop}, txn.inserted ≠ none ∨ txn.code ≠ none → P := fun hinserts ↦
    (hinserts.elim (absurd h.inserted) (absurd h.code))
  unfold revokeCall at hcall
  split at hcall
  · rw [← Option.some.inj hcall]
    have hended := h.ended rfl
    refine ⟨htxn, ⟨h.inserted, h.code, h.deleted, ?_, fun _ ↦ hended, fun _ ↦ h.unremoved rfl, nofun,
      nofun, nofun, h.events⟩⟩
    intro todo locked hstage sid hsid
    cases hstage
    cases hsid
  · split at hcall
    · rename_i sid todo
      split_ifs at hcall with hlimit
      · rw [← Option.some.inj hcall]
        exact taskOk_update hdb htxn (h.locked _ _ rfl) h rfl
      · rw [← Option.some.inj hcall]
        refine ⟨htxn.lock _ _, ⟨h.inserted, h.code, h.deleted, ?_,
          fun _ ↦ h.ended rfl, fun _ ↦ h.unremoved rfl, nofun, nofun, nofun,
          h.events⟩⟩
        intro todo' locked' hstage sid' hsid'
        cases hstage
        rw [Txn.mem_locks_lock]
        split_ifs at hsid'
        · rcases List.mem_append.mp hsid' with hold | hnew
          · exact .inr (h.locked _ _ rfl sid' hold)
          · rw [List.mem_singleton.mp hnew]
            exact .inl rfl
        · exact .inr (h.locked _ _ rfl sid' hsid')
    · rw [← Option.some.inj hcall]
      exact taskOk_update hdb htxn (h.locked _ _ rfl) h rfl
  · split_ifs at hcall with hended <;> rw [← Option.some.inj hcall]
    · have hremoved := h.unremoved rfl
      have hcomplete : txn.Complete s.db := .of_ended_eq_nil hended hremoved
      refine ⟨htxn, ⟨h.inserted, h.code, h.deleted, nofun, nofun, nofun,
        fun _ ↦ hcomplete.removed, fun clients hclients ↦ ?_,
        fun todo hleft code hcode hunspent ↦ .inr (hcomplete.spent code hcode hunspent), ?_⟩⟩
      · rw [← Option.some.inj hclients, hremoved]
        exact .nil
      · rw [h.events]
        simp [RevokeStage.notices, endings, orderBy, hended]
    · refine ⟨{ htxn with removed := fun row hrow ↦ ?_, inserts := fun hinserts ↦ hnone hinserts },
        ⟨h.inserted, h.code, h.deleted, nofun, nofun, nofun, fun _ ↦ rfl, nofun, nofun, h.events⟩⟩
      · exact of_decide_eq_true (List.mem_filter.mp hrow).2
  · rw [← Option.some.inj hcall]
    have hremoved := h.removed rfl
    refine ⟨htxn, ⟨h.inserted, h.code, h.deleted, nofun, nofun, nofun, fun _ ↦ hremoved,
      fun clients hclients ↦ ?_, nofun, h.events⟩⟩
    · rw [← Option.some.inj hclients]
      refine withClientDetails_perm hdb htxn fun row hrow ↦ ?_
      rwa [← hremoved]
  · rename_i clients
    rw [← Option.some.inj hcall]
    refine ⟨htxn, ⟨h.inserted, h.code, h.deleted, nofun, nofun, nofun, fun _ ↦ h.removed rfl,
      h.clients, fun todo hleft code hcode hunspent ↦ .inl ?_, h.events⟩⟩
    · rw [← Option.some.inj hleft]
      exact List.mem_map_of_mem (List.mem_filter.mpr ⟨hcode, hunspent⟩)
  · rename_i clients id todo
    rw [← Option.some.inj hcall]
    have hok := htxn.lock (.code id) .exclusive
    refine ⟨{ hok with inserts := fun hinserts ↦ hnone hinserts },
      ⟨h.inserted, h.code, h.deleted, nofun, nofun, nofun, fun _ ↦ h.removed rfl, h.clients,
        fun todo' hleft code hcode hunspent ↦ ?_, h.events⟩⟩
    · rw [← Option.some.inj hleft]
      have hunspent' : isUnspent txn code = true := hunspent
      rcases h.left _ rfl code hcode hunspent' with htodo | hspent
      · rcases List.mem_cons.mp htodo with hid | htodo
        · right
          have hany : (s.db.codes.any fun code ↦ code.id = id ∧ isUnspent txn code = true) = true :=
            List.any_eq_true.mpr ⟨code, hcode, decide_eq_true ⟨hid, hunspent'⟩⟩
          simp only [hany, if_true]
          rw [hid]
          exact List.mem_cons_self
        · exact .inl htodo
      · right
        show code.id ∈ if _ then _ else _
        split_ifs
        · exact List.mem_cons_of_mem _ hspent
        · exact hspent
  · rename_i clients
    rw [← Option.some.inj hcall]
    refine ⟨{ htxn with inserts := fun hinserts ↦ hnone hinserts },
      ⟨h.inserted, h.code, h.deleted, nofun, nofun, nofun, fun _ ↦ h.removed rfl, h.clients,
        fun todo hleft code hcode hunspent ↦ ?_, rfl⟩⟩
    · rw [← Option.some.inj hleft]
      exact h.left [] rfl code hcode hunspent
  · cases hcall

theorem taskOk_deleteCall {before : ℕ} {stage : DeleteStage} (htxn : txn.Ok s.db)
    (h : DeleteOk txn) (hcall : deleteCall s txn before stage = some task) :
    TaskOk s.db task := by
  unfold deleteCall at hcall
  split at hcall
  · rw [← Option.some.inj hcall]
    exact ⟨htxn, h⟩
  · rw [← Option.some.inj hcall]
    exact ⟨htxn, h⟩
  · rename_i sid todo
    rw [← Option.some.inj hcall]
    have hok := htxn.lock (.session sid) .exclusive
    refine ⟨{ hok with deleted := ?_, inserts := ?_ }, ⟨h.ended, h.removed, h.inserted, h.code,
      h.events⟩⟩
    · intro sid' hsid'
      simp only at hsid'
      split_ifs at hsid' with hany
      · rcases List.mem_cons.mp hsid' with rfl | hsid'
        · refine ⟨List.mem_cons_self, ?_⟩
          obtain ⟨session, hsession, hended⟩ := List.any_eq_true.mp hany
          simp only [decide_eq_true_eq] at hended
          refine ⟨session, hsession, hended.1, fun hnone ↦ ?_⟩
          simp [Session.endedBefore, hnone] at hended
        · exact hok.deleted sid' hsid'
      · exact hok.deleted sid' hsid'
    · rintro (hinserted | hcode)
      · exact absurd h.inserted hinserted
      · exact absurd h.code hcode
  · cases hcall

/-- Each statement of a task establishes what the next ones rely on. -/
theorem TaskOk.call {task' : Task} (hdb : s.db.Ok) (h : TaskOk s.db task)
    (hcall : task.call s = some task') : TaskOk s.db task' := by
  obtain ⟨htxn, hprogram⟩ := h
  unfold Task.call at hcall
  split at hcall <;> rename_i hprog
  · rw [hprog] at hprogram
    exact taskOk_mintCall htxn hprogram hcall
  · rw [hprog] at hprogram
    exact taskOk_revokeCall hdb htxn hprogram hcall
  · rw [hprog] at hprogram
    exact taskOk_deleteCall htxn hprogram hcall
  · rename_i codeId
    rw [hprog] at hprogram
    rw [← Option.some.inj hcall]
    have hok := htxn.lock (.code codeId) .exclusive
    obtain ⟨hdelete, hdeleted⟩ := hprogram
    exact ⟨{ hok with }, ⟨hdelete.ended, hdelete.removed, hdelete.inserted, hdelete.code,
      hdelete.events⟩, hdeleted⟩
  · cases hcall
  · cases hcall

end Statements

end QAuth.Sessions
