import QAuth.Sessions.Invariant

/-!
# Every session ends once

Whatever the order in which clients are recorded, sessions are revoked (one, a user's, a realm's or
the lapsed ones), ended sessions are deleted and codes are spent: a session is ended by one
revocation, that revocation deletes and returns every registry row the session ever had, and writes
one event for each client of them that has a logout URI; afterwards no registry row and no unspent
code of the session is committed.
-/

namespace QAuth.Sessions

open QAuth.Token Locks Table Transition

/-! ### Invariants -/

/-- The keys of the registry rows that were returned with a session. -/
def Ending.keys (ending : Ending) : List (Uuid × Uuid) :=
  ending.clients.map ClientDetailWithLogout.key

/-- What holds of the committed rows and the tasks. -/
structure Inv (s : State) : Prop where
  db : s.db.Ok
  apart : Apart Task.held s.tasks
  tasks : ∀ (i : ℕ) task, s.tasks[i]? = some task → TaskOk s.db task
  created : ∀ session ∈ s.db.sessions, session.id ∈ s.created

/-- What holds of the sessions that were ended and the rows that were recorded. -/
structure History (s : State) : Prop where
  endedIds : (s.endings.map (·.session.id)).Nodup
  created : ∀ ending ∈ s.endings, ending.session.id ∈ s.created
  revoked : ∀ ending ∈ s.endings, ending.session.revokedAt ≠ none
  rows : ∀ ending ∈ s.endings, ∀ session ∈ s.db.sessions, session.id = ending.session.id →
    session.revokedAt = ending.session.revokedAt ∧
      session.revokedReason = ending.session.revokedReason
  ended : ∀ session ∈ s.db.sessions, session.revokedAt ≠ none →
    ∃ ending ∈ s.endings, ending.session.id = session.id
  own : ∀ ending ∈ s.endings, ∀ key ∈ ending.keys, key.1 = ending.session.id
  recorded : s.recorded.Perm (s.db.registry.map SessionClient.key ++ s.endings.flatMap Ending.keys)
  nodup : s.recorded.Nodup
  events : s.db.events = s.endings.flatMap Ending.notices

theorem History.not_ended {s : State} (h : History s) {sid realmId : Uuid}
    (hunrevoked : s.db.Unrevoked sid realmId) : sid ∉ s.endings.map (·.session.id) := by
  intro hmem
  obtain ⟨ending, hending, hid⟩ := List.mem_map.mp hmem
  obtain ⟨session, hsession, hid', -, hnone⟩ := hunrevoked
  obtain ⟨hrevokedAt, -⟩ := h.rows ending hending session hsession (hid'.trans hid.symm)
  exact h.revoked ending hending (hrevokedAt.symm.trans hnone)

/-! ### Changes that concern no ending -/

/-- Two rows of one session that agree on its end. -/
structure SameEnd (old new : Session) : Prop where
  id : new.id = old.id
  realmId : new.realmId = old.realmId
  revokedAt : new.revokedAt = old.revokedAt
  revokedReason : new.revokedReason = old.revokedReason

theorem SameEnd.refl (session : Session) : SameEnd session session := ⟨rfl, rfl, rfl, rfl⟩

/-- A change of the tables that ends, creates and deletes no session, and records no client. -/
structure Alike (db db' : Tables) : Prop where
  ids : db'.sessions.map Session.id = db.sessions.map Session.id
  forth : ∀ old ∈ db.sessions, ∃ new ∈ db'.sessions, SameEnd old new
  back : ∀ new ∈ db'.sessions, ∃ old ∈ db.sessions, SameEnd old new
  clientIds : (db.clients.map OAuthClient.id).Nodup → (db'.clients.map OAuthClient.id).Nodup
  client : ∀ realmId oauthClientId, db.HasClient realmId oauthClientId →
    db'.HasClient realmId oauthClientId
  registry : db'.registry = db.registry
  codes : ∀ code ∈ db'.codes, code ∈ db.codes ∨ code.sessionId = none
  events : db'.events = db.events

section Alike

variable {s : State} {db db' : Tables}

theorem Alike.of_sessions (hsessions : db'.sessions = db.sessions)
    (hclientIds : (db.clients.map OAuthClient.id).Nodup → (db'.clients.map OAuthClient.id).Nodup)
    (hclient : ∀ realmId oauthClientId, db.HasClient realmId oauthClientId →
      db'.HasClient realmId oauthClientId)
    (hregistry : db'.registry = db.registry)
    (hcodes : ∀ code ∈ db'.codes, code ∈ db.codes ∨ code.sessionId = none)
    (hevents : db'.events = db.events) : Alike db db' where
  ids := by rw [hsessions]
  forth old hold := ⟨old, by rwa [hsessions], .refl old⟩
  back new hnew := ⟨new, by rwa [← hsessions], .refl new⟩
  clientIds := hclientIds
  client := hclient
  registry := hregistry
  codes := hcodes
  events := hevents

theorem Alike.unrevoked (h : Alike db db') {sid realmId : Uuid}
    (hunrevoked : db.Unrevoked sid realmId) : db'.Unrevoked sid realmId := by
  obtain ⟨old, hold, rfl, rfl, hnone⟩ := hunrevoked
  obtain ⟨new, hnew, hsame⟩ := h.forth old hold
  exact ⟨new, hnew, hsame.id, hsame.realmId, hsame.revokedAt.trans hnone⟩

theorem Alike.keeps (h : Alike db db') (locks : List (Resource × Mode)) : Keeps db db' locks where
  unrevoked _ _ _ _ hunrevoked := h.unrevoked hunrevoked
  revoked sid _ hrevoked := by
    obtain ⟨old, hold, rfl, hsome⟩ := hrevoked
    obtain ⟨new, hnew, hsame⟩ := h.forth old hold
    exact ⟨new, hnew, hsame.id, by rwa [hsame.revokedAt]⟩
  client := h.client
  fresh key _ hfresh := by rwa [h.registry]
  served _ _ := by rw [h.registry]
  codes code hcode hused sid hsid _ := by
    rcases h.codes code hcode with hcode | hnone
    · exact ⟨code, hcode, rfl, hused, hsid⟩
    · rw [hnone] at hsid
      cases hsid

theorem Alike.ok (h : Alike db db') (hdb : db.Ok) : db'.Ok where
  ids := by
    rw [h.ids]
    exact hdb.ids
  clientIds := h.clientIds hdb.clientIds
  registry row hrow := by
    rw [h.registry] at hrow
    obtain ⟨realmId, hunrevoked, hclient⟩ := hdb.registry row hrow
    exact ⟨realmId, h.unrevoked hunrevoked, h.client _ _ hclient⟩
  codes code hcode hused sid hsid := by
    rcases h.codes code hcode with hcode | hnone
    · obtain ⟨realmId, hunrevoked⟩ := hdb.codes code hcode hused sid hsid
      exact ⟨realmId, h.unrevoked hunrevoked⟩
    · rw [hnone] at hsid
      cases hsid

theorem Alike.inv (h : Alike s.db db) (hs : Inv s) : Inv { s with db := db } where
  db := h.ok hs.db
  apart := hs.apart
  tasks i task hmem := (hs.tasks i task hmem).keep (h.keeps _)
  created session hsession := by
    obtain ⟨old, hold, hsame⟩ := h.back session hsession
    rw [hsame.id]
    exact hs.created old hold

theorem Alike.history (h : Alike s.db db) (hs : History s) : History { s with db := db } where
  endedIds := hs.endedIds
  created := hs.created
  revoked := hs.revoked
  rows ending hending session hsession hid := by
    obtain ⟨old, hold, hsame⟩ := h.back session hsession
    rw [hsame.revokedAt, hsame.revokedReason]
    exact hs.rows ending hending old hold (hsame.id.symm.trans hid)
  ended session hsession hrevoked := by
    obtain ⟨old, hold, hsame⟩ := h.back session hsession
    rw [hsame.revokedAt] at hrevoked
    rw [hsame.id]
    exact hs.ended old hold hrevoked
  own := hs.own
  recorded := by
    rw [h.registry]
    exact hs.recorded
  nodup := hs.nodup
  events := h.events.trans hs.events

/-- Writing a logout URI changes no client's id or realm. -/
theorem alike_setLogoutUri {id : Uuid} {uri : Option String} :
    Alike db { db with clients := setLogoutUri id uri db.clients } := by
  refine .of_sessions rfl (fun hnodup ↦ ?_) ?_ rfl (fun _ hcode ↦ .inl hcode) rfl
  · have hids : (setLogoutUri id uri db.clients).map OAuthClient.id =
        db.clients.map OAuthClient.id := map_updateWhere fun _ ↦ rfl
    rwa [hids]
  · rintro realmId oauthClientId ⟨client, hclient, hid, hrealm⟩
    by_cases heq : client.id = id
    · exact ⟨_, mem_updateWhere_of_true hclient (decide_eq_true heq), hid, hrealm⟩
    · exact ⟨client, mem_updateWhere_of_false hclient (decide_eq_false heq), hid, hrealm⟩

theorem alike_register {client : OAuthClient} (hfresh : ∀ other ∈ db.clients, other.id ≠ client.id) :
    Alike db { db with clients := db.clients ++ [client] } := by
  refine .of_sessions rfl (fun hnodup ↦ ?_) ?_ rfl (fun _ hcode ↦ .inl hcode) rfl
  · rw [List.map_append, List.nodup_append]
    refine ⟨hnodup, List.nodup_singleton _, ?_⟩
    rintro _ hx _ hy rfl
    obtain ⟨other, hother, hid⟩ := List.mem_map.mp hx
    exact hfresh other hother (hid.trans (List.mem_singleton.mp hy))
  · rintro realmId oauthClientId ⟨other, hother, hrest⟩
    exact ⟨other, List.mem_append_left _ hother, hrest⟩

/-- `updateLastSeen` changes no session's end. -/
theorem alike_updateLastSeen {realmId id : Uuid} {now minIntervalMs : ℕ} :
    Alike db { db with sessions := updateLastSeen realmId id now minIntervalMs db.sessions } where
  ids := map_updateWhere fun _ ↦ rfl
  forth old hold := by
    cases hseen : old.isSeen realmId id now minIntervalMs with
    | false => exact ⟨old, mem_updateWhere_of_false hold hseen, .refl old⟩
    | true => exact ⟨_, mem_updateWhere_of_true hold hseen, rfl, rfl, rfl, rfl⟩
  back new hnew := by
    rcases mem_updateWhere_cases hnew with ⟨hold, -⟩ | ⟨old, hold, -, rfl⟩
    · exact ⟨new, hold, .refl new⟩
    · exact ⟨old, hold, rfl, rfl, rfl, rfl⟩
  clientIds h := h
  client _ _ h := h
  registry := rfl
  codes _ h := .inl h
  events := rfl

end Alike

/-! ### A new session -/

section Create

variable {s : State} {session : Session}

theorem Tables.Unrevoked.append {db : Tables} {sid realmId : Uuid} (h : db.Unrevoked sid realmId) :
    Tables.Unrevoked { db with sessions := db.sessions ++ [session] } sid realmId := by
  obtain ⟨old, hold, hrest⟩ := h
  exact ⟨old, List.mem_append_left _ hold, hrest⟩

theorem Inv.create (hs : Inv s) (hfresh : session.id ∉ s.created) :
    Inv { s with
      db := { s.db with sessions := s.db.sessions ++ [session] }
      created := session.id :: s.created } where
  db := {
    ids := by
      rw [List.map_append, List.nodup_append]
      refine ⟨hs.db.ids, List.nodup_singleton _, ?_⟩
      rintro _ hx _ hy rfl
      obtain ⟨old, hold, hid⟩ := List.mem_map.mp hx
      rw [← List.mem_singleton.mp hy, ← hid] at hfresh
      exact hfresh (hs.created old hold)
    clientIds := hs.db.clientIds
    registry := fun row hrow ↦ by
      obtain ⟨realmId, hunrevoked, hclient⟩ := hs.db.registry row hrow
      exact ⟨realmId, hunrevoked.append, hclient⟩
    codes := fun code hcode hused sid hsid ↦ by
      obtain ⟨realmId, hunrevoked⟩ := hs.db.codes code hcode hused sid hsid
      exact ⟨realmId, hunrevoked.append⟩ }
  apart := hs.apart
  tasks i task hmem := by
    refine (hs.tasks i task hmem).keep ⟨fun _ _ _ _ h ↦ h.append, ?_, fun _ _ h ↦ h,
      fun _ _ h ↦ h, fun _ _ ↦ rfl, fun code hcode hused sid hsid _ ↦ ⟨code, hcode, rfl, hused, hsid⟩⟩
    rintro sid - ⟨old, hold, hrest⟩
    exact ⟨old, List.mem_append_left _ hold, hrest⟩
  created old hold := by
    rcases List.mem_append.mp hold with hold | hnew
    · exact List.mem_cons_of_mem _ (hs.created old hold)
    · rw [List.mem_singleton.mp hnew]
      exact List.mem_cons_self

theorem History.create (h : History s) (hfresh : session.id ∉ s.created)
    (hrevoked : session.revokedAt = none) :
    History { s with
      db := { s.db with sessions := s.db.sessions ++ [session] }
      created := session.id :: s.created } where
  endedIds := h.endedIds
  created ending hending := List.mem_cons_of_mem _ (h.created ending hending)
  revoked := h.revoked
  rows ending hending old hold hid := by
    rcases List.mem_append.mp hold with hold | hnew
    · exact h.rows ending hending old hold hid
    · rw [List.mem_singleton.mp hnew] at hid
      rw [hid] at hfresh
      exact absurd (h.created ending hending) hfresh
  ended old hold hsome := by
    rcases List.mem_append.mp hold with hold | hnew
    · exact h.ended old hold hsome
    · rw [List.mem_singleton.mp hnew] at hsome
      exact absurd hrevoked hsome
  own := h.own
  recorded := h.recorded
  nodup := h.nodup
  events := h.events

end Create

/-! ### Commits -/

/-- What the endings that a task commits are of what its transaction has written. -/
structure Closes (txn : Txn) (news : List Ending) : Prop where
  ids : (news.map (·.session.id)).Perm (txn.ended.map Session.id)
  mem : ∀ ending ∈ news, ending.session ∈ txn.ended
  exists_mem : ∀ session ∈ txn.ended, ∃ ending ∈ news, ending.session = session
  own : ∀ ending ∈ news, ∀ key ∈ ending.keys, key.1 = ending.session.id
  keys : (news.flatMap Ending.keys).Perm (txn.removed.map SessionClient.key)
  events : txn.events = news.flatMap Ending.notices

section Closes

variable {db : Tables} {txn : Txn} {clients : List ClientDetailWithLogout}

theorem Closes.nil (hended : txn.ended = []) (hremoved : txn.removed = [])
    (hevents : txn.events = []) : Closes txn [] where
  ids := by rw [hended]; exact .nil
  mem _ h := nomatch h
  exists_mem session h := by
    rw [hended] at h
    cases h
  own _ h := nomatch h
  keys := by rw [hremoved]; exact .nil
  events := hevents

/-- Each registry row that was deleted is returned with its own session. -/
theorem keys_endings_perm (htxn : txn.Ok db) (hclients :
      (clients.map ClientDetailWithLogout.key).Perm (txn.removed.map SessionClient.key)) :
    ((endings txn.ended clients).flatMap Ending.keys).Perm
      (txn.removed.map SessionClient.key) := by
  have hkeys : (endings txn.ended clients).flatMap Ending.keys =
      (((orderBy Session.id txn.ended).map Session.id).flatMap fun sid ↦
        clients.filter fun client ↦ client.detail.sessionId = sid).map
          ClientDetailWithLogout.key := by
    rw [endings, List.flatMap_map, List.flatMap_map, List.map_flatMap]
    rfl
  rw [hkeys]
  refine List.Perm.trans (.map _ (perm_flatMap_filter ?_ fun client hclient ↦ ?_)) hclients
  · exact (perm_orderBy.map _).nodup_iff.mpr htxn.endedIds
  · have hkey := hclients.subset (List.mem_map_of_mem hclient)
    obtain ⟨row, hrow, heq⟩ := List.mem_map.mp hkey
    have hsid : row.sessionId = client.detail.sessionId := congrArg Prod.fst heq
    rw [(perm_orderBy.map _).mem_iff, ← hsid]
    exact htxn.removed row hrow

theorem closes_endings (htxn : txn.Ok db) (hclients :
      (clients.map ClientDetailWithLogout.key).Perm (txn.removed.map SessionClient.key))
    (hevents : txn.events = (endings txn.ended clients).flatMap Ending.notices) :
    Closes txn (endings txn.ended clients) where
  ids := by
    rw [endings, List.map_map]
    exact perm_orderBy.map _
  mem ending hending := by
    obtain ⟨session, hsession, rfl⟩ := List.mem_map.mp hending
    exact mem_orderBy.mp hsession
  exists_mem session hsession :=
    ⟨_, List.mem_map_of_mem (mem_orderBy.mpr hsession), rfl⟩
  own ending hending key hkey := by
    obtain ⟨session, -, rfl⟩ := List.mem_map.mp hending
    obtain ⟨client, hclient, rfl⟩ := List.mem_map.mp hkey
    exact of_decide_eq_true (List.mem_filter.mp hclient).2
  keys := keys_endings_perm htxn hclients
  events := hevents

theorem TaskOk.closes {task : Task} (h : TaskOk db task)
    (hcomplete : task.program.complete = true) : Closes task.txn task.endings := by
  have hprogram := h.program
  unfold Task.endings
  split
  · rename_i job clients hprog
    rw [hprog] at hprogram
    exact closes_endings h.txn (hprogram.clients clients rfl) hprogram.events
  · rename_i hnot
    unfold Program.complete at hcomplete
    split at hcomplete <;> rename_i hprog
    · rw [hprog] at hprogram
      exact .nil hprogram.ended hprogram.removed hprogram.events
    · exact absurd hprog (hnot _ _)
    · rw [hprog] at hprogram
      exact .nil hprogram.ended hprogram.removed hprogram.events
    · rw [hprog] at hprogram
      exact .nil hprogram.1.ended hprogram.1.removed hprogram.1.events
    · cases hcomplete

end Closes

section Commit

variable {s : State} {i : ℕ} {task : Task}

theorem Inv.commit (hs : Inv s) (hmem : s.tasks[i]? = some task)
    (hcomplete : task.program.complete = true) {recorded : List (Uuid × Uuid)}
    {ends : List Ending} :
    Inv { s with
      db := s.db.commit task.txn
      tasks := s.tasks.set i ⟨.empty, .ended⟩
      recorded := recorded
      endings := ends } where
  db := hs.db.commit (hs.tasks i task hmem).txn ((hs.tasks i task hmem).complete hcomplete)
  apart := hs.apart.set (hs.apart.grants_of_subset hmem fun _ h ↦ nomatch h)
  tasks j other hother := by
    rcases getElem?_set_cases hother with ⟨-, rfl⟩ | ⟨hji, hj⟩
    · exact .empty _
    · exact (hs.tasks j other hj).keep
        (.commit (hs.apart.compatible hji hj hmem) (hs.tasks i task hmem).txn)
  created session hsession := by
    obtain ⟨old, hold, rfl, -⟩ := mem_commit_sessions.mp hsession
    rw [endSession_id]
    exact hs.created old hold

/-- The registry rows that a commit leaves, with those it deletes, are the ones there were and the
one it inserts. -/
theorem registry_commit_perm {db : Tables} {txn : Txn} (hdb : db.Ok) (htxn : txn.Ok db)
    (hcomplete : txn.Complete db) :
    ((db.commit txn).registry ++ txn.removed).Perm (db.registry ++ txn.inserted.toList) := by
  have hkept : (db.registry.filter fun row ↦
        !txn.removed.contains row && !txn.deleted.contains row.sessionId) =
      db.registry.filter fun row ↦ !decide (row.sessionId ∈ txn.ended.map Session.id) := by
    refine List.filter_congr fun row hrow ↦ ?_
    obtain ⟨realmId, hunrevoked, -⟩ := hdb.registry row hrow
    have hdeleted : row.sessionId ∉ txn.deleted := fun hdeleted ↦
      hdb.not_revoked hunrevoked (htxn.deleted _ hdeleted).2
    have hremoved : row ∈ txn.removed ↔ row.sessionId ∈ txn.ended.map Session.id := by
      rw [hcomplete.removed]
      simp [Tables.served, hrow]
    simp only [List.contains_eq_mem, hdeleted, hremoved, decide_false, Bool.not_false,
      Bool.and_true]
  have hsplit : ((db.registry.filter fun row ↦
        !decide (row.sessionId ∈ txn.ended.map Session.id)) ++ txn.removed).Perm db.registry := by
    rw [hcomplete.removed]
    exact List.perm_append_comm.trans (List.filter_append_perm _ _)
  show ((db.registry.filter _ ++ txn.inserted.toList) ++ txn.removed).Perm _
  rw [hkept, List.append_assoc]
  refine (List.Perm.append_left _ List.perm_append_comm).trans ?_
  rw [← List.append_assoc]
  exact hsplit.append_right _

theorem History.commit (h : History s) (hs : Inv s) (hmem : s.tasks[i]? = some task)
    (hcomplete : task.program.complete = true) :
    History { s with
      db := s.db.commit task.txn
      tasks := s.tasks.set i ⟨.empty, .ended⟩
      recorded := s.recorded ++ task.txn.inserted.toList.map SessionClient.key
      endings := s.endings ++ task.endings } := by
  have htask := hs.tasks i task hmem
  have hcloses := htask.closes hcomplete
  have hnew : ∀ ending ∈ task.endings, ending.session.id ∉ s.endings.map (·.session.id) :=
    fun ending hending ↦ h.not_ended (htask.txn.ended _ (hcloses.mem ending hending)).2.1
  have hunended : ∀ sid ∈ s.endings.map (·.session.id), sid ∉ task.txn.ended.map Session.id := by
    intro sid hold hended
    obtain ⟨session, hsession, rfl⟩ := List.mem_map.mp hended
    exact h.not_ended (htask.txn.ended session hsession).2.1 hold
  refine ⟨?_, ?_, ?_, ?_, ?_, ?_, ?_, ?_, ?_⟩
  · rw [List.map_append, List.nodup_append]
    refine ⟨h.endedIds, hcloses.ids.nodup_iff.mpr htask.txn.endedIds, ?_⟩
    rintro sid hold _ hin rfl
    exact hunended sid hold (hcloses.ids.subset hin)
  · intro ending hending
    rcases List.mem_append.mp hending with hold | hin
    · exact h.created ending hold
    · obtain ⟨-, ⟨session, hsession, hid, -, -⟩, -⟩ :=
        htask.txn.ended _ (hcloses.mem ending hin)
      rw [← hid]
      exact hs.created session hsession
  · intro ending hending
    rcases List.mem_append.mp hending with hold | hin
    · exact h.revoked ending hold
    · exact (htask.txn.ended _ (hcloses.mem ending hin)).2.2
  · intro ending hending session hsession hid
    obtain ⟨old, hold, rfl, -⟩ := mem_commit_sessions.mp hsession
    rw [endSession_id] at hid
    rcases List.mem_append.mp hending with hprev | hin
    · rw [endSession_of_not_mem (hid ▸ hunended _ (List.mem_map_of_mem hprev))]
      exact h.rows ending hprev old hold hid
    · have hended := hcloses.mem ending hin
      have hfind : task.txn.ended.find? (·.id = old.id) = some ending.session := by
        obtain ⟨found, hfound⟩ := Option.isSome_iff_exists.mp
          (List.find?_isSome (p := (·.id = old.id)).mpr ⟨_, hended, by simpa using hid.symm⟩)
        have hfoundId : found.id = old.id := by simpa using List.find?_some hfound
        rw [hfound, eq_of_key_eq htask.txn.endedIds (List.mem_of_find?_eq_some hfound) hended
          (hfoundId.trans hid)]
      simp only [Tables.endSession, hfind, and_self]
  · intro session hsession hsome
    obtain ⟨old, hold, rfl, -⟩ := mem_commit_sessions.mp hsession
    by_cases hended : old.id ∈ task.txn.ended.map Session.id
    · obtain ⟨ended, hin, hid⟩ := List.mem_map.mp hended
      obtain ⟨ending, hending, rfl⟩ := hcloses.exists_mem ended hin
      refine ⟨ending, List.mem_append_right _ hending, ?_⟩
      rw [endSession_id, hid]
    · rw [endSession_of_not_mem hended] at hsome ⊢
      obtain ⟨ending, hending, hid⟩ := h.ended old hold hsome
      exact ⟨ending, List.mem_append_left _ hending, hid⟩
  · intro ending hending
    rcases List.mem_append.mp hending with hold | hin
    · exact h.own ending hold
    · exact hcloses.own ending hin
  · have hregistry := (registry_commit_perm hs.db htask.txn (htask.complete hcomplete)).map
      SessionClient.key
    refine List.perm_iff_count.mpr fun key ↦ ?_
    have hrecorded := List.perm_iff_count.mp h.recorded key
    have hkept := List.perm_iff_count.mp hregistry key
    have hreturned := List.perm_iff_count.mp hcloses.keys key
    simp only [List.map_append, List.flatMap_append, List.count_append] at hrecorded hkept hreturned ⊢
    omega
  · rw [List.nodup_append]
    refine ⟨h.nodup, ?_, ?_⟩
    · cases task.txn.inserted with
      | none => exact List.nodup_nil
      | some row => exact List.nodup_singleton _
    · rintro key hold _ hin rfl
      obtain ⟨row, hrow, rfl⟩ := List.mem_map.mp hin
      obtain ⟨-, -, hfresh, realmId, hunrevoked, -⟩ :=
        htask.txn.inserted row (Option.mem_toList.mp hrow)
      rcases List.mem_append.mp (h.recorded.subset hold) with hregistry | hreturned
      · exact hfresh hregistry
      · obtain ⟨ending, hending, hkey⟩ := List.mem_flatMap.mp hreturned
        refine h.not_ended hunrevoked (List.mem_map.mpr ⟨ending, hending, ?_⟩)
        exact (h.own ending hending _ hkey).symm
  · show s.db.events ++ task.txn.events = _
    rw [h.events, hcloses.events, List.flatMap_append]

end Commit

/-! ### Runs -/

section Runs

variable {s t : State} {a : Action}

theorem Inv.set (hs : Inv s) {i : ℕ} {task : Task} (hgrants : Grants Task.held s.tasks i task)
    (htask : TaskOk s.db task) : Inv { s with tasks := s.tasks.set i task } where
  db := hs.db
  apart := hs.apart.set hgrants
  tasks j other hother := by
    rcases getElem?_set_cases hother with ⟨-, rfl⟩ | ⟨-, hj⟩
    · exact htask
    · exact hs.tasks j other hj
  created := hs.created

theorem History.tasks (h : History s) (tasks : List Task) : History { s with tasks := tasks } :=
  ⟨h.endedIds, h.created, h.revoked, h.rows, h.ended, h.own, h.recorded, h.nodup, h.events⟩

/-- A task that arrives has written nothing. -/
theorem Inv.start (hs : Inv s) (program : Program) (hprogram : ProgramOk s.db .empty program) :
    Inv (s.start program) where
  db := hs.db
  apart := hs.apart.append rfl
  tasks i task hmem := by
    rcases getElem?_append_cases hmem with hi | ⟨-, rfl⟩
    · exact hs.tasks i task hi
    · exact ⟨.of_empty, hprogram⟩
  created := hs.created

/-- One step keeps both invariants. -/
theorem inv_step (hs : Inv s) (h : History s) (hstep : step s a = some t) : Inv t ∧ History t := by
  cases a with
  | tick ms =>
    rw [← Option.some.inj hstep]
    exact ⟨⟨hs.db, hs.apart, hs.tasks, hs.created⟩, ⟨h.endedIds, h.created, h.revoked, h.rows,
      h.ended, h.own, h.recorded, h.nodup, h.events⟩⟩
  | setRealm realm =>
    rw [← Option.some.inj hstep]
    have halike : Alike s.db { s.db with
        realms := realm :: s.db.realms.filter fun other ↦ other.id ≠ realm.id } :=
      .of_sessions rfl (fun h ↦ h) (fun _ _ h ↦ h) rfl (fun _ h ↦ .inl h) rfl
    exact ⟨halike.inv hs, halike.history h⟩
  | register client =>
    rw [step] at hstep
    split_ifs at hstep with hfresh
    rw [← Option.some.inj hstep]
    exact ⟨(alike_register hfresh).inv hs, (alike_register hfresh).history h⟩
  | setLogoutUri id uri =>
    rw [← Option.some.inj hstep]
    exact ⟨alike_setLogoutUri.inv hs, alike_setLogoutUri.history h⟩
  | create session =>
    rw [step] at hstep
    split_ifs at hstep with hguard
    rw [← Option.some.inj hstep]
    exact ⟨hs.create hguard.1, h.create hguard.1 hguard.2.1⟩
  | updateLastSeen realmId id minIntervalMs =>
    rw [step] at hstep
    split_ifs at hstep
    rw [← Option.some.inj hstep]
    exact ⟨alike_updateLastSeen.inv hs, alike_updateLastSeen.history h⟩
  | mintPlain code =>
    rw [step] at hstep
    split_ifs at hstep with hguard
    rw [← Option.some.inj hstep]
    have halike : Alike s.db { s.db with codes := s.db.codes ++ [code] } := by
      refine .of_sessions rfl (fun h ↦ h) (fun _ _ h ↦ h) rfl (fun other hother ↦ ?_) rfl
      rcases List.mem_append.mp hother with hold | hnew
      · exact .inl hold
      · rw [List.mem_singleton.mp hnew]
        exact .inr hguard.1
    exact ⟨halike.inv hs, halike.history h⟩
  | mint mint =>
    rw [← Option.some.inj hstep]
    exact ⟨hs.start (.minting _ _) ⟨nofun, rfl, rfl, rfl, rfl, fun _ ↦ rfl, fun _ ↦ rfl⟩, h.tasks _⟩
  | revoke selection reason =>
    rw [← Option.some.inj hstep]
    exact ⟨hs.start (.revoking _ _) ⟨rfl, rfl, rfl, nofun, fun _ ↦ rfl, fun _ ↦ rfl, nofun, nofun, nofun, rfl⟩,
      h.tasks _⟩
  | deleteEnded before after limit =>
    rw [← Option.some.inj hstep]
    exact ⟨hs.start (.deleting _ _) ⟨rfl, rfl, rfl, rfl, rfl⟩, h.tasks _⟩
  | spend codeId =>
    rw [← Option.some.inj hstep]
    exact ⟨hs.start (.spending _ _) ⟨⟨rfl, rfl, rfl, rfl, rfl⟩, rfl⟩, h.tasks _⟩
  | call i =>
    obtain ⟨task, hmem, hstep⟩ := Option.bind_eq_some_iff.mp hstep
    obtain ⟨task', hcall, hstep⟩ := Option.bind_eq_some_iff.mp hstep
    split_ifs at hstep with hgrants
    rw [← Option.some.inj hstep]
    exact ⟨hs.set hgrants ((hs.tasks i task hmem).call hs.db hcall), h.tasks _⟩
  | commit i =>
    obtain ⟨task, hmem, hstep⟩ := Option.bind_eq_some_iff.mp hstep
    split_ifs at hstep with hcomplete
    rw [← Option.some.inj hstep]
    exact ⟨hs.commit hmem hcomplete, h.commit hs hmem hcomplete⟩
  | rollback i =>
    rw [step] at hstep
    split_ifs at hstep with hlt
    rw [← Option.some.inj hstep]
    refine ⟨hs.set ?_ (.empty _), h.tasks _⟩
    exact hs.apart.grants_of_subset (List.getElem?_eq_getElem hlt) fun _ hx ↦ nomatch hx

/-- Every reachable state satisfies both invariants. -/
theorem invariant : system.Invariant fun s ↦ Inv s ∧ History s where
  initial s hs := by
    obtain ⟨hdb, htasks, hcreated, hrecorded, hendings⟩ := hs
    constructor
    · refine ⟨⟨?_, ?_, ?_, ?_⟩, ?_, ?_, ?_⟩
      all_goals simp [hdb, htasks, Apart]
    · refine ⟨?_, ?_, ?_, ?_, ?_, ?_, ?_, ?_, ?_⟩
      all_goals simp [hdb, hendings, hrecorded]
  step _ _ _ hs hstep := inv_step hs.1 hs.2 hstep

end Runs

/-! ### Every session ends once -/

namespace Sample

/-- The store before anything has happened. -/
def start : State := ⟨0, ⟨[], [], [], [], [], []⟩, [], [], [], []⟩

def client : OAuthClient := ⟨"c1", "r1", "app", "App", some "https://app.example/logout"⟩

def session : Session := ⟨"s1", "r1", "u1", 1000, none, none, 0, 0⟩

def code : AuthorizationCode :=
  ⟨"code1", "c1", "u1", "https://app.example/cb", "", none, [], [], false, 0, 600, none, none, none,
    none⟩

/-- A sign-out that comes while a code is being minted, and waits for its commit. -/
def signOut : List Action :=
  [.register client, .create session, .mint ⟨"r1", "s1", "c1", code⟩, .call 0, .call 0, .call 0,
    .revoke (.one "r1" "s1" none) .signOut, .call 1, .call 0, .commit 0, .call 1, .call 1, .call 1,
    .call 1, .call 1, .call 1, .call 1, .commit 1]

end Sample

end QAuth.Sessions
