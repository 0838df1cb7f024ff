import QAuth.Grants.Store

/-!
# Revocations of refresh tokens

The revoking statements of `repositories/refresh-tokens.repository.ts`: each takes its advisory lock
in exclusive mode, and then updates the rows its predicate selects. The update reads the rows it is
to write when it starts, waits for the lock of each, and looks at its predicate again on the row as
it then is.
-/

namespace QAuth.Grants

open QAuth.Token Locks Table

/-- What a revocation is of. -/
inductive Target
  /-- `revokeFamily`. -/
  | family (familyId : Uuid)
  /-- `revokeFamilyByAuthorizationCode`. -/
  | code (authorizationCodeId : Uuid)
  /-- `revokeAllForUser`. -/
  | user (userId : Uuid)
  /-- `revokeAllForUserAndClient`. -/
  | userAndClient (userId oauthClientId : Uuid)
  /-- `revokeAllForClient`. -/
  | client (oauthClientId : Uuid)
  /-- `revoke`. -/
  | token (id : Uuid)
deriving DecidableEq

namespace Target

/-- The exclusive lock a revocation takes first; that of a family is on the user of one of its
rows, if it has any. -/
def lock (db : Tables) (txn : Txn) : Target → Txn
  | .family f =>
    txn.lockUserTokens .exclusive ((db.tokens.find? (·.familyId = f)).map (·.userId))
  | .code c =>
    txn.lockUserTokens .exclusive
      ((db.tokens.find? (·.authorizationCodeId = some c)).map (·.userId))
  | .user u | .userAndClient u _ => txn.lockUserTokens .exclusive (some u)
  | .client c => txn.lockClientTokens .exclusive (some c)
  | .token _ => txn

/-- The predicate of the update, where `now` is the clock as the revocation read it first. -/
def selects (db : Tables) (now : ℕ) : Target → RefreshToken → Bool
  | .family f, row => row.familyId = f ∧ row.revoked = false
  | .code c, row =>
    (∃ first ∈ db.tokens, first.authorizationCodeId = some c ∧ first.familyId = row.familyId) ∧
      row.revoked = false
  | .user u, row => row.userId = u ∧ row.revoked = false ∧ now < row.expiresAt
  | .userAndClient u c, row => row.userId = u ∧ row.oauthClientId = c ∧ row.revoked = false
  | .client c, row => row.oauthClientId = c ∧ row.revoked = false
  | .token id, row => row.id = id

/-- The family a revocation names: `revokeFamilyByAuthorizationCode` reads it under the lock. -/
def familyOf (db : Tables) : Target → Option Uuid
  | .family f => some f
  | .code c => (db.tokens.find? (·.authorizationCodeId = some c)).map (·.familyId)
  | _ => none

end Target

/-- The rows the update is to write, as it starts. -/
def Tables.selected (db : Tables) (now : ℕ) (target : Target) : List Uuid :=
  (db.tokens.filter (target.selects db now)).map (·.id)

/-- The update comes to a row: it writes it if its predicate still selects it. -/
def Tables.touch (db : Tables) (now : ℕ) (target : Target) (reason : String) (txn : Txn)
    (id : Uuid) : Txn :=
  match db.find id with
  | none => txn
  | some row =>
    if target.selects db now row then
      { txn with revoked := id :: txn.revoked, reason := reason }
    else txn

/-! ### Closing families -/

/-- No live token is left in the families `F`, but for those that the revocation spared. -/
structure Ended (db : Tables) (F : Uuid → Prop) (spared : NewRefreshToken → Prop) : Prop where
  known : ∀ f, F f → db.HasFamily f
  rows : ∀ r ∈ db.tokens, F r.familyId → r.revoked = true ∨ spared r.toNewRefreshToken

/-- The transaction `txn` is updating all live rows of the families `F`, but for those it spares,
and it has still to come to the rows `todo`. -/
structure Closing (db : Tables) (txn : Txn) (target : Target) (now : ℕ) (F : Uuid → Prop)
    (spared : NewRefreshToken → Prop) (todo : List Uuid) : Prop where
  known : ∀ f, F f → db.HasFamily f
  /-- Whoever adds a row to the families waits for the transaction. -/
  excludes : ∀ r ∈ db.tokens, F r.familyId →
    (.user r.userId, .exclusive) ∈ txn.locks ∨ (.client r.oauthClientId, .exclusive) ∈ txn.locks
  selects : ∀ r ∈ db.tokens, F r.familyId → r.revoked = false →
    spared r.toNewRefreshToken ∨ target.selects db now r = true
  covers : ∀ r ∈ db.tokens, F r.familyId →
    r.revoked = true ∨ spared r.toNewRefreshToken ∨ r.id ∈ todo ∨ r.id ∈ txn.revoked

section Closing

variable {db : Tables} {txn other : Txn} {target : Target} {now : ℕ} {F : Uuid → Prop}
  {spared : NewRefreshToken → Prop} {todo : List Uuid} {id : Uuid}

/-- A live row keeps being selected beside another transaction's commit. -/
theorem selects_commit {old row : RefreshToken} (h : target.selects db now old = true)
    (hrow : Becomes old row) (hlive : row.revoked = false) :
    target.selects (db.commit other) now row = true := by
  obtain ⟨hid, hdata, -⟩ := hrow
  cases target with
  | code c =>
    simp only [Target.selects, decide_eq_true_eq] at h ⊢
    obtain ⟨⟨first, hfirst, hcode, hfamily⟩, -⟩ := h
    obtain ⟨first', hfirst', -, hdata', -⟩ := known_commit other hfirst
    refine ⟨⟨first', hfirst', ?_, ?_⟩, hlive⟩
    · rw [hdata', hcode]
    · rw [hdata', hdata, hfamily]
  | token id => simpa [Target.selects, hid] using h
  | family f => simp_all [Target.selects]
  | user u => simp_all [Target.selects]
  | userAndClient u c => simp_all [Target.selects]
  | client c => simp_all [Target.selects]

section Beside

variable (hcompat : Compatible txn.held other.held)

include hcompat

/-- No other transaction has a token of these families to commit. -/
theorem Closing.not_inserted (h : Closing db txn target now F spared todo) (hother : other.Ok db)
    {row : RefreshToken} (hrow : other.inserted = some row) : ¬ F row.familyId := by
  intro hF
  cases hother.lineage row hrow with
  | start fresh => exact fresh (h.known _ hF)
  | rotation parent mem live revoked familyId userId oauthClientId previous code user client =>
    rw [familyId] at hF
    rcases h.excludes parent mem hF with hlock | hlock
    · exact hcompat.not_mem (Txn.mem_held_of_mem_locks hlock) (Txn.mem_held_of_mem_locks user)
    · exact hcompat.not_mem (Txn.mem_held_of_mem_locks hlock) (Txn.mem_held_of_mem_locks client)

/-- Nothing another transaction commits escapes the update. -/
theorem Closing.commit (h : Closing db txn target now F spared todo) (hother : other.Ok db) :
    Closing (db.commit other) txn target now F spared todo := by
  have hold : ∀ r ∈ (db.commit other).tokens, F r.familyId → ∃ old ∈ db.tokens, Becomes old r := by
    intro r hr hF
    rcases of_mem_commit hr with ⟨old, hold, hbecomes, -⟩ | hrow
    · exact ⟨old, hold, hbecomes⟩
    · exact absurd hF (h.not_inserted hcompat hother hrow)
  refine ⟨fun f hF ↦ (h.known f hF).commit, ?_, ?_, ?_⟩
  · intro r hr hF
    obtain ⟨old, hmem, -, hdata, -⟩ := hold r hr hF
    rw [hdata] at hF ⊢
    exact h.excludes old hmem hF
  · intro r hr hF hlive
    obtain ⟨old, hmem, hbecomes⟩ := hold r hr hF
    rw [hbecomes.data] at hF ⊢
    exact (h.selects old hmem hF (hbecomes.unrevoked hlive)).imp_right
      fun hsel ↦ selects_commit hsel hbecomes hlive
  · intro r hr hF
    obtain ⟨old, hmem, hid, hdata, hrevoked⟩ := hold r hr hF
    rw [hdata] at hF ⊢
    rw [hid]
    exact (h.covers old hmem hF).imp_left hrevoked

end Beside

/-- The update comes to the next row, which it writes unless the row is to be left as it is. -/
theorem Closing.touch {reason : String} (hdb : db.Ok)
    (h : Closing db txn target now F spared (id :: todo)) :
    Closing db (db.touch now target reason txn id) target now F spared todo := by
  have hlocks : (db.touch now target reason txn id).locks = txn.locks := by
    unfold Tables.touch
    split
    · rfl
    · split_ifs <;> rfl
  have hkept : ∀ x ∈ txn.revoked, x ∈ (db.touch now target reason txn id).revoked := by
    intro x hx
    unfold Tables.touch
    split
    · exact hx
    · split_ifs
      · exact List.mem_cons_of_mem _ hx
      · exact hx
  have hhead : ∀ r ∈ db.tokens, r.id = id → target.selects db now r = true →
      id ∈ (db.touch now target reason txn id).revoked := by
    intro r hr hid hsel
    unfold Tables.touch
    split
    · rename_i hfind
      exact absurd hid (by simpa using List.find?_eq_none.mp hfind r hr)
    · rename_i row hfind
      have hrow : row.id = id := by simpa using List.find?_some hfind
      rw [hdb.eq_of_id (List.mem_of_find?_eq_some hfind) hr (hrow.trans hid.symm), if_pos hsel]
      exact List.mem_cons_self
  refine ⟨h.known, ?_, h.selects, ?_⟩
  · rw [hlocks]
    exact h.excludes
  · intro r hr hF
    rcases h.covers r hr hF with hrevoked | hspared | htodo | hdone
    · exact .inl hrevoked
    · exact .inr (.inl hspared)
    · rcases List.mem_cons.mp htodo with hid | htodo
      · by_cases hlive : r.revoked = true
        · exact .inl hlive
        · rw [Bool.not_eq_true] at hlive
          rcases h.selects r hr hF hlive with hspared | hsel
          · exact .inr (.inl hspared)
          · rw [hid]
            exact .inr (.inr (.inr (hhead r hr hid hsel)))
      · exact .inr (.inr (.inl htodo))
    · exact .inr (.inr (.inr (hkept _ hdone)))

/-- Once the update has gone over its rows and committed, the families are ended. -/
theorem Closing.ended (h : Closing db txn target now F spared []) (hinserted : txn.inserted = none) :
    Ended (db.commit txn) F spared := by
  refine ⟨fun f hF ↦ (h.known f hF).commit, fun r hr hF ↦ ?_⟩
  rcases of_mem_commit hr with ⟨old, hold, hbecomes, hout⟩ | hrow
  · rw [hbecomes.data] at hF ⊢
    rcases h.covers old hold hF with hrevoked | hspared | htodo | hdone
    · exact .inl (hbecomes.revoked hrevoked)
    · exact .inr hspared
    · cases htodo
    · left
      by_contra hlive
      rw [Bool.not_eq_true] at hlive
      exact hout hlive hdone
  · rw [hinserted] at hrow
    cases hrow

/-- Ended families stay so, where a rotation of a spared row inserts none but spared rows. -/
theorem Ended.commit (h : Ended db F spared) (hother : other.Ok db)
    (hspared : ∀ row parent, other.inserted = some row → parent ∈ db.tokens →
      parent.revoked = false → row.previousTokenHash = some parent.tokenHash →
      F parent.familyId → spared parent.toNewRefreshToken → spared row.toNewRefreshToken) :
    Ended (db.commit other) F spared := by
  refine ⟨fun f hF ↦ (h.known f hF).commit, fun r hr hF ↦ ?_⟩
  rcases of_mem_commit hr with ⟨old, hold, hbecomes, -⟩ | hrow
  · rw [hbecomes.data] at hF ⊢
    exact (h.rows old hold hF).imp_left hbecomes.revoked
  · cases hother.lineage r hrow with
    | start fresh => exact absurd (h.known _ hF) fresh
    | rotation parent mem live revoked familyId userId oauthClientId previous =>
      rw [familyId] at hF
      rcases h.rows parent mem hF with hrevoked | hparent
      · rw [live] at hrevoked
        cases hrevoked
      · exact .inr (hspared r parent hrow mem live previous hF hparent)

end Closing

end QAuth.Grants
