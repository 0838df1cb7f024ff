import QAuth.Foundation.Locks
import QAuth.Foundation.Table
import QAuth.Foundation.Text
import QAuth.Token.RefreshGrant

/-!
# The tables of codes and refresh tokens

The statements of `repositories/refresh-tokens.repository.ts` and of `markUsed` of
`repositories/authorization-codes.repository.ts`, each inside its transaction under READ COMMITTED:
a statement reads the committed rows, what it writes stays in the transaction until the commit, and
a written row is locked until then. An advisory lock, a row lock and an entry of a unique index are
keys held by the transaction (`Locks`).
-/

namespace QAuth.Grants

open QAuth.Token Locks Table

/-! ### Transactions -/

/-- What a transaction holds until it ends. -/
inductive Resource
  /-- The advisory lock of `lockUserTokens`. -/
  | user (id : Uuid)
  /-- The advisory lock of `lockClientTokens`. -/
  | client (id : Uuid)
  /-- The lock of a row of `authorization_codes`. -/
  | code (id : Uuid)
  /-- The lock of a row of `refresh_tokens`, or its entry in the primary key. -/
  | token (id : Uuid)
  /-- The entry of a token's hash in its unique index. -/
  | tokenHash (hash : String)
  /-- The random id of a family that is being started: no two of them are alike. -/
  | family (id : Uuid)
deriving DecidableEq

/-- The committed rows. -/
structure Tables where
  codes : List AuthorizationCode
  tokens : List RefreshToken

/-- An open transaction: the advisory locks it took, the code it marked used, the tokens it revoked
and the token it inserted. -/
structure Txn where
  locks : List (Resource × Mode)
  spent : Option Uuid
  revoked : List Uuid
  reason : String
  inserted : Option RefreshToken

namespace Txn

/-- A transaction that has just begun. -/
def empty : Txn := ⟨[], none, [], "", none⟩

/-- The keys of the rows a transaction has written. -/
def rowLocks (txn : Txn) : List (Resource × Mode) :=
  txn.spent.toList.map (fun id ↦ (.code id, .exclusive)) ++
    txn.revoked.map (fun id ↦ (.token id, .exclusive)) ++
    txn.inserted.toList.flatMap fun row ↦
      [(.token row.id, .exclusive), (.tokenHash row.tokenHash, .exclusive)]

/-- Everything a transaction holds. -/
def held (txn : Txn) : List (Resource × Mode) := txn.locks ++ txn.rowLocks

/-- `lockUserTokens`: a NULL key locks nothing. -/
def lockUserTokens (txn : Txn) (mode : Mode) (userId : Option Uuid) : Txn :=
  { txn with locks := userId.toList.map (fun id ↦ (.user id, mode)) ++ txn.locks }

/-- `lockClientTokens`. -/
def lockClientTokens (txn : Txn) (mode : Mode) (clientId : Option Uuid) : Txn :=
  { txn with locks := clientId.toList.map (fun id ↦ (.client id, mode)) ++ txn.locks }

variable {txn : Txn} {id : Uuid} {row : RefreshToken}

@[simp] theorem held_empty : empty.held = [] := rfl

theorem mem_held_of_mem_locks {x : Resource × Mode} (h : x ∈ txn.locks) : x ∈ txn.held :=
  List.mem_append_left _ h

theorem mem_locks_lockUserTokens {x : Resource × Mode} {mode : Mode} {userId : Option Uuid}
    (h : x ∈ txn.locks) : x ∈ (txn.lockUserTokens mode userId).locks :=
  List.mem_append_right _ h

theorem mem_locks_lockClientTokens {x : Resource × Mode} {mode : Mode} {clientId : Option Uuid}
    (h : x ∈ txn.locks) : x ∈ (txn.lockClientTokens mode clientId).locks :=
  List.mem_append_right _ h

theorem user_mem_locks {mode : Mode} : (.user id, mode) ∈ (txn.lockUserTokens mode (some id)).locks :=
  List.mem_cons_self

theorem client_mem_locks {mode : Mode} :
    (.client id, mode) ∈ (txn.lockClientTokens mode (some id)).locks :=
  List.mem_cons_self

theorem code_mem_held (h : txn.spent = some id) : (.code id, .exclusive) ∈ txn.held := by
  simp [held, rowLocks, h]

theorem token_mem_held (h : id ∈ txn.revoked) : (.token id, .exclusive) ∈ txn.held := by
  simp [held, rowLocks, h]

theorem inserted_mem_held (h : txn.inserted = some row) :
    (.token row.id, .exclusive) ∈ txn.held ∧
      (.tokenHash row.tokenHash, .exclusive) ∈ txn.held := by
  simp [held, rowLocks, h]

end Txn

/-! ### Statements -/

namespace Tables

/-- The committed row of a token. -/
def find (db : Tables) (id : Uuid) : Option RefreshToken := db.tokens.find? (·.id = id)

/-- The compare-and-set of `markUsed`; `none` where it updates nothing. -/
def markUsed (db : Tables) (txn : Txn) (id : Uuid) : Option Txn :=
  if db.codes.any fun code ↦ code.id = id ∧ code.used = false then
    some { txn with spent := some id }
  else none

/-- The compare-and-set of `revokeIfActive`; `none` where it updates nothing. -/
def revokeIfActive (db : Tables) (txn : Txn) (id : Uuid) (reason : String) : Option Txn :=
  if db.tokens.any fun row ↦ row.id = id ∧ row.revoked = false then
    some { txn with revoked := [id], reason := reason }
  else none

/-- The insert of `create`, unless it meets a row with the same key or token hash. -/
def create (db : Tables) (txn : Txn) (data : NewRefreshToken) (id : Uuid) (createdAt : ℕ) :
    Option Txn :=
  if ∀ row ∈ db.tokens, row.id ≠ id ∧ row.tokenHash ≠ data.tokenHash then
    some { txn with inserted := some (data.row id createdAt) }
  else none

/-- The update of a revocation. -/
def revokeRow (reason : String) (row : RefreshToken) : RefreshToken :=
  { row with revoked := true, revokedReason := some reason }

/-- The update of `markUsed`. -/
def useCode (code : AuthorizationCode) : AuthorizationCode := { code with used := true }

/-- The committed rows once `txn` has committed. -/
def commit (db : Tables) (txn : Txn) : Tables where
  codes := updateWhere (fun code ↦ txn.spent = some code.id) useCode db.codes
  tokens := updateWhere (fun row ↦ txn.revoked.contains row.id) (revokeRow txn.reason) db.tokens ++
    txn.inserted.toList

end Tables

/-! ### Rows over time -/

/-- The same row, at a moment and later: only its revocation changes, and only once. -/
structure Becomes (old new : RefreshToken) : Prop where
  id : new.id = old.id
  data : new.toNewRefreshToken = old.toNewRefreshToken
  revoked : old.revoked = true → new.revoked = true

theorem Becomes.refl (row : RefreshToken) : Becomes row row := ⟨rfl, rfl, fun h ↦ h⟩

theorem Becomes.trans {a b c : RefreshToken} (hab : Becomes a b) (hbc : Becomes b c) :
    Becomes a c :=
  ⟨hbc.id.trans hab.id, hbc.data.trans hab.data, fun h ↦ hbc.revoked (hab.revoked h)⟩

theorem Becomes.unrevoked {old new : RefreshToken} (h : Becomes old new)
    (hnew : new.revoked = false) : old.revoked = false := by
  by_contra hold
  rw [Bool.not_eq_false] at hold
  rw [h.revoked hold] at hnew
  cases hnew

/-- A row that was read is still there, perhaps revoked since. -/
def Tables.Known (db : Tables) (row : RefreshToken) : Prop :=
  ∃ row' ∈ db.tokens, Becomes row row'

/-- The statements that name a row by its id find it. -/
theorem Tables.Known.find {db : Tables} {stored : RefreshToken} (h : db.Known stored)
    (hids : (db.tokens.map (·.id)).Nodup) :
    ∃ row ∈ db.tokens, db.find stored.id = some row ∧ Becomes stored row := by
  obtain ⟨row, hrow, hbecomes⟩ := h
  refine ⟨row, hrow, ?_, hbecomes⟩
  cases hfind : db.find stored.id with
  | none =>
    exact absurd hbecomes.id (by simpa using List.find?_eq_none.mp hfind row hrow)
  | some found =>
    have hid : found.id = stored.id := by simpa using List.find?_some hfind
    rw [eq_of_key_eq hids (List.mem_of_find?_eq_some hfind) hrow (hid.trans hbecomes.id.symm)]

/-- The family has a committed row. -/
def Tables.HasFamily (db : Tables) (family : Uuid) : Prop :=
  ∃ row ∈ db.tokens, row.familyId = family

instance (db : Tables) (family : Uuid) : Decidable (db.HasFamily family) :=
  inferInstanceAs (Decidable (∃ row ∈ db.tokens, row.familyId = family))

/-- The code is committed as used. -/
def Tables.Used (db : Tables) (codeId : Uuid) : Prop :=
  ∃ code ∈ db.codes, code.id = codeId ∧ code.used = true

/-- The code is committed as unused. -/
def Tables.Unused (db : Tables) (codeId : Uuid) : Prop :=
  ∃ code ∈ db.codes, code.id = codeId ∧ code.used = false

section Commit

variable {db : Tables} {txn : Txn} {row : RefreshToken} {id family : Uuid}

/-- A row after a commit is one that was there before, which the transaction did not revoke if it is
not revoked now, or the one the transaction inserted. -/
theorem of_mem_commit (h : row ∈ (db.commit txn).tokens) :
    (∃ old ∈ db.tokens, Becomes old row ∧ (row.revoked = false → old.id ∉ txn.revoked)) ∨
      txn.inserted = some row := by
  rcases List.mem_append.mp h with h | h
  · left
    rcases mem_updateWhere_cases h with ⟨hrow, hout⟩ | ⟨old, hold, -, rfl⟩
    · refine ⟨row, hrow, .refl row, fun _ hin ↦ ?_⟩
      rw [List.contains_iff_mem.mpr hin] at hout
      cases hout
    · exact ⟨old, hold, ⟨rfl, rfl, fun _ ↦ rfl⟩, fun hlive ↦ Bool.noConfusion hlive⟩
  · exact .inr (Option.mem_toList.mp h)

theorem known_commit (txn : Txn) (h : row ∈ db.tokens) : (db.commit txn).Known row := by
  by_cases hin : txn.revoked.contains row.id = true
  · exact ⟨_, List.mem_append_left _ (mem_updateWhere_of_true h hin), rfl, rfl, fun _ ↦ rfl⟩
  · rw [Bool.not_eq_true] at hin
    exact ⟨row, List.mem_append_left _ (mem_updateWhere_of_false h hin), .refl row⟩

/-- A row the transaction did not revoke is unchanged. -/
theorem mem_commit_of_not_mem (h : row ∈ db.tokens) (hout : row.id ∉ txn.revoked) :
    row ∈ (db.commit txn).tokens := by
  refine List.mem_append_left _ (mem_updateWhere_of_false h ?_)
  simpa using hout

theorem inserted_mem_commit (h : txn.inserted = some row) : row ∈ (db.commit txn).tokens :=
  List.mem_append_right _ (by simp [h])

theorem Tables.Known.commit (h : db.Known row) : (db.commit txn).Known row := by
  obtain ⟨row', hrow', hbecomes⟩ := h
  obtain ⟨row'', hrow'', hbecomes'⟩ := known_commit txn hrow'
  exact ⟨row'', hrow'', hbecomes.trans hbecomes'⟩

theorem Tables.HasFamily.commit (h : db.HasFamily family) : (db.commit txn).HasFamily family := by
  obtain ⟨row, hrow, rfl⟩ := h
  obtain ⟨row', hrow', hbecomes⟩ := known_commit txn hrow
  exact ⟨row', hrow', congrArg NewRefreshToken.familyId hbecomes.data⟩

/-- A code after a commit is one that was there before, used only if it was or if the transaction
spent it. -/
theorem of_mem_commit_codes {code : AuthorizationCode} (h : code ∈ (db.commit txn).codes) :
    ∃ old ∈ db.codes, code.id = old.id ∧
      (code.used = false → old.used = false ∧ txn.spent ≠ some old.id) := by
  rcases mem_updateWhere_cases h with ⟨hcode, hout⟩ | ⟨old, hold, -, rfl⟩
  · exact ⟨code, hcode, rfl, fun hunused ↦ ⟨hunused, by simpa using hout⟩⟩
  · exact ⟨old, hold, rfl, fun hunused ↦ Bool.noConfusion hunused⟩

theorem Tables.Used.commit (h : db.Used id) : (db.commit txn).Used id := by
  obtain ⟨code, hcode, hid, hused⟩ := h
  by_cases hspent : txn.spent = some code.id
  · exact ⟨_, mem_updateWhere_of_true hcode (by simpa using hspent), hid, rfl⟩
  · exact ⟨code, mem_updateWhere_of_false hcode (by simpa using hspent), hid, hused⟩

/-- A code the transaction did not spend stays unused. -/
theorem Tables.Unused.commit (h : db.Unused id) (hspent : txn.spent ≠ some id) :
    (db.commit txn).Unused id := by
  obtain ⟨code, hcode, rfl, hunused⟩ := h
  exact ⟨code, mem_updateWhere_of_false hcode (by simpa using hspent), rfl, hunused⟩

theorem used_commit_of_spent (h : db.Unused id) (hspent : txn.spent = some id) :
    (db.commit txn).Used id := by
  obtain ⟨code, hcode, rfl, -⟩ := h
  exact ⟨_, mem_updateWhere_of_true hcode (by simpa using hspent), rfl, rfl⟩

end Commit

/-! ### Well-formed tables and transactions -/

/-- The committed rows, at any time. -/
structure Tables.Ok (db : Tables) : Prop where
  codeIds : (db.codes.map (·.id)).Nodup
  ids : (db.tokens.map (·.id)).Nodup
  hashes : (db.tokens.map (·.tokenHash)).Nodup
  /-- A family has at most one row that is not revoked. -/
  live : ∀ r ∈ db.tokens, ∀ r' ∈ db.tokens, r.familyId = r'.familyId →
    r.revoked = false → r'.revoked = false → r = r'
  owner : ∀ r ∈ db.tokens, ∀ r' ∈ db.tokens, r.familyId = r'.familyId →
    r.userId = r'.userId ∧ r.oauthClientId = r'.oauthClientId
  started : ∀ r ∈ db.tokens, ∀ c, r.authorizationCodeId = some c → db.Used c
  start : ∀ r ∈ db.tokens, ∀ r' ∈ db.tokens, ∀ c, r.authorizationCodeId = some c →
    r'.authorizationCodeId = some c → r.familyId = r'.familyId
  /-- A rotated token is of the family of the one it replaced. -/
  parent : ∀ r ∈ db.tokens, ∀ hash, r.previousTokenHash = some hash →
    ∃ p ∈ db.tokens, p.tokenHash = hash ∧ p.familyId = r.familyId

/-- How the token that a transaction inserts, or is about to, belongs to the committed rows. -/
inductive Lineage (db : Tables) (txn : Txn) (data : NewRefreshToken) : Prop
  /-- It starts a family of its own, perhaps with a code that the transaction spent. -/
  | start (fresh : ¬ db.HasFamily data.familyId)
      (drawn : (.family data.familyId, .exclusive) ∈ txn.locks)
      (first : data.previousTokenHash = none)
      (code : ∀ c, data.authorizationCodeId = some c → txn.spent = some c)
  /-- It replaces a token that is not revoked, and that the transaction revoked. -/
  | rotation (parent : RefreshToken) (mem : parent ∈ db.tokens) (live : parent.revoked = false)
      (revoked : txn.revoked = [parent.id]) (familyId : data.familyId = parent.familyId)
      (userId : data.userId = parent.userId)
      (oauthClientId : data.oauthClientId = parent.oauthClientId)
      (previous : data.previousTokenHash = some parent.tokenHash)
      (code : data.authorizationCodeId = none)
      (user : (.user parent.userId, .shared) ∈ txn.locks)
      (client : (.client parent.oauthClientId, .shared) ∈ txn.locks)

/-- An open transaction beside the committed rows. -/
structure Txn.Ok (db : Tables) (txn : Txn) : Prop where
  spent : ∀ c, txn.spent = some c → db.Unused c
  unique : ∀ row, txn.inserted = some row →
    ∀ r ∈ db.tokens, r.id ≠ row.id ∧ r.tokenHash ≠ row.tokenHash
  unrevoked : ∀ row, txn.inserted = some row → row.revoked = false
  lineage : ∀ row, txn.inserted = some row → Lineage db txn row.toNewRefreshToken

theorem Txn.Ok.of_empty {db : Tables} {txn : Txn} (hspent : txn.spent = none)
    (hinserted : txn.inserted = none) : txn.Ok db := by
  constructor
  · rw [hspent]
    exact fun _ h ↦ nomatch h
  all_goals
    rw [hinserted]
    exact fun _ h ↦ nomatch h

theorem Tables.Ok.not_used {db : Tables} (h : db.Ok) {c : Uuid} (hunused : db.Unused c) :
    ¬ db.Used c := by
  rintro ⟨code, hcode, hid, hused⟩
  obtain ⟨code', hcode', hid', hunused⟩ := hunused
  rw [eq_of_key_eq h.codeIds hcode hcode' (hid.trans hid'.symm), hunused] at hused
  cases hused

theorem Tables.Ok.eq_of_id {db : Tables} (h : db.Ok) {r r' : RefreshToken} (hr : r ∈ db.tokens)
    (hr' : r' ∈ db.tokens) (hid : r.id = r'.id) : r = r' :=
  eq_of_key_eq h.ids hr hr' hid

/-- The column of a table after a commit that keeps it unique. -/
theorem nodup_commit {κ : Type*} {db : Tables} {txn : Txn} {key : RefreshToken → κ}
    (hkey : ∀ r, key (Tables.revokeRow txn.reason r) = key r) (h : (db.tokens.map key).Nodup)
    (hnew : ∀ row, txn.inserted = some row → ∀ r ∈ db.tokens, key r ≠ key row) :
    ((db.commit txn).tokens.map key).Nodup := by
  rw [Tables.commit, List.map_append, map_updateWhere hkey, List.nodup_append]
  refine ⟨h, ?_, ?_⟩
  · cases txn.inserted <;> simp
  · rintro _ hr _ hrow rfl
    obtain ⟨r, hr', hk⟩ := List.mem_map.mp hr
    obtain ⟨row, hrow', hk'⟩ := List.mem_map.mp hrow
    exact hnew row (Option.mem_toList.mp hrow') r hr' (hk.trans hk'.symm)

section Commit

variable {db : Tables} {txn other : Txn} {row : RefreshToken}

/-- The inserted row is of a family of its own, or replaces the live row of its family. -/
theorem Lineage.live (hdb : db.Ok) {data : NewRefreshToken} (h : Lineage db txn data)
    {r : RefreshToken} (hr : r ∈ db.tokens) (hfamily : r.familyId = data.familyId) :
    data.userId = r.userId ∧ data.oauthClientId = r.oauthClientId ∧
      (r.revoked = false → r.id ∈ txn.revoked) := by
  cases h with
  | start fresh => exact absurd ⟨r, hr, hfamily⟩ fresh
  | rotation parent mem live revoked familyId userId oauthClientId =>
    obtain ⟨huser, hclient⟩ := hdb.owner r hr parent mem (hfamily.trans familyId)
    refine ⟨userId.trans huser.symm, oauthClientId.trans hclient.symm, fun hlive ↦ ?_⟩
    rw [hdb.live r hr parent mem (hfamily.trans familyId) hlive live, revoked]
    exact List.mem_singleton_self _

/-- A token that a code's redemption inserts is the first that any transaction inserts for it. -/
theorem Lineage.unused (htxn : txn.Ok db) {data : NewRefreshToken} (h : Lineage db txn data)
    {c : Uuid} (hcode : data.authorizationCodeId = some c) :
    txn.spent = some c ∧ db.Unused c := by
  cases h with
  | start fresh drawn first code => exact ⟨code c hcode, htxn.spent c (code c hcode)⟩
  | rotation parent mem live revoked familyId userId oauthClientId previous code =>
    rw [code] at hcode
    cases hcode

theorem live_commit (hdb : db.Ok) (htxn : txn.Ok db) :
    ∀ r ∈ (db.commit txn).tokens, ∀ r' ∈ (db.commit txn).tokens, r.familyId = r'.familyId →
      r.revoked = false → r'.revoked = false → r = r' := by
  -- An old row that is still live is not the one a rotation consumed.
  have hmixed : ∀ old ∈ db.tokens, ∀ r row, Becomes old r →
      (r.revoked = false → old.id ∉ txn.revoked) → txn.inserted = some row →
      r.familyId = row.familyId → r.revoked ≠ false := by
    intro old hold r row hbecomes hout hrow hfamily hlive
    have hfamily' : old.familyId = row.familyId :=
      (congrArg NewRefreshToken.familyId hbecomes.data).symm.trans hfamily
    exact hout hlive (((htxn.lineage row hrow).live hdb hold hfamily').2.2
      (hbecomes.unrevoked hlive))
  intro r hr r' hr' hfamily hlive hlive'
  rcases of_mem_commit hr with ⟨old, hold, hbecomes, hout⟩ | hrow <;>
    rcases of_mem_commit hr' with ⟨old', hold', hbecomes', hout'⟩ | hrow'
  · have hold_eq : old = old' := hdb.live old hold old' hold'
      ((congrArg NewRefreshToken.familyId hbecomes.data).symm.trans
        (hfamily.trans (congrArg NewRefreshToken.familyId hbecomes'.data)))
      (hbecomes.unrevoked hlive) (hbecomes'.unrevoked hlive')
    subst hold_eq
    have hids : ((db.commit txn).tokens.map (·.id)).Nodup :=
      nodup_commit (fun _ ↦ rfl) hdb.ids fun row hrow r hr ↦ (htxn.unique row hrow r hr).1
    exact eq_of_key_eq hids hr hr' (hbecomes.id.trans hbecomes'.id.symm)
  · exact absurd hlive (hmixed old hold r r' hbecomes hout hrow' hfamily)
  · exact absurd hlive' (hmixed old' hold' r' r hbecomes' hout' hrow hfamily.symm)
  · exact Option.some.inj (hrow.symm.trans hrow')

theorem owner_commit (hdb : db.Ok) (htxn : txn.Ok db) :
    ∀ r ∈ (db.commit txn).tokens, ∀ r' ∈ (db.commit txn).tokens, r.familyId = r'.familyId →
      r.userId = r'.userId ∧ r.oauthClientId = r'.oauthClientId := by
  have hmixed : ∀ old ∈ db.tokens, ∀ row, txn.inserted = some row →
      old.familyId = row.familyId →
      old.userId = row.userId ∧ old.oauthClientId = row.oauthClientId := by
    intro old hold row hrow hfamily
    obtain ⟨huser, hclient, -⟩ := (htxn.lineage row hrow).live hdb hold hfamily
    exact ⟨huser.symm, hclient.symm⟩
  intro r hr r' hr' hfamily
  rcases of_mem_commit hr with ⟨old, hold, ⟨-, hdata, -⟩, -⟩ | hrow <;>
    rcases of_mem_commit hr' with ⟨old', hold', ⟨-, hdata', -⟩, -⟩ | hrow'
  · rw [hdata, hdata'] at hfamily ⊢
    exact hdb.owner old hold old' hold' hfamily
  · rw [hdata] at hfamily ⊢
    exact hmixed old hold r' hrow' hfamily
  · rw [hdata'] at hfamily ⊢
    obtain ⟨huser, hclient⟩ := hmixed old' hold' r hrow hfamily.symm
    exact ⟨huser.symm, hclient.symm⟩
  · rw [Option.some.inj (hrow.symm.trans hrow')]
    exact ⟨rfl, rfl⟩

theorem start_commit (hdb : db.Ok) (htxn : txn.Ok db) :
    ∀ r ∈ (db.commit txn).tokens, ∀ r' ∈ (db.commit txn).tokens, ∀ c,
      r.authorizationCodeId = some c → r'.authorizationCodeId = some c →
      r.familyId = r'.familyId := by
  have hmixed : ∀ old ∈ db.tokens, ∀ row, txn.inserted = some row → ∀ c,
      old.authorizationCodeId = some c → row.authorizationCodeId ≠ some c := by
    intro old hold row hrow c hc hc'
    exact hdb.not_used ((htxn.lineage row hrow).unused htxn hc').2 (hdb.started old hold c hc)
  intro r hr r' hr' c hc hc'
  rcases of_mem_commit hr with ⟨old, hold, ⟨-, hdata, -⟩, -⟩ | hrow <;>
    rcases of_mem_commit hr' with ⟨old', hold', ⟨-, hdata', -⟩, -⟩ | hrow'
  · rw [hdata] at hc ⊢
    rw [hdata'] at hc' ⊢
    exact hdb.start old hold old' hold' c hc hc'
  · rw [hdata] at hc
    exact absurd hc' (hmixed old hold r' hrow' c hc)
  · rw [hdata'] at hc'
    exact absurd hc (hmixed old' hold' r hrow c hc')
  · rw [Option.some.inj (hrow.symm.trans hrow')]

theorem started_commit (hdb : db.Ok) (htxn : txn.Ok db) :
    ∀ r ∈ (db.commit txn).tokens, ∀ c, r.authorizationCodeId = some c →
      (db.commit txn).Used c := by
  intro r hr c hc
  rcases of_mem_commit hr with ⟨old, hold, ⟨-, hdata, -⟩, -⟩ | hrow
  · rw [hdata] at hc
    exact (hdb.started old hold c hc).commit
  · obtain ⟨hspent, hunused⟩ := (htxn.lineage r hrow).unused htxn hc
    exact used_commit_of_spent hunused hspent

theorem parent_commit (hdb : db.Ok) (htxn : txn.Ok db) :
    ∀ r ∈ (db.commit txn).tokens, ∀ hash, r.previousTokenHash = some hash →
      ∃ p ∈ (db.commit txn).tokens, p.tokenHash = hash ∧ p.familyId = r.familyId := by
  have hlift : ∀ p ∈ db.tokens, ∃ p' ∈ (db.commit txn).tokens,
      p'.tokenHash = p.tokenHash ∧ p'.familyId = p.familyId := by
    intro p hp
    obtain ⟨p', hp', -, hdata, -⟩ := known_commit txn hp
    exact ⟨p', hp', by rw [hdata], by rw [hdata]⟩
  intro r hr hash hprev
  rcases of_mem_commit hr with ⟨old, hold, ⟨-, hdata, -⟩, -⟩ | hrow
  · rw [hdata] at hprev ⊢
    obtain ⟨p, hp, rfl, hfamily⟩ := hdb.parent old hold hash hprev
    rw [← hfamily]
    exact hlift p hp
  · cases htxn.lineage r hrow with
    | start fresh drawn first =>
      rw [first] at hprev
      cases hprev
    | rotation parent mem live revoked familyId userId oauthClientId previous =>
      rw [previous] at hprev
      rw [familyId, ← Option.some.inj hprev]
      exact hlift parent mem

/-- A commit keeps the tables well formed. -/
theorem Tables.Ok.commit (hdb : db.Ok) (htxn : txn.Ok db) : (db.commit txn).Ok where
  codeIds := by
    have hkey : ∀ code, (Tables.useCode code).id = code.id := fun _ ↦ rfl
    rw [Tables.commit, map_updateWhere hkey]
    exact hdb.codeIds
  ids := nodup_commit (fun _ ↦ rfl) hdb.ids fun row hrow r hr ↦ (htxn.unique row hrow r hr).1
  hashes := nodup_commit (fun _ ↦ rfl) hdb.hashes fun row hrow r hr ↦ (htxn.unique row hrow r hr).2
  live := live_commit hdb htxn
  owner := owner_commit hdb htxn
  started := started_commit hdb htxn
  start := start_commit hdb htxn
  parent := parent_commit hdb htxn

/-! ### Other transactions beside a commit -/

/-- A transaction that takes more locks. -/
theorem Lineage.mono {txn' : Txn} {data : NewRefreshToken} (h : Lineage db txn data)
    (hlocks : ∀ x ∈ txn.locks, x ∈ txn'.locks) (hspent : txn'.spent = txn.spent)
    (hrevoked : txn'.revoked = txn.revoked) : Lineage db txn' data := by
  cases h with
  | start fresh drawn first code =>
    exact .start fresh (hlocks _ drawn) first fun c hc ↦ hspent.trans (code c hc)
  | rotation parent mem live revoked familyId userId oauthClientId previous code user client =>
    exact .rotation parent mem live (hrevoked.trans revoked) familyId userId oauthClientId previous
      code (hlocks _ user) (hlocks _ client)

section Beside

variable (hcompat : Compatible txn.held other.held)

include hcompat

/-- A code spent in another transaction was not spent by this one. -/
theorem spent_ne {c : Uuid} (h : txn.spent = some c) : other.spent ≠ some c :=
  fun h' ↦ hcompat.not_mem (Txn.code_mem_held h) (Txn.code_mem_held h')

/-- A family that this transaction is starting has no row after another transaction's commit. -/
theorem not_hasFamily_commit {f : Uuid} (hdrawn : (.family f, .exclusive) ∈ txn.locks)
    (hfresh : ¬ db.HasFamily f) (hother : other.Ok db) : ¬ (db.commit other).HasFamily f := by
  rintro ⟨r, hr, hfamily⟩
  rcases of_mem_commit hr with ⟨old, hold, ⟨-, hdata, -⟩, -⟩ | hrow
  · rw [hdata] at hfamily
    exact hfresh ⟨old, hold, hfamily⟩
  · cases hother.lineage r hrow with
    | start fresh drawn =>
      rw [hfamily] at drawn
      exact hcompat.not_mem (Txn.mem_held_of_mem_locks hdrawn) (Txn.mem_held_of_mem_locks drawn)
    | rotation parent mem live revoked familyId =>
      exact hfresh ⟨parent, mem, familyId.symm.trans hfamily⟩

/-- A row a transaction is to insert keeps its place beside another transaction's commit. -/
theorem Lineage.commit {data : NewRefreshToken} (h : Lineage db txn data) (hother : other.Ok db) :
    Lineage (db.commit other) txn data := by
  cases h with
  | start fresh drawn first code =>
    exact .start (not_hasFamily_commit hcompat drawn fresh hother) drawn first code
  | rotation parent mem live revoked familyId userId oauthClientId previous code user client =>
    refine .rotation parent ?_ live revoked familyId userId oauthClientId previous code user client
    refine mem_commit_of_not_mem mem fun hin ↦ ?_
    have hown : parent.id ∈ txn.revoked := by
      rw [revoked]
      exact List.mem_singleton_self _
    exact hcompat.not_mem (Txn.token_mem_held hown) (Txn.token_mem_held hin)

/-- A commit keeps every other transaction well formed. -/
theorem Txn.Ok.commit (htxn : txn.Ok db) (hother : other.Ok db) : txn.Ok (db.commit other) where
  spent c hc := (htxn.spent c hc).commit (spent_ne hcompat hc)
  unique row hrow r hr := by
    rcases of_mem_commit hr with ⟨old, hold, ⟨hid, hdata, -⟩, -⟩ | hother'
    · rw [hid, hdata]
      exact htxn.unique row hrow old hold
    · obtain ⟨hid, hhash⟩ := Txn.inserted_mem_held hrow
      obtain ⟨hid', hhash'⟩ := Txn.inserted_mem_held hother'
      constructor
      · intro heq
        rw [heq] at hid'
        exact hcompat.not_mem hid hid'
      · intro heq
        rw [heq] at hhash'
        exact hcompat.not_mem hhash hhash'
  unrevoked := htxn.unrevoked
  lineage row hrow := (htxn.lineage row hrow).commit hcompat hother

end Beside

end Commit

end QAuth.Grants
