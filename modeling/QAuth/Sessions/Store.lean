import Mathlib.Data.Prod.Lex
import Mathlib.Data.String.Basic
import QAuth.Foundation.Locks
import QAuth.Foundation.Table
import QAuth.Foundation.Text
import QAuth.Token.CodeGrant

/-!
# The tables of browser sessions

The rows and the statements of `repositories/sessions.repository.ts`: the sessions, the registry of
the clients each session served (`session_clients`) and the codes issued under a session, inside
READ COMMITTED transactions. A statement reads the committed rows, what it writes stays in the
transaction until the commit, and a written or locked row is held until then (`Locks`).

A client is never deleted here, and keeps its realm; its logout URI may change at any time.
-/

namespace QAuth.Sessions

open QAuth.Token Locks Table

/-! ### Rows -/

/-- `SESSION_REVOKED_REASONS`. -/
inductive SessionRevokedReason
  | signOut | signOutEverywhere | admin | reset | keyRetired | browserLimit | idle | expired
deriving DecidableEq

def SessionRevokedReason.text : SessionRevokedReason → String
  | .signOut => "sign_out"
  | .signOutEverywhere => "sign_out_everywhere"
  | .admin => "admin"
  | .reset => "reset"
  | .keyRetired => "key_retired"
  | .browserLimit => "browser_limit"
  | .idle => "idle"
  | .expired => "expired"

/-- The session limits of a realm, in seconds. -/
structure Realm where
  id : Uuid
  ssoMaxLifespan : Option ℕ
  ssoIdleTimeout : Option ℕ

/-- What a revocation reads of a client. -/
structure OAuthClient where
  id : Uuid
  realmId : Uuid
  clientId : String
  name : String
  backchannelLogoutUri : Option String

/-- A row of `sessions`. Times are in milliseconds. -/
structure Session where
  id : Uuid
  realmId : Uuid
  userId : Uuid
  expiresAt : ℕ
  revokedAt : Option ℕ
  revokedReason : Option SessionRevokedReason
  createdAt : ℕ
  lastSeenAt : ℕ

/-- A row of `session_clients`. -/
structure SessionClient where
  sessionId : Uuid
  oauthClientId : Uuid
  firstSeenAt : ℕ
deriving DecidableEq

/-- The primary key of a registry row. -/
def SessionClient.key (row : SessionClient) : Uuid × Uuid := (row.sessionId, row.oauthClientId)

/-- A `user.client_session_ended` event. -/
structure ClientSessionEnded where
  realm : Uuid
  subject : Uuid
  client : String
  sid : Uuid
  reason : String
deriving DecidableEq

/-- The committed rows. -/
structure Tables where
  realms : List Realm
  clients : List OAuthClient
  sessions : List Session
  registry : List SessionClient
  codes : List AuthorizationCode
  events : List ClientSessionEnded

/-! ### Which sessions a revocation ends -/

/-- The sessions a revocation selects: `revoke`, `revokeForUser`, `revokeRealmBatch` and
`revokeLapsedBatch`, each with its filter or its batch. -/
inductive Selection
  | one (realmId id : Uuid) (userId : Option Uuid)
  | ofUser (realmId userId : Uuid) (exceptId : Option Uuid) (createdBefore : Option ℕ)
  | ofRealm (realmId : Uuid) (after : Option Uuid) (createdThrough : ℕ) (activeSince : Option ℕ)
    (limit : ℕ)
  | lapsed (now defaultMaxLifespanMs : ℕ) (after : Option Uuid) (limit : ℕ)

/-- `absoluteEnd` of `revokeLapsedBatch`. -/
def absoluteEnd (defaultMaxLifespanMs : ℕ) (realm : Realm) (session : Session) : ℕ :=
  min session.expiresAt
    (session.createdAt + (realm.ssoMaxLifespan.map (· * 1000)).getD defaultMaxLifespanMs)

/-- `idleEnd` of `revokeLapsedBatch`: `NULL` where the realm has no idle limit. -/
def idleEnd (realm : Realm) (session : Session) : Option ℕ :=
  realm.ssoIdleTimeout.map fun limit ↦ session.lastSeenAt + limit * 1000

/-- `lapsed` of `revokeLapsedBatch`. -/
def isLapsed (now defaultMaxLifespanMs : ℕ) (realm : Realm) (session : Session) : Bool :=
  absoluteEnd defaultMaxLifespanMs realm session ≤ now ||
    (idleEnd realm session).any (· ≤ now)

def Tables.realmOf (db : Tables) (session : Session) : Option Realm :=
  db.realms.find? (·.id = session.realmId)

/-- The `WHERE` of a revocation, but for `revoked_at IS NULL`. -/
def Selection.selects (db : Tables) : Selection → Session → Bool
  | .one realmId id userId, session =>
    session.realmId = realmId ∧ session.id = id ∧ ∀ u ∈ userId, session.userId = u
  | .ofUser realmId userId exceptId createdBefore, session =>
    session.realmId = realmId ∧ session.userId = userId ∧ (∀ id ∈ exceptId, session.id ≠ id) ∧
      ∀ t ∈ createdBefore, session.createdAt < t
  | .ofRealm realmId after createdThrough activeSince _, session =>
    session.realmId = realmId ∧ (∀ id ∈ after, id < session.id) ∧
      session.createdAt ≤ createdThrough ∧ ∀ t ∈ activeSince, t ≤ session.lastSeenAt
  | .lapsed now defaultMaxLifespanMs after _, session =>
    (∀ id ∈ after, id < session.id) ∧
      ∃ realm ∈ db.realmOf session, isLapsed now defaultMaxLifespanMs realm session = true

/-- The `LIMIT` of a revocation. -/
def Selection.limit : Selection → Option ℕ
  | .one _ _ _ | .ofUser _ _ _ _ => none
  | .ofRealm _ _ _ _ limit | .lapsed _ _ _ limit => some limit

/-- The `UPDATE` of a revocation, of a row that is not revoked; `none` where its `WHERE`
leaves the row out. That of `revokeLapsedBatch` asks again whether the session has lapsed, and
names the end that came first. -/
def Selection.update (db : Tables) (endedAt : ℕ) (reason : SessionRevokedReason) :
    Selection → Session → Option Session
  | .lapsed now defaultMaxLifespanMs _ _, session => do
    let realm ← db.realmOf session
    if isLapsed now defaultMaxLifespanMs realm session then
      let idleFirst := (idleEnd realm session).any
        (· < absoluteEnd defaultMaxLifespanMs realm session)
      some { session with
        revokedAt := some now
        revokedReason := some (if idleFirst then .idle else .expired) }
    else none
  | _, session => some { session with revokedAt := some endedAt, revokedReason := some reason }

/-! ### What a revocation reads and returns -/

/-- `SessionClientDetail`. -/
structure SessionClientDetail extends SessionClient where
  clientId : String
  clientName : String

/-- `ClientDetailWithLogout`. -/
structure ClientDetailWithLogout where
  detail : SessionClientDetail
  notify : Bool

/-- The detail of one registry row. -/
def clientDetail (clients : List OAuthClient) (ended : List Session) (row : SessionClient) :
    Option ClientDetailWithLogout := do
  let client ← clients.find? (·.id = row.oauthClientId)
  let session ← ended.find? (·.id = row.sessionId)
  if client.realmId = session.realmId then
    some ⟨⟨row, client.clientId, client.name⟩, client.backchannelLogoutUri.isSome⟩
  else none

/-- `withClientDetails`, with the realms of the sessions `ended`. -/
def withClientDetails (clients : List OAuthClient) (ended : List Session)
    (rows : List SessionClient) : List ClientDetailWithLogout :=
  orderBy
    (fun client ↦ toLex (client.detail.firstSeenAt,
      toLex (client.detail.sessionId, client.detail.oauthClientId)))
    (rows.filterMap (clientDetail clients ended))

/-- A session that a revocation ended, with the clients it served. -/
structure Ending where
  session : Session
  clients : List ClientDetailWithLogout

def endings (ended : List Session) (clients : List ClientDetailWithLogout) : List Ending :=
  (orderBy Session.id ended).map fun session ↦
    ⟨session, clients.filter fun client ↦ client.detail.sessionId = session.id⟩

/-- `RevokedSession`. -/
structure RevokedSession where
  session : Session
  clients : List SessionClientDetail

/-- What the revocation returns of an ending. -/
def Ending.returned (ending : Ending) : RevokedSession :=
  ⟨ending.session, ending.clients.map (·.detail)⟩

/-- The events of an ending: one for each client it served that has a logout URI. -/
def Ending.notices (ending : Ending) : List ClientSessionEnded :=
  (ending.clients.filter (·.notify)).map fun client ↦
    ⟨ending.session.realmId, ending.session.userId, client.detail.clientId, ending.session.id,
      (ending.session.revokedReason.map SessionRevokedReason.text).getD "unknown"⟩

/-! ### Transactions -/

/-- What a transaction holds until it ends. -/
inductive Resource
  | session (id : Uuid)
  /-- A row of `session_clients`, or its entry in the primary key. -/
  | registry (key : Uuid × Uuid)
  /-- A row of `authorization_codes`, or its entry in the primary key. -/
  | code (id : Uuid)
deriving DecidableEq

/-- An open transaction: its locks, the sessions it ended, with what it did about them, the row and
the code it inserted, and the sessions it deleted. -/
structure Txn where
  locks : List (Resource × Mode)
  ended : List Session
  removed : List SessionClient
  spent : List Uuid
  inserted : Option SessionClient
  code : Option AuthorizationCode
  deleted : List Uuid
  events : List ClientSessionEnded

/-- A transaction that has just begun. -/
def Txn.empty : Txn := ⟨[], [], [], [], none, none, [], []⟩

/-- The transaction takes one more key. -/
def Txn.lock (txn : Txn) (resource : Resource) (mode : Mode) : Txn :=
  { txn with locks := (resource, mode) :: txn.locks }

@[simp] theorem Txn.mem_locks_lock {txn : Txn} {resource : Resource} {mode : Mode}
    {x : Resource × Mode} :
    x ∈ (txn.lock resource mode).locks ↔ x = (resource, mode) ∨ x ∈ txn.locks :=
  List.mem_cons

namespace Tables

/-- What the update of `txn` makes of a session. -/
def endSession (txn : Txn) (session : Session) : Session :=
  match txn.ended.find? (·.id = session.id) with
  | some ended =>
    { session with revokedAt := ended.revokedAt, revokedReason := ended.revokedReason }
  | none => session

/-- What `txn` makes of a code: spent with its session, or without a session once that is deleted. -/
def endCode (txn : Txn) (code : AuthorizationCode) : AuthorizationCode :=
  { code with
    used := code.used || txn.spent.contains code.id
    sessionId := code.sessionId.filter fun id ↦ !txn.deleted.contains id }

/-- The committed rows once `txn` has committed; deleting a session deletes its registry rows. -/
def commit (db : Tables) (txn : Txn) : Tables :=
  { db with
    sessions := (db.sessions.map (endSession txn)).filter fun session ↦
      !txn.deleted.contains session.id
    registry := (db.registry.filter fun row ↦
      !txn.removed.contains row && !txn.deleted.contains row.sessionId) ++ txn.inserted.toList
    codes := db.codes.map (endCode txn) ++ txn.code.toList
    events := db.events ++ txn.events }

end Tables

end QAuth.Sessions
