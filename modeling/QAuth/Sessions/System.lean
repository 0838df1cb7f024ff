import QAuth.Foundation.Run
import QAuth.Sessions.Store

/-!
# Recording clients and ending sessions, side by side

The mint of an authorization code under a session (`recordClient`, then the code), the revocations,
the deletion of ended sessions and the redemption of a code as tasks of one transition system. A
task makes one statement at a time; a statement that waits for a row is made when the lock manager
grants it the row, and then reads the row again. Between two statements anything may happen, and a
transaction may end without a commit wherever it is open.

The state also keeps what no row keeps: the registry rows ever committed and the sessions ever
ended, with what each revocation returned.
-/

namespace QAuth.Sessions

open QAuth.Token Locks Table Transition

/-! ### Tasks -/

/-- A code to be minted under a session. -/
structure Mint where
  realmId : Uuid
  sessionId : Uuid
  oauthClientId : Uuid
  code : AuthorizationCode

/-- Where `mintIn` stands. -/
inductive MintStage
  | begun
  /-- `recordClient` has read a live session, and waits for its share lock. -/
  | selected (now : ℕ)
  | locked
  | recorded
  | minted

/-- A revocation, with its reading of the clock. -/
structure Revocation where
  selection : Selection
  reason : SessionRevokedReason
  endedAt : ℕ

/-- Where a revocation stands. -/
inductive RevokeStage
  | begun
  /-- The rows that the select has read and not yet locked, and those it has locked. -/
  | locking (todo locked : List Uuid)
  | updated
  | removed
  | detailed (clients : List ClientDetailWithLogout)
  /-- The codes that the update has read and not yet locked. -/
  | spending (clients : List ClientDetailWithLogout) (todo : List Uuid)
  | finished (clients : List ClientDetailWithLogout)

/-- Where `deleteEnded` stands. -/
inductive DeleteStage
  | begun (after : Option Uuid) (limit : ℕ)
  | doomed (ids : List Uuid)
  /-- The rows that the delete has read and not yet locked. -/
  | deleting (todo : List Uuid)

/-- Where a task stands. -/
inductive Program
  | minting (mint : Mint) (stage : MintStage)
  | revoking (job : Revocation) (stage : RevokeStage)
  /-- `deleteEnded` of the sessions that ended before a time. -/
  | deleting (before : ℕ) (stage : DeleteStage)
  /-- A code that a redemption or a logout spends; `true` once it has tried. -/
  | spending (codeId : Uuid) (tried : Bool)
  | ended

/-- A task: its open transaction, and where it stands. -/
structure Task where
  txn : Txn
  program : Program

/-- What a task holds. -/
def Task.held (task : Task) : List (Resource × Mode) := task.txn.locks

/-! ### State -/

/-- The clock, the committed rows and the tasks; the ids given to sessions so far, the registry rows
that were ever committed, and the sessions that were ever ended. -/
structure State where
  now : ℕ
  db : Tables
  tasks : List Task
  created : List Uuid
  recorded : List (Uuid × Uuid)
  endings : List Ending

/-- Nothing has happened yet. -/
def State.Initial (s : State) : Prop :=
  s.db = ⟨[], [], [], [], [], []⟩ ∧ s.tasks = [] ∧ s.created = [] ∧ s.recorded = [] ∧ s.endings = []

/-- A new task, which has no transaction yet. -/
def State.start (s : State) (program : Program) : State :=
  { s with tasks := s.tasks ++ [⟨.empty, program⟩] }

/-! ### Statements -/

/-- The live session that `recordClient` selects, with a client of its realm. -/
def Tables.isLive (db : Tables) (mint : Mint) (now : ℕ) : Bool :=
  db.sessions.any fun session ↦
    session.realmId = mint.realmId ∧ session.id = mint.sessionId ∧ session.revokedAt = none ∧
      now < session.expiresAt ∧
      ∃ client ∈ db.clients, client.id = mint.oauthClientId ∧ client.realmId = session.realmId

/-- The next statement of `mintIn`. -/
def mintCall (s : State) (txn : Txn) (mint : Mint) (stage : MintStage) : Option Task :=
  match stage with
  | .begun =>
    if s.db.isLive mint s.now then some ⟨txn, .minting mint (.selected s.now)⟩
    else some ⟨.empty, .ended⟩
  -- The share lock, and the condition again on the row as it is then.
  | .selected now =>
    if s.db.isLive mint now then
      some ⟨txn.lock (.session mint.sessionId) .shared, .minting mint .locked⟩
    else some ⟨.empty, .ended⟩
  -- `onConflictDoNothing`.
  | .locked =>
    let row : SessionClient := ⟨mint.sessionId, mint.oauthClientId, s.now⟩
    some ⟨{ txn.lock (.registry row.key) .exclusive with
      inserted := if row.key ∈ s.db.registry.map SessionClient.key then none else some row },
      .minting mint .recorded⟩
  | .recorded =>
    if ∀ other ∈ s.db.codes, other.id ≠ mint.code.id then
      some ⟨{ txn.lock (.code mint.code.id) .exclusive with
        code := some { mint.code with sessionId := some mint.sessionId, used := false } },
        .minting mint .minted⟩
    else none
  | .minted => none

def Tables.selected (db : Tables) (selection : Selection) : List Uuid :=
  (orderBy Session.id (db.sessions.filter fun session ↦
    session.revokedAt = none ∧ selection.selects db session = true)).map Session.id

def Tables.updateLocked (db : Tables) (job : Revocation) (locked : List Uuid) : List Session :=
  db.sessions.filterMap fun session ↦
    if session.id ∈ locked ∧ session.revokedAt = none then
      job.selection.update db job.endedAt job.reason session
    else none

/-- The registry rows of the sessions that `txn` has ended. -/
def Tables.served (db : Tables) (txn : Txn) : List SessionClient :=
  db.registry.filter fun row ↦ row.sessionId ∈ txn.ended.map Session.id

/-- The code is unspent, and of a session that `txn` has ended. -/
def isUnspent (txn : Txn) (code : AuthorizationCode) : Bool :=
  code.used = false ∧ ∃ id ∈ code.sessionId, id ∈ txn.ended.map Session.id

/-- The next statement of a revocation. -/
def revokeCall (s : State) (txn : Txn) (job : Revocation) (stage : RevokeStage) : Option Task :=
  match stage with
  | .begun => some ⟨txn, .revoking job (.locking (s.db.selected job.selection) [])⟩
  | .locking todo locked =>
    match todo with
    | id :: todo =>
      if job.selection.limit = some locked.length then
        some ⟨{ txn with ended := s.db.updateLocked job locked }, .revoking job .updated⟩
      else
        -- The row lock, and the condition again on the row as it is then.
        let selected := s.db.sessions.any fun session ↦
          session.id = id ∧ session.revokedAt = none ∧ job.selection.selects s.db session = true
        some ⟨txn.lock (.session id) .exclusive,
          .revoking job (.locking todo (if selected then locked ++ [id] else locked))⟩
    | [] => some ⟨{ txn with ended := s.db.updateLocked job locked }, .revoking job .updated⟩
  -- `finishEnded`.
  | .updated =>
    if txn.ended = [] then some ⟨txn, .revoking job (.finished [])⟩
    else some ⟨{ txn with removed := s.db.served txn }, .revoking job .removed⟩
  | .removed =>
    some ⟨txn, .revoking job
      (.detailed (withClientDetails s.db.clients txn.ended txn.removed))⟩
  | .detailed clients =>
    some ⟨txn, .revoking job
      (.spending clients ((s.db.codes.filter (isUnspent txn)).map (·.id)))⟩
  | .spending clients (id :: todo) =>
    let unspent := s.db.codes.any fun code ↦ code.id = id ∧ isUnspent txn code = true
    some ⟨{ txn.lock (.code id) .exclusive with
      spent := if unspent then id :: txn.spent else txn.spent },
      .revoking job (.spending clients todo)⟩
  | .spending clients [] =>
    some ⟨{ txn with events := (endings txn.ended clients).flatMap Ending.notices },
      .revoking job (.finished clients)⟩
  | .finished _ => none

def Session.endedBefore (before : ℕ) (session : Session) : Bool := session.revokedAt.any (· < before)

/-- The next statement of `deleteEnded`. -/
def deleteCall (s : State) (txn : Txn) (before : ℕ) (stage : DeleteStage) : Option Task :=
  match stage with
  | .begun after limit =>
    let doomed := orderBy Session.id (s.db.sessions.filter fun session ↦
      (∀ id ∈ after, id < session.id) ∧ session.endedBefore before = true)
    some ⟨txn, .deleting before (.doomed ((doomed.take limit).map Session.id))⟩
  | .doomed ids =>
    some ⟨txn, .deleting before (.deleting ((s.db.sessions.filter fun session ↦
      session.id ∈ ids ∧ session.endedBefore before = true).map Session.id))⟩
  | .deleting (id :: todo) =>
    let ended := s.db.sessions.any fun session ↦
      session.id = id ∧ session.endedBefore before = true
    some ⟨{ txn.lock (.session id) .exclusive with
      deleted := if ended then id :: txn.deleted else txn.deleted },
      .deleting before (.deleting todo)⟩
  | .deleting [] => none

/-- The compare-and-set that spends one code. -/
def spendCall (s : State) (txn : Txn) (codeId : Uuid) : Task :=
  let unspent := s.db.codes.any fun code ↦ code.id = codeId ∧ code.used = false
  ⟨{ txn.lock (.code codeId) .exclusive with
    spent := if unspent then codeId :: txn.spent else txn.spent }, .spending codeId true⟩

/-- The next statement of a task. -/
def Task.call (s : State) (task : Task) : Option Task :=
  match task.program with
  | .minting mint stage => mintCall s task.txn mint stage
  | .revoking job stage => revokeCall s task.txn job stage
  | .deleting before stage => deleteCall s task.txn before stage
  | .spending codeId false => some (spendCall s task.txn codeId)
  | .spending _ true | .ended => none

/-- The transaction of the program has made all its statements. -/
def Program.complete : Program → Bool
  | .minting _ .minted | .revoking _ (.finished _) | .deleting _ (.deleting [])
  | .spending _ true => true
  | _ => false

/-- The endings that a task commits. -/
def Task.endings (task : Task) : List Ending :=
  match task.program with
  | .revoking _ (.finished clients) => Sessions.endings task.txn.ended clients
  | _ => []

/-! ### Steps -/

/-- What happens: the clock moves, a row is written by another part of the program, a task arrives,
or a task makes its next statement, commits, or ends without a commit. -/
inductive Action
  | tick (ms : ℕ)
  /-- The settings of a realm are written. -/
  | setRealm (realm : Realm)
  | register (client : OAuthClient)
  /-- The logout URI of a client is written. -/
  | setLogoutUri (id : Uuid) (uri : Option String)
  /-- A session is created, under a new id. -/
  | create (session : Session)
  /-- `updateLastSeen`. -/
  | updateLastSeen (realmId id : Uuid) (minIntervalMs : ℕ)
  | mintPlain (code : AuthorizationCode)
  | mint (mint : Mint)
  | revoke (selection : Selection) (reason : SessionRevokedReason)
  | deleteEnded (before : ℕ) (after : Option Uuid) (limit : ℕ)
  | spend (codeId : Uuid)
  | call (i : ℕ)
  | commit (i : ℕ)
  | rollback (i : ℕ)

/-- The clients once the logout URI of one was written. -/
def setLogoutUri (id : Uuid) (uri : Option String) (clients : List OAuthClient) :
    List OAuthClient :=
  updateWhere (fun client ↦ client.id = id)
    (fun client ↦ { client with backchannelLogoutUri := uri }) clients

/-- The row that `updateLastSeen` writes. -/
def Session.seen (now : ℕ) (session : Session) : Session := { session with lastSeenAt := now }

/-- The `WHERE` of `updateLastSeen`. -/
def Session.isSeen (realmId id : Uuid) (now minIntervalMs : ℕ) (session : Session) : Bool :=
  session.realmId = realmId ∧ session.id = id ∧ session.revokedAt = none ∧
    now < session.expiresAt ∧ session.lastSeenAt + minIntervalMs ≤ now

/-- The sessions after `updateLastSeen`. -/
def updateLastSeen (realmId id : Uuid) (now minIntervalMs : ℕ) (sessions : List Session) :
    List Session :=
  updateWhere (Session.isSeen realmId id now minIntervalMs) (Session.seen now) sessions

/-- The `i`th task makes its next statement, once it is granted what it then holds. -/
def State.call (s : State) (i : ℕ) : Option State := do
  let task ← s.tasks[i]?
  let task ← task.call s
  if Grants Task.held s.tasks i task then some { s with tasks := s.tasks.set i task } else none

/-- The `i`th task commits its transaction. -/
def State.commit (s : State) (i : ℕ) : Option State := do
  let task ← s.tasks[i]?
  if task.program.complete then
    some { s with
      db := s.db.commit task.txn
      tasks := s.tasks.set i ⟨.empty, .ended⟩
      recorded := s.recorded ++ task.txn.inserted.toList.map SessionClient.key
      endings := s.endings ++ task.endings }
  else none

/-- One step; `none` where the action is not possible now. -/
def step (s : State) : Action → Option State
  | .tick ms => some { s with now := s.now + ms }
  | .setRealm realm =>
    some { s with db := { s.db with
      realms := realm :: s.db.realms.filter fun other ↦ other.id ≠ realm.id } }
  | .register client =>
    if ∀ other ∈ s.db.clients, other.id ≠ client.id then
      some { s with db := { s.db with clients := s.db.clients ++ [client] } }
    else none
  | .setLogoutUri id uri =>
    some { s with db := { s.db with clients := setLogoutUri id uri s.db.clients } }
  | .create session =>
    if session.id ∉ s.created ∧ session.revokedAt = none ∧ session.revokedReason = none then
      some { s with
        db := { s.db with sessions := s.db.sessions ++ [session] }
        created := session.id :: s.created }
    else none
  | .updateLastSeen realmId id minIntervalMs =>
    -- The row is written at once, when no transaction holds it.
    if ∀ task ∈ s.tasks, Compatible [(.session id, .exclusive)] task.held then
      some { s with db := { s.db with
        sessions := updateLastSeen realmId id s.now minIntervalMs s.db.sessions } }
    else none
  | .mintPlain code =>
    if code.sessionId = none ∧ (∀ other ∈ s.db.codes, other.id ≠ code.id) ∧
        ∀ task ∈ s.tasks, Compatible [(.code code.id, .exclusive)] task.held then
      some { s with db := { s.db with codes := s.db.codes ++ [code] } }
    else none
  | .mint mint => some (s.start (.minting mint .begun))
  | .revoke selection reason => some (s.start (.revoking ⟨selection, reason, s.now⟩ .begun))
  | .deleteEnded before after limit => some (s.start (.deleting before (.begun after limit)))
  | .spend codeId => some (s.start (.spending codeId false))
  | .call i => s.call i
  | .commit i => s.commit i
  | .rollback i =>
    if i < s.tasks.length then some { s with tasks := s.tasks.set i ⟨.empty, .ended⟩ } else none

/-- The store as a transition system. -/
def system : System State Action where
  initial := State.Initial
  step := step

end QAuth.Sessions
