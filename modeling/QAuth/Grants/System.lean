import QAuth.Foundation.Run
import QAuth.Grants.AccessRecords
import QAuth.Grants.Revocation

/-!
# Token requests and revocations, side by side

The code grant, the refresh grant, the login, the revocations and the replay handling of the token
endpoint as tasks of one transition system. A task stands between two calls of its handler; an
action makes one call of one task: a statement of its database transaction, its commit, or a call
to Redis. The tasks take their turns in any order, and a call that waits for a lock is made when the
lock manager grants it.

A transaction may end without a commit wherever it is open (a failed statement, a deadlock, a
crash). The random values a task draws are part of the action, and never repeat an earlier one.
-/

namespace QAuth.Grants

open QAuth.Token Locks Transition

/-! ### Tasks -/

/-- What a grant consumes. -/
inductive Spends
  | code (code : AuthorizationCode)
  | token (stored : RefreshToken)
  /-- A login, which starts a family of its own. -/
  | nothing

/-- What a transaction that issues tokens is to spend, store and sign. -/
structure Plan where
  spends : Spends
  refresh : Option NewRefreshToken
  payload : Option SignPayload

def redemptionPlan (redemption : Redemption) : Plan :=
  ⟨.code redemption.code, redemption.refresh, some redemption.payload⟩

def rotationPlan (rotation : Rotation) : Plan :=
  ⟨.token rotation.stored, some rotation.refresh, some rotation.payload⟩

/-- The grant an access token of the plan is recorded under. -/
def Plan.grant (plan : Plan) : AccessTokenGrant :=
  match plan.spends with
  | .code code => ⟨some code.id, plan.refresh.map (·.familyId)⟩
  | .token stored => ⟨none, some stored.familyId⟩
  | .nothing => ⟨none, none⟩

/-- Where the transaction of a grant stands. -/
inductive Stage
  | begun | userLocked | clientLocked | spent | createLocked | inserted
  | recorded (token : AccessToken)
  /-- Committed; a login issues no access token here. -/
  | issued (token : Option AccessToken)
deriving DecidableEq

/-- A revocation; that of a replay goes on to the access tokens. -/
structure Revocation where
  target : Target
  reason : String
  replay : Bool
deriving DecidableEq

/-- Where a revocation stands. Times are readings of the clock. -/
inductive RevokeStage
  | begun (now : ℕ)
  | locked (now : ℕ)
  | located (now : ℕ) (family : Option Uuid)
  | updating (now : ℕ) (family : Option Uuid) (todo : List Uuid)
  /-- Committed. -/
  | revoked (family : Option Uuid)
  /-- `revokeGrantAccessTokens` reads the records. -/
  | reading (family : Option Uuid) (now : ℕ) (keys : List RecordKey) (live : List (String × ℕ))
  /-- It writes the denylist. -/
  | denying (family : Option Uuid) (now : ℕ) (live : List (String × ℕ))
  /-- The request is answered. -/
  | answered (family : Option Uuid)

/-- Where a task stands. -/
inductive Program
  /-- A redemption that has read its code. -/
  | redeeming (ctx : HandlerContext) (body : CodeBody) (code : Option AuthorizationCode)
  /-- A refresh that has read its token. -/
  | refreshing (ctx : HandlerContext) (body : RefreshBody) (presentedHash : String)
      (stored : Option RefreshToken)
  /-- A login that is to store its refresh token. -/
  | loggingIn (data : NewRefreshToken)
  /-- `markUsed` on its own: a refused redemption, a logout, a withdrawn consent. -/
  | burning (codeId : Uuid)
  | granting (plan : Plan) (stage : Stage)
  | revoking (job : Revocation) (stage : RevokeStage)
  | ended

/-- A task: its open transaction, and where it stands. -/
structure Task where
  txn : Txn
  program : Program

/-- What a task holds. -/
def Task.held (task : Task) : List (Resource × Mode) := task.txn.held

/-- The keys whose records `revokeGrantAccessTokens` reads for a replay. -/
def Revocation.keys (job : Revocation) (family : Option Uuid) : List RecordKey :=
  recordKeys ⟨match job.target with | .code c => some c | _ => none, family⟩

/-! ### State -/

/-- The whole deployment: the clock in milliseconds, the committed rows, Redis, the access tokens
signed so far, and the tasks. -/
structure State where
  now : ℕ
  db : Tables
  redis : Redis
  signed : List AccessToken
  tasks : List Task

/-- Nothing has happened yet. -/
def State.Initial (s : State) : Prop :=
  s.db = ⟨[], []⟩ ∧ s.redis = .empty ∧ s.signed = [] ∧ s.tasks = []

/-- A new task, which has no transaction yet. -/
def State.start (s : State) (program : Program) : State :=
  { s with tasks := s.tasks ++ [⟨.empty, program⟩] }

/-- The `i`th task goes on as `task`, once the lock manager grants what it then holds. -/
def State.put (s : State) (i : ℕ) (task : Task) : Option State :=
  if Grants Task.held s.tasks i task then some { s with tasks := s.tasks.set i task } else none

/-! ### Calls -/

/-- What the environment gives a call: what the checks read beside the store, or a new row's id. -/
inductive Input
  | call
  | code (reads : CodeReads)
  | token (reads : RefreshReads)
  | row (id : Uuid)

/-- The random family id that a plan draws, if it starts a family. -/
def Plan.drawn (plan : Plan) : List (Resource × Mode) :=
  match plan.spends with
  | .token _ => []
  | .code _ | .nothing =>
    plan.refresh.toList.map fun data ↦ (.family data.familyId, .exclusive)

/-- The transaction of a plan begins; the family it starts is a new one. -/
def Plan.begin (db : Tables) (plan : Plan) (stage : Stage) : Option Task :=
  if ∀ data ∈ plan.refresh, plan.drawn ≠ [] → ¬ db.HasFamily data.familyId then
    some ⟨{ Txn.empty with locks := plan.drawn }, .granting plan stage⟩
  else none

/-- The transaction of `rejectCodeReplay` begins. -/
def rejectCodeReplay (now : ℕ) (code : AuthorizationCode) : Task :=
  ⟨.empty, .revoking ⟨.code code.id, "code_replay", true⟩ (.begun now)⟩

/-- The transaction of `rejectRefreshTokenReplay` begins. -/
def rejectRefreshTokenReplay (now : ℕ) (stored : RefreshToken) : Task :=
  ⟨.empty, .revoking ⟨.family stored.familyId, "replay_detected", true⟩ (.begun now)⟩

/-- What a refused redemption does to its code. -/
def afterCodeRefusal (now : ℕ) (code : Option AuthorizationCode) (effect : RefusalEffect) : Task :=
  match effect, code with
  | .codeReplay, some code => rejectCodeReplay now code
  | .burnCode, some code => ⟨.empty, .burning code.id⟩
  | _, _ => ⟨.empty, .ended⟩

/-- What a refused refresh does to its token. -/
def afterRefreshRefusal (now : ℕ) (stored : Option RefreshToken) (effect : RefusalEffect) : Task :=
  match effect, stored with
  | .refreshReplay, some stored => rejectRefreshTokenReplay now stored
  | .expireFamily, some stored =>
    ⟨.empty, .revoking ⟨.family stored.familyId, "family_expired", false⟩ (.begun now)⟩
  | .burnRefreshToken reason, some stored =>
    ⟨.empty, .revoking ⟨.token stored.id, reason, false⟩ (.begun now)⟩
  | _, _ => ⟨.empty, .ended⟩

def checkCode (s : State) (ctx : HandlerContext) (body : CodeBody)
    (code : Option AuthorizationCode) (reads : CodeReads) : Option Task :=
  match checkRedemption ctx body { reads with code := code, now := s.now } with
  | .ok redemption => (redemptionPlan redemption).begin s.db .begun
  | .error refusal => some (afterCodeRefusal s.now code refusal.effect)

def checkToken (s : State) (ctx : HandlerContext) (body : RefreshBody) (presentedHash : String)
    (stored : Option RefreshToken) (reads : RefreshReads) : Option Task :=
  match checkRotation ctx body
      { reads with presentedHash := presentedHash, stored := stored, now := s.now } with
  | .ok rotation => (rotationPlan rotation).begin s.db .begun
  | .error refusal => some (afterRefreshRefusal s.now stored refusal.effect)

/-- The next statement of the transaction of a grant. -/
def grantCall (s : State) (txn : Txn) (plan : Plan) (stage : Stage) (input : Input) :
    Option Task :=
  match stage, plan.spends, input with
  -- `revokeIfActive`: the user's lock, the client's, and the compare-and-set.
  | .begun, .token stored, .call =>
    some ⟨txn.lockUserTokens .shared ((s.db.find stored.id).map (·.userId)),
      .granting plan .userLocked⟩
  | .userLocked, .token stored, .call =>
    some ⟨txn.lockClientTokens .shared ((s.db.find stored.id).map (·.oauthClientId)),
      .granting plan .clientLocked⟩
  | .clientLocked, .token stored, .call =>
    match s.db.revokeIfActive txn stored.id "rotated" with
    | some txn => some ⟨txn, .granting plan .spent⟩
    | none => some (rejectRefreshTokenReplay s.now stored)
  -- `markUsed`, whose loser has spent nothing either.
  | .begun, .code code, .call =>
    match s.db.markUsed txn code.id with
    | some txn => some ⟨txn, .granting plan .spent⟩
    | none => some (rejectCodeReplay s.now code)
  -- `create`: the client's lock, and the insert.
  | .spent, _, .call => plan.refresh.map fun data ↦
    ⟨txn.lockClientTokens .shared (some data.oauthClientId), .granting plan .createLocked⟩
  | .createLocked, _, .row id => plan.refresh.bind fun data ↦
    (s.db.create txn data id s.now).map fun txn ↦ ⟨txn, .granting plan .inserted⟩
  | _, _, _ => none

/-- The next call of a revocation, but for the writes to the denylist. -/
def revokeCall (s : State) (txn : Txn) (job : Revocation) (stage : RevokeStage) : Option Task :=
  match stage with
  | .begun now => some ⟨job.target.lock s.db txn, .revoking job (.locked now)⟩
  | .locked now => some ⟨txn, .revoking job (.located now (job.target.familyOf s.db))⟩
  | .located now family =>
    some ⟨txn, .revoking job (.updating now family (s.db.selected now job.target))⟩
  | .updating now family (id :: todo) =>
    some ⟨s.db.touch now job.target job.reason txn id, .revoking job (.updating now family todo)⟩
  | .revoked family =>
    if job.replay then some ⟨txn, .revoking job (.reading family s.now (job.keys family) [])⟩
    else none
  | .reading family now (key :: keys) live =>
    some ⟨txn, .revoking job
      (.reading family now keys (collectLive now (s.redis.hgetall s.now key) live))⟩
  | .reading family now [] live => some ⟨txn, .revoking job (.denying family now live)⟩
  | .denying family _ [] => some ⟨txn, .revoking job (.answered family)⟩
  | .updating _ _ [] | .denying _ _ (_ :: _) | .answered _ => none

/-- The next call of a task that touches nothing but the task. -/
def Task.call (s : State) (task : Task) (input : Input) : Option Task :=
  match task.program, input with
  | .redeeming ctx body code, .code reads => checkCode s ctx body code reads
  | .refreshing ctx body presentedHash stored, .token reads =>
    checkToken s ctx body presentedHash stored reads
  | .loggingIn data, .call => (Plan.mk .nothing (some data) none).begin s.db .spent
  | .burning codeId, .call =>
    match s.db.markUsed task.txn codeId with
    | some txn => some ⟨txn, .burning codeId⟩
    | none => some ⟨.empty, .ended⟩
  | .granting plan stage, input => grantCall s task.txn plan stage input
  | .revoking job stage, .call => revokeCall s task.txn job stage
  | _, _ => none

def Plan.stored (plan : Plan) (stage : Stage) : Bool :=
  stage = .inserted ∨ (stage = .spent ∧ plan.refresh = none)

/-- Where the program stands once its transaction has committed, where that is its next call. -/
def Program.committed : Program → Option Program
  | .granting plan (.recorded token) => some (.granting plan (.issued (some token)))
  | .granting plan .inserted =>
    if plan.payload = none then some (.granting plan (.issued none)) else none
  | .revoking job (.updating _ family []) => some (.revoking job (.revoked family))
  | .burning _ => some .ended
  | _ => none

/-- The program is past its transaction. -/
def Program.settled : Program → Bool
  | .granting _ (.issued _) | .ended => true
  | .revoking _ (.revoked _) | .revoking _ (.reading _ _ _ _) | .revoking _ (.denying _ _ _)
  | .revoking _ (.answered _) => true
  | _ => false

/-! ### Steps -/

/-- What happens: the clock moves, a code is minted, a request or a revocation arrives, or a task
makes its next call. -/
inductive Action
  | tick (ms : ℕ)
  | mint (code : AuthorizationCode)
  /-- A redemption reads the row of its code. -/
  | redeem (ctx : HandlerContext) (body : CodeBody) (codeId : Uuid)
  /-- A refresh reads the row of its token, revoked or not. -/
  | refresh (ctx : HandlerContext) (body : RefreshBody) (presentedHash : String)
  | login (data : NewRefreshToken)
  | burn (codeId : Uuid)
  | revoke (target : Target) (reason : String)
  | call (i : ℕ) (input : Input)
  /-- The access token of a grant is signed and recorded. -/
  | issue (i : ℕ) (jti : String) (signedAt : ℕ)
  /-- A replay puts the next access token on the denylist. -/
  | deny (i : ℕ)
  | commit (i : ℕ)
  | rollback (i : ℕ)

/-- The `i`th task signs its access token, under a new `jti`, and records it. -/
def State.issue (s : State) (i : ℕ) (jti : String) (signedAt : ℕ) : Option State := do
  let task ← s.tasks[i]?
  match task.program with
  | .granting plan stage =>
    let payload ← plan.payload
    let token := signAccessToken payload jti signedAt
    if plan.stored stage ∧ jti ≠ "" ∧ ∀ earlier ∈ s.signed, earlier.jti ≠ some jti then
      some { s with
        redis := recordGrantAccessToken s.redis s.now token plan.grant
        signed := token :: s.signed
        tasks := s.tasks.set i ⟨task.txn, .granting plan (.recorded token)⟩ }
    else none
  | _ => none

/-- The `i`th task puts the next access token it collected on the denylist. -/
def State.deny (s : State) (i : ℕ) : Option State := do
  let task ← s.tasks[i]?
  match task.program with
  | .revoking job (.denying family now ((jti, remaining) :: live)) =>
    some { s with
      redis := revokeJti s.redis s.now jti remaining
      tasks := s.tasks.set i ⟨task.txn, .revoking job (.denying family now live)⟩ }
  | _ => none

/-- The `i`th task commits its transaction. -/
def State.commit (s : State) (i : ℕ) : Option State := do
  let task ← s.tasks[i]?
  let program ← task.program.committed
  some { s with db := s.db.commit task.txn, tasks := s.tasks.set i ⟨.empty, program⟩ }

/-- The transaction of the `i`th task ends without a commit. -/
def State.rollback (s : State) (i : ℕ) : Option State := do
  let task ← s.tasks[i]?
  if task.program.settled then none else some { s with tasks := s.tasks.set i ⟨.empty, .ended⟩ }

/-- One step; `none` where the action is not possible now. -/
def step (s : State) : Action → Option State
  | .tick ms => some { s with now := s.now + ms }
  | .mint code =>
    if code.used = false ∧ ∀ other ∈ s.db.codes, other.id ≠ code.id then
      some { s with db := { s.db with codes := s.db.codes ++ [code] } }
    else none
  | .redeem ctx body codeId =>
    some (s.start (.redeeming ctx body (s.db.codes.find? (·.id = codeId))))
  | .refresh ctx body presentedHash =>
    some (s.start (.refreshing ctx body presentedHash
      (s.db.tokens.find? (·.tokenHash = presentedHash))))
  | .login data =>
    if data.previousTokenHash = none ∧ data.authorizationCodeId = none then
      some (s.start (.loggingIn data))
    else none
  | .burn codeId => some (s.start (.burning codeId))
  | .revoke target reason => some (s.start (.revoking ⟨target, reason, false⟩ (.begun s.now)))
  | .call i input => do
    let task ← s.tasks[i]?
    let task ← task.call s input
    s.put i task
  | .issue i jti signedAt => s.issue i jti signedAt
  | .deny i => s.deny i
  | .commit i => s.commit i
  | .rollback i => s.rollback i

/-- The deployment as a transition system. -/
def system : System State Action where
  initial := State.Initial
  step := step

/-! ### What a step does -/

/-- A task that arrives. -/
inductive Arrival (s : State) : Action → Program → Prop
  | redeem (ctx : HandlerContext) (body : CodeBody) (codeId : Uuid) :
    Arrival s (.redeem ctx body codeId)
      (.redeeming ctx body (s.db.codes.find? (·.id = codeId)))
  | refresh (ctx : HandlerContext) (body : RefreshBody) (presentedHash : String) :
    Arrival s (.refresh ctx body presentedHash)
      (.refreshing ctx body presentedHash (s.db.tokens.find? (·.tokenHash = presentedHash)))
  | login (data : NewRefreshToken) (first : data.previousTokenHash = none)
      (code : data.authorizationCodeId = none) : Arrival s (.login data) (.loggingIn data)
  | burn (codeId : Uuid) : Arrival s (.burn codeId) (.burning codeId)
  | revoke (target : Target) (reason : String) :
    Arrival s (.revoke target reason) (.revoking ⟨target, reason, false⟩ (.begun s.now))

/-- Everything a step may do, with its conditions. -/
inductive Steps (s : State) : Action → State → Prop
  | tick (ms : ℕ) : Steps s (.tick ms) { s with now := s.now + ms }
  | mint (code : AuthorizationCode) (unused : code.used = false)
      (fresh : ∀ other ∈ s.db.codes, other.id ≠ code.id) :
    Steps s (.mint code) { s with db := { s.db with codes := s.db.codes ++ [code] } }
  | start (a : Action) (program : Program) (arrival : Arrival s a program) :
    Steps s a (s.start program)
  | call (i : ℕ) (input : Input) (task task' : Task) (mem : s.tasks[i]? = some task)
      (call : task.call s input = some task') (grants : Grants Task.held s.tasks i task') :
    Steps s (.call i input) { s with tasks := s.tasks.set i task' }
  | issue (i : ℕ) (jti : String) (signedAt : ℕ) (task : Task) (plan : Plan) (stage : Stage)
      (payload : SignPayload) (mem : s.tasks[i]? = some task)
      (program : task.program = .granting plan stage) (signs : plan.payload = some payload)
      (stored : plan.stored stage = true) (named : jti ≠ "")
      (fresh : ∀ earlier ∈ s.signed, earlier.jti ≠ some jti) :
    Steps s (.issue i jti signedAt)
      { s with
        redis := recordGrantAccessToken s.redis s.now (signAccessToken payload jti signedAt)
          plan.grant
        signed := signAccessToken payload jti signedAt :: s.signed
        tasks := s.tasks.set i
          ⟨task.txn, .granting plan (.recorded (signAccessToken payload jti signedAt))⟩ }
  | deny (i : ℕ) (task : Task) (job : Revocation) (family : Option Uuid) (now : ℕ) (jti : String)
      (remaining : ℕ) (live : List (String × ℕ)) (mem : s.tasks[i]? = some task)
      (program : task.program = .revoking job (.denying family now ((jti, remaining) :: live))) :
    Steps s (.deny i)
      { s with
        redis := revokeJti s.redis s.now jti remaining
        tasks := s.tasks.set i ⟨task.txn, .revoking job (.denying family now live)⟩ }
  | commit (i : ℕ) (task : Task) (program : Program) (mem : s.tasks[i]? = some task)
      (committed : task.program.committed = some program) :
    Steps s (.commit i)
      { s with db := s.db.commit task.txn, tasks := s.tasks.set i ⟨.empty, program⟩ }
  | rollback (i : ℕ) (task : Task) (mem : s.tasks[i]? = some task)
      (unsettled : task.program.settled = false) :
    Steps s (.rollback i) { s with tasks := s.tasks.set i ⟨.empty, .ended⟩ }

section Steps

variable {s t : State}

theorem steps_of_issue {i : ℕ} {jti : String} {signedAt : ℕ}
    (h : s.issue i jti signedAt = some t) : Steps s (.issue i jti signedAt) t := by
  obtain ⟨task, hmem, h⟩ := Option.bind_eq_some_iff.mp h
  split at h
  · rename_i plan stage hprogram
    obtain ⟨payload, hpayload, h⟩ := Option.bind_eq_some_iff.mp h
    split_ifs at h with hguard
    rw [← Option.some.inj h]
    exact .issue i jti signedAt task plan stage payload hmem hprogram hpayload hguard.1 hguard.2.1
      hguard.2.2
  · cases h

theorem steps_of_deny {i : ℕ} (h : s.deny i = some t) : Steps s (.deny i) t := by
  obtain ⟨task, hmem, h⟩ := Option.bind_eq_some_iff.mp h
  split at h
  · rename_i job family now jti remaining live hprogram
    rw [← Option.some.inj h]
    exact .deny i task job family now jti remaining live hmem hprogram
  · cases h

theorem steps_of_commit {i : ℕ} (h : s.commit i = some t) : Steps s (.commit i) t := by
  obtain ⟨task, hmem, h⟩ := Option.bind_eq_some_iff.mp h
  obtain ⟨program, hcommitted, h⟩ := Option.bind_eq_some_iff.mp h
  rw [← Option.some.inj h]
  exact .commit i task program hmem hcommitted

theorem steps_of_rollback {i : ℕ} (h : s.rollback i = some t) : Steps s (.rollback i) t := by
  obtain ⟨task, hmem, h⟩ := Option.bind_eq_some_iff.mp h
  split_ifs at h with hsettled
  rw [← Option.some.inj h]
  exact .rollback i task hmem (by simpa using hsettled)

/-- A call of a revocation is its next statement. -/
theorem revokeCall_of_call {txn : Txn} {job : Revocation} {stage : RevokeStage} {input : Input}
    {task : Task} (h : Task.call s ⟨txn, .revoking job stage⟩ input = some task) :
    revokeCall s txn job stage = some task := by
  cases input with
  | call => exact h
  | code reads => cases h
  | token reads => cases h
  | row id => cases h

/-- What an executed step did. -/
theorem steps_of_step {a : Action} (h : step s a = some t) : Steps s a t := by
  cases a with
  | tick ms =>
    rw [← Option.some.inj h]
    exact .tick ms
  | mint code =>
    rw [step] at h
    split_ifs at h with hguard
    rw [← Option.some.inj h]
    exact .mint code hguard.1 hguard.2
  | redeem ctx body codeId =>
    rw [← Option.some.inj h]
    exact .start _ _ (.redeem ctx body codeId)
  | refresh ctx body presentedHash =>
    rw [← Option.some.inj h]
    exact .start _ _ (.refresh ctx body presentedHash)
  | login data =>
    rw [step] at h
    split_ifs at h with hguard
    rw [← Option.some.inj h]
    exact .start _ _ (.login data hguard.1 hguard.2)
  | burn codeId =>
    rw [← Option.some.inj h]
    exact .start _ _ (.burn codeId)
  | revoke target reason =>
    rw [← Option.some.inj h]
    exact .start _ _ (.revoke target reason)
  | call i input =>
    obtain ⟨task, hmem, h⟩ := Option.bind_eq_some_iff.mp h
    obtain ⟨task', hcall, h⟩ := Option.bind_eq_some_iff.mp h
    unfold State.put at h
    split_ifs at h with hgrants
    rw [← Option.some.inj h]
    exact .call i input task task' hmem hcall hgrants
  | issue i jti signedAt => exact steps_of_issue h
  | deny i => exact steps_of_deny h
  | commit i => exact steps_of_commit h
  | rollback i => exact steps_of_rollback h

end Steps

end QAuth.Grants
