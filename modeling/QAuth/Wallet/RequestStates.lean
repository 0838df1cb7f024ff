import QAuth.Events.Store
import QAuth.Foundation.ReadCommitted
import QAuth.Foundation.Run

/-!
# Wallet request states

A presentation request that was sent to a wallet is a row of `oid4vp_request_states`. The wallet's
answer consumes it, by its `state` or, where the answer is encrypted, by the `kid` of the request's
own key; the browser's return consumes the response code that the answer left. Each of these is one
statement, which reads the clock, takes a snapshot, then locks and checks the rows it found there
again, one by one.
-/

namespace QAuth.Wallet

open Events (Uuid)
open Locks ReadCommitted Transition

/-! ### Rows -/

/-- How a response key was written: under a marker, or sealed by the signer. -/
inductive KeyWriting
  | protection (marker : String)
  | sealing (kid : String)

/-- The encrypted-response columns, which are set together or not at all. -/
structure ResponseEncryption where
  kid : String
  privateJwk : String
  writing : KeyWriting

/-- The digest and the deadline of a response code, which are set together or not at all. -/
structure NewOid4vpResponseCode where
  codeHash : String
  codeExpiresAt : ℕ

/-- A row of the table, as far as its statements decide by it. -/
structure Oid4vpRequestState where
  id : Uuid
  realmId : Uuid
  stateHash : String
  expiresAt : ℕ
  redeemedAt : Option ℕ
  responseEncryption : Option ResponseEncryption
  sameDevice : Bool
  responseCode : Option NewOid4vpResponseCode
  responseCodeRedeemedAt : Option ℕ
  response_code_redeemed_requires_hash :
    responseCodeRedeemedAt.isSome = true → responseCode.isSome = true

/-- What the callers give of a new row. -/
structure NewOid4vpRequestState where
  realmId : Uuid
  stateHash : String
  expiresAt : ℕ
  responseEncryption : Option ResponseEncryption
  sameDevice : Bool

/-- The row of a request that nobody has answered. -/
def NewOid4vpRequestState.row (data : NewOid4vpRequestState) (id : Uuid) : Oid4vpRequestState where
  id := id
  realmId := data.realmId
  stateHash := data.stateHash
  expiresAt := data.expiresAt
  redeemedAt := none
  responseEncryption := data.responseEncryption
  sameDevice := data.sameDevice
  responseCode := none
  responseCodeRedeemedAt := none
  response_code_redeemed_requires_hash := nofun

/-- `CLEAR_RESPONSE_ENCRYPTION` and `issueResponseCode`, with `redeemed_at`. -/
def Oid4vpRequestState.consume (row : Oid4vpRequestState) (now : ℕ)
    (responseCode : NewOid4vpResponseCode) : Oid4vpRequestState :=
  { row with
    redeemedAt := some now
    responseEncryption := none
    responseCode := some responseCode
    response_code_redeemed_requires_hash := fun _ ↦ rfl }

def Oid4vpRequestState.spendCode (row : Oid4vpRequestState) (now : ℕ)
    (h : row.responseCode.isSome = true) : Oid4vpRequestState :=
  { row with
    responseCodeRedeemedAt := some now
    response_code_redeemed_requires_hash := fun _ ↦ h }

/-! ### Statements -/

inductive RequestStateCall
  | create (id : Uuid) (data : NewOid4vpRequestState)
  | redeem (realmId : Uuid) (stateHash : String) (responseCode : NewOid4vpResponseCode)
  | redeemByEncryptionKid (realmId : Uuid) (kid : String) (responseCode : NewOid4vpResponseCode)
  | redeemResponseCode (realmId : Uuid) (codeHash : String)
  | deleteExpired

/-- The id that the row of a new request gets. -/
def RequestStateCall.createdId : RequestStateCall → Option Uuid
  | .create id _ => some id
  | _ => none

/-- The `WHERE` of a statement. -/
def RequestStateCall.finds (now : ℕ) (row : Oid4vpRequestState) : RequestStateCall → Bool
  | .create _ _ => false
  | .redeem realmId stateHash _ =>
    row.realmId = realmId && row.stateHash = stateHash && row.redeemedAt.isNone &&
      now < row.expiresAt
  | .redeemByEncryptionKid realmId kid _ =>
    row.realmId = realmId && row.responseEncryption.any (·.kid = kid) && row.redeemedAt.isNone &&
      now < row.expiresAt
  | .redeemResponseCode realmId codeHash =>
    row.realmId = realmId &&
      row.responseCode.any (fun code ↦ code.codeHash = codeHash && now < code.codeExpiresAt) &&
      row.responseCodeRedeemedAt.isNone && row.redeemedAt.isSome && row.sameDevice
  | .deleteExpired => row.expiresAt < now && row.responseCode.all (·.codeExpiresAt < now)

/-- What a statement makes of a row it found; `none` where it deletes the row. -/
def RequestStateCall.write (now : ℕ) (row : Oid4vpRequestState) :
    RequestStateCall → Option Oid4vpRequestState
  | .create _ _ => some row
  | .redeem _ _ responseCode | .redeemByEncryptionKid _ _ responseCode =>
    some (row.consume now responseCode)
  | .redeemResponseCode _ _ =>
    if h : row.responseCode.isSome = true then some (row.spendCode now h) else some row
  | .deleteExpired => none

/-- What the `RETURNING` of a statement gives of a row. -/
inductive Returned
  | created (row : Oid4vpRequestState)
  /-- The row as consumed, but for the encrypted-response columns, which go with it. -/
  | redeemed (row : Oid4vpRequestState) (encryption : Option ResponseEncryption)
  | code (id : Uuid) (stateHash : String)
  | deleted (id : Uuid)

/-- The `RETURNING` of a statement for a row that it wrote, `before` being the row's image in the
statement's snapshot. -/
def RequestStateCall.returning (now : ℕ) (before row : Oid4vpRequestState) :
    RequestStateCall → Returned
  | .create _ _ => .created row
  | .redeem _ _ responseCode => .redeemed (row.consume now responseCode) none
  | .redeemByEncryptionKid _ _ responseCode =>
    .redeemed (row.consume now responseCode) before.responseEncryption
  | .redeemResponseCode _ _ => .code row.id row.stateHash
  | .deleteExpired => .deleted row.id

/-- Two rows that a unique index of the table keeps apart. -/
def conflicts (r r' : Oid4vpRequestState) : Bool :=
  r.stateHash = r'.stateHash ||
    (r.redeemedAt.isNone && r'.redeemedAt.isNone &&
      r.responseEncryption.any fun e ↦ r'.responseEncryption.any (·.kid = e.kid)) ||
    (r.responseCodeRedeemedAt.isNone && r'.responseCodeRedeemedAt.isNone &&
      r.responseCode.any fun c ↦ r'.responseCode.any (·.codeHash = c.codeHash))

/-! ### Statements beside one another -/

/-- A row that a statement wrote, with what it will return of it. -/
structure Written where
  id : Uuid
  version : Option Oid4vpRequestState
  returned : Returned

/-- Where a statement stands. -/
inductive CallStage
  /-- It has read the clock. -/
  | begun
  /-- It found the rows of its snapshot that it has still to lock, and wrote some. -/
  | running (snapshot : List Oid4vpRequestState) (todo : List Uuid) (written : List Written)
  | ended

/-- A statement, with its reading of the clock. -/
structure RunningCall where
  call : RequestStateCall
  now : ℕ
  stage : CallStage

def versions (written : List Written) : Writes Uuid Oid4vpRequestState :=
  written.map fun w ↦ (w.id, w.version)

/-- What a statement wrote and has not committed. -/
def RunningCall.writes (c : RunningCall) : Writes Uuid Oid4vpRequestState :=
  match c.stage with
  | .running _ _ written => versions written
  | _ => []

/-- The rows that a statement holds. -/
def RunningCall.held (c : RunningCall) : List (Uuid × Mode) := c.writes.held

/-- What a statement that committed returned. -/
structure Answer where
  call : RequestStateCall
  now : ℕ
  returned : Returned

structure RequestStates where
  clock : ℕ
  /-- The committed rows. -/
  rows : List Oid4vpRequestState
  /-- The rows committed so far, as they were created. -/
  created : List Oid4vpRequestState
  calls : List RunningCall
  /-- What was returned so far. -/
  answers : List Answer

inductive RequestStateAction
  | tick (ms : ℕ)
  | start (call : RequestStateCall)
  /-- A statement takes its snapshot and looks for its rows there. -/
  | scan (i : ℕ)
  /-- A statement locks the next row it found, and checks it again. -/
  | visit (i : ℕ)
  | commit (i : ℕ)
  | fail (i : ℕ)

namespace RequestStates

/-- No other row, committed or only written, stands in the way of this version. -/
def fits (s : RequestStates) (i : ℕ) (row : Oid4vpRequestState) : Bool :=
  (s.rows.all fun r ↦ r.id = row.id || !conflicts r row) &&
    (s.calls.eraseIdx i).all fun c ↦ c.writes.all fun w ↦ w.2.all fun r ↦ !conflicts r row

/-- A call of `create` chose this id before. -/
def knows (s : RequestStates) (id : Uuid) : Bool := s.calls.any fun c ↦ c.call.createdId = some id

/-- The created rows once a call has committed. -/
def createdWith (call : RequestStateCall) (created : List Oid4vpRequestState) :
    List Oid4vpRequestState :=
  match call with
  | .create id data => data.row id :: created
  | _ => created

/-- One call stands elsewhere. -/
def setStage (s : RequestStates) (i : ℕ) (c : RunningCall) (stage : CallStage) : RequestStates :=
  { s with calls := s.calls.set i { c with stage := stage } }

/-- The snapshot of a statement, or the row it inserts. -/
def scan (s : RequestStates) (i : ℕ) (c : RunningCall) : Option RequestStates :=
  match c.call with
  | .create id data =>
    if s.fits i (data.row id) then
      some (s.setStage i c (.running s.rows [] [⟨id, some (data.row id), .created (data.row id)⟩]))
    else none
  | call =>
    some (s.setStage i c (.running s.rows ((s.rows.filter (call.finds c.now ·)).map (·.id)) []))

/-- The statement has the next row it found to itself. What is gone, or does not match any more, is
left. -/
def visit (s : RequestStates) (i : ℕ) (c : RunningCall) (snapshot : List Oid4vpRequestState)
    (id : Uuid) (todo : List Uuid) (written : List Written) : Option RequestStates :=
  if Grants RunningCall.held s.calls i
      { c with stage := .running snapshot todo (⟨id, none, .deleted id⟩ :: written) } then
    match current (·.id) snapshot id, current (·.id) s.rows id with
    | some before, some row =>
      if c.call.finds c.now row then
        if (c.call.write c.now row).all (s.fits i ·) then
          some (s.setStage i c (.running snapshot todo
            (⟨id, c.call.write c.now row, c.call.returning c.now before row⟩ :: written)))
        else none
      else some (s.setStage i c (.running snapshot todo written))
    | _, _ => some (s.setStage i c (.running snapshot todo written))
  else none

/-- One thing that can happen. -/
def step (s : RequestStates) : RequestStateAction → Option RequestStates
  | .tick ms => some { s with clock := s.clock + ms }
  | .start call =>
    if call.createdId.any s.knows then none
    else some { s with calls := s.calls ++ [⟨call, s.clock, .begun⟩] }
  | .scan i =>
    s.calls[i]?.bind fun c ↦ match c.stage with
      | .begun => s.scan i c
      | _ => none
  | .visit i =>
    s.calls[i]?.bind fun c ↦ match c.stage with
      | .running snapshot (id :: todo) written => s.visit i c snapshot id todo written
      | _ => none
  | .commit i =>
    s.calls[i]?.bind fun c ↦ match c.stage with
      | .running _ [] written =>
        some { s.setStage i c .ended with
          rows := ReadCommitted.commit (·.id) (versions written) s.rows
          created := createdWith c.call s.created
          answers := s.answers ++ written.map fun w ↦ ⟨c.call, c.now, w.returned⟩ }
      | _ => none
  | .fail i =>
    s.calls[i]?.bind fun c ↦ match c.stage with
      | .begun | .running _ _ _ => some (s.setStage i c .ended)
      | _ => none

end RequestStates

/-- At first there is no row, and no statement runs. -/
def requestStateSystem : System RequestStates RequestStateAction where
  initial s := s.rows = [] ∧ s.created = [] ∧ s.calls = [] ∧ s.answers = []
  step := RequestStates.step

end QAuth.Wallet
