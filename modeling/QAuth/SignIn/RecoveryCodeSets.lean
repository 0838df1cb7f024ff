import QAuth.Events.Store
import QAuth.Foundation.ReadCommitted
import QAuth.Foundation.Run
import QAuth.SignIn.RecoveryCodeText

/-!
# Sets of recovery codes

The codes of an account are rows of `user_recovery_codes`. A set is replaced, and confirmed, in a
transaction that locks the user's row first; a code is redeemed by a read of the unused ones, the
hash checks, and then one conditional write in a transaction of its own, which locks only the row.
-/

namespace QAuth.SignIn

open Events (Uuid)
open Locks ReadCommitted Transition

/-! ### Rows and statements -/

structure RecoveryCodeAccount where
  realmId : Uuid
  userId : Uuid
  deriving DecidableEq

/-- A time that a row may hold. -/
abbrev CheckedTime := {t : ℕ // 0 < t ∧ t < 2 ^ 53}

structure UserRecoveryCode where
  id : Uuid
  account : RecoveryCodeAccount
  codeHash : String
  lookupDigest : Option String
  createdAt : CheckedTime
  usedAt : Option CheckedTime
  confirmedAt : Option CheckedTime

/-- A code of a new set, with the id its row gets. -/
structure NewRecoveryCode where
  id : Uuid
  codeHash : String
  lookupDigest : Option String

/-- What `replaceSet` lets through as a set. -/
structure NewRecoveryCodeSet where
  codes : List NewRecoveryCode
  createdAt : CheckedTime
  hashes : codes ≠ [] ∧ ∀ code ∈ codes, code.codeHash ≠ ""
  lookupDigests : (∀ code ∈ codes, code.lookupDigest = none) ∨
    ∀ code ∈ codes, ∃ digest, code.lookupDigest = some digest ∧ digest ≠ ""
  ids : (codes.map (·.id)).Nodup

def NewRecoveryCode.row (code : NewRecoveryCode) (account : RecoveryCodeAccount)
    (createdAt : CheckedTime) : UserRecoveryCode :=
  ⟨code.id, account, code.codeHash, code.lookupDigest, createdAt, none, none⟩

def NewRecoveryCodeSet.rows (set : NewRecoveryCodeSet) (account : RecoveryCodeAccount) :
    List UserRecoveryCode :=
  set.codes.map (·.row account set.createdAt)

/-- The statements that write. -/
inductive RecoveryStatement
  | deleteSet (account : RecoveryCodeAccount)
  | confirmSet (account : RecoveryCodeAccount) (confirmedAt : CheckedTime)
  | markUsed (account : RecoveryCodeAccount) (id : Uuid) (usedAt : CheckedTime)

/-- The `WHERE` of a statement. -/
def RecoveryStatement.finds (row : UserRecoveryCode) : RecoveryStatement → Bool
  | .deleteSet account => row.account = account
  | .confirmSet account _ => row.account = account && row.confirmedAt.isNone
  | .markUsed account id _ => row.account = account && row.id = id && row.usedAt.isNone

/-- What a statement makes of a row it found; `none` where it deletes the row. -/
def RecoveryStatement.write (row : UserRecoveryCode) :
    RecoveryStatement → Option UserRecoveryCode
  | .deleteSet _ => none
  | .confirmSet _ confirmedAt => some { row with confirmedAt := some confirmedAt }
  | .markUsed _ _ usedAt => some { row with usedAt := some usedAt }

/-! ### Redemption -/

structure UnusedRecoveryCode where
  id : Uuid
  codeHash : String

def findUnused (rows : List UserRecoveryCode) (account : RecoveryCodeAccount) :
    List UnusedRecoveryCode :=
  (Table.orderBy (·.id) (rows.filter fun row ↦ row.account = account && row.usedAt.isNone)).map
    fun row ↦ ⟨row.id, row.codeHash⟩

section Hasher

variable (toLowerCase : List Char → List Char)
  /- Whether a text is the one that was hashed, as the password hasher says. -/
  (verify : String → List Char → Bool)
  /- The hash of a secret nobody holds. -/
  (decoy : String)

/-- The unused code that the typed one matches, every hash of a full set being checked. -/
def redeemPick (unused : List UnusedRecoveryCode) (code : String) : Except String (Option Uuid) :=
  if RECOVERY_CODE_COUNT < unused.length then
    .error "recovery codes: more unused codes than a set holds"
  else
    let hashes := unused.map (·.codeHash) ++
      List.replicate (RECOVERY_CODE_COUNT - unused.length) decoy
    let normalized := normalizeRecoveryCode toLowerCase code
    let presented := normalized.getD (code.toList.take 64)
    let found := (hashes.map (verify · presented)).zipIdx.find? fun m ↦ m.1 && m.2 < unused.length
    match normalized with
    | none => .ok none
    | some _ => .ok (found.bind fun m ↦ unused[m.2]?.map (·.id))

end Hasher

/-! ### Calls beside one another -/

inductive RecoveryCall
  /-- An issuance, which keeps a confirmed set, or a regeneration. -/
  | replace (account : RecoveryCodeAccount) (set : NewRecoveryCodeSet) (keepConfirmed : Bool)
  | confirm (account : RecoveryCodeAccount) (setId : Uuid) (confirmedAt : CheckedTime)
  | redeem (account : RecoveryCodeAccount) (code : String)

/-- Where a call stands. -/
inductive RecoveryStage
  | begun
  /-- It holds the user's row. -/
  | locked
  /-- No confirmed set stands in the way, or the set shown is the account's. -/
  | checked
  | read (unused : List UnusedRecoveryCode)
  /-- Its statement found rows that it has still to lock, and wrote some. -/
  | writing (statement : RecoveryStatement) (todo : List Uuid)
      (writes : Writes Uuid UserRecoveryCode)
  /-- The new set is written. -/
  | inserted (writes : Writes Uuid UserRecoveryCode)
  | ended

structure RunningRecovery where
  call : RecoveryCall
  stage : RecoveryStage

namespace RunningRecovery

/-- What a call wrote and has not committed. -/
def writes (c : RunningRecovery) : Writes Uuid UserRecoveryCode :=
  match c.stage with
  | .writing _ _ writes | .inserted writes => writes
  | _ => []

/-- The rows of codes that a call holds. -/
def heldCodes (c : RunningRecovery) : List (Uuid × Mode) := c.writes.held

/-- The user's row that a call holds. -/
def heldUser (c : RunningRecovery) : List (RecoveryCodeAccount × Mode) :=
  match c.call, c.stage with
  | .redeem _ _, _ | _, .begun | _, .read _ | _, .ended => []
  | .replace account _ _, _ | .confirm account _ _, _ => [(account, .exclusive)]

end RunningRecovery

/-- The ids that the rows of a new set get. -/
def RecoveryCall.newIds : RecoveryCall → List Uuid
  | .replace _ set _ => set.codes.map (·.id)
  | _ => []

/-- A set that was stored. -/
structure StoredSet where
  account : RecoveryCodeAccount
  ids : List Uuid

/-- What a call that committed has answered. -/
inductive RecoveryAnswer
  | replaced (account : RecoveryCodeAccount) (setId : Uuid)
  | confirmed (account : RecoveryCodeAccount) (setId : Uuid)
  | redeemed (account : RecoveryCodeAccount) (id : Uuid)

structure RecoveryCodes where
  /-- The committed rows. -/
  rows : List UserRecoveryCode
  calls : List RunningRecovery
  /-- The sets stored so far, the last one first. -/
  sets : List StoredSet
  /-- What was answered so far, the last answer first. -/
  answers : List RecoveryAnswer

inductive RecoveryAction
  | start (call : RecoveryCall)
  | lockUser (i : ℕ)
  /-- A replacement looks for a confirmed set, a confirmation for the set that was shown. -/
  | check (i : ℕ)
  /-- A redemption reads the unused codes. -/
  | read (i : ℕ)
  /-- The statement that writes takes its snapshot and looks for its rows there. -/
  | scan (i : ℕ) (usedAt : CheckedTime)
  /-- The statement locks the next row it found, and checks it again. -/
  | visit (i : ℕ)
  | insert (i : ℕ)
  | commit (i : ℕ)
  | rollback (i : ℕ)

namespace RecoveryCodes

/-- The set that an account holds. -/
def currentSet (s : RecoveryCodes) (account : RecoveryCodeAccount) : Option StoredSet :=
  s.sets.find? (·.account = account)

/-- One call stands elsewhere. -/
def setStage (s : RecoveryCodes) (i : ℕ) (c : RunningRecovery) (stage : RecoveryStage) :
    RecoveryCodes :=
  { s with calls := s.calls.set i { c with stage := stage } }

section Step

variable (toLowerCase : List Char → List Char) (verify : String → List Char → Bool)
  (decoy : String) (users : List RecoveryCodeAccount)

def lockUser (s : RecoveryCodes) (i : ℕ) (c : RunningRecovery) : Option RecoveryCodes :=
  match c.call, c.stage with
  | .replace account _ _, .begun | .confirm account _ _, .begun =>
    if account ∉ users then some (s.setStage i c .ended)
    else if Grants RunningRecovery.heldUser s.calls i { c with stage := .locked } then
      some (s.setStage i c .locked)
    else none
  | _, _ => none

def check (s : RecoveryCodes) (i : ℕ) (c : RunningRecovery) : Option RecoveryCodes :=
  match c.call, c.stage with
  | .replace account _ keepConfirmed, .locked =>
    if keepConfirmed ∧ ∃ row ∈ s.rows, row.account = account ∧ row.confirmedAt.isSome then
      some (s.setStage i c .ended)
    else some (s.setStage i c .checked)
  | .confirm account setId _, .locked =>
    if ∃ row ∈ s.rows, row.account = account ∧ row.id = setId then
      some (s.setStage i c .checked)
    else some (s.setStage i c .ended)
  | _, _ => none

def findRows (s : RecoveryCodes) (i : ℕ) (c : RunningRecovery) (statement : RecoveryStatement) :
    RecoveryCodes :=
  s.setStage i c
    (.writing statement ((s.rows.filter (statement.finds ·)).map (·.id)) [])

def scan (s : RecoveryCodes) (i : ℕ) (c : RunningRecovery) (usedAt : CheckedTime) :
    Option RecoveryCodes :=
  match c.call, c.stage with
  | .replace account _ _, .checked => some (s.findRows i c (.deleteSet account))
  | .confirm account _ confirmedAt, .checked =>
    some (s.findRows i c (.confirmSet account confirmedAt))
  | .redeem account code, .read unused =>
    match redeemPick toLowerCase verify decoy unused code with
    | .ok (some id) => some (s.findRows i c (.markUsed account id usedAt))
    | _ => some (s.setStage i c .ended)
  | _, _ => none

/-- The statement has the next row it found to itself. What is gone, or does not match any more, is
left. -/
def visit (s : RecoveryCodes) (i : ℕ) (c : RunningRecovery) : Option RecoveryCodes :=
  match c.stage with
  | .writing statement (id :: todo) writes =>
    if Grants RunningRecovery.heldCodes s.calls i
        { c with stage := .writing statement todo ((id, none) :: writes) } then
      match current (·.id) s.rows id with
      | some row =>
        if statement.finds row then
          some (s.setStage i c (.writing statement todo ((id, statement.write row) :: writes)))
        else some (s.setStage i c (.writing statement todo writes))
      | none => some (s.setStage i c (.writing statement todo writes))
    else none
  | _ => none

def insert (s : RecoveryCodes) (i : ℕ) (c : RunningRecovery) : Option RecoveryCodes :=
  match c.call, c.stage with
  | .replace account set _, .writing _ [] writes =>
    some (s.setStage i c
      (.inserted ((set.rows account).map (fun row ↦ (row.id, some row)) ++ writes)))
  | _, _ => none

def commit (s : RecoveryCodes) (i : ℕ) (c : RunningRecovery) : Option RecoveryCodes :=
  match c.call, c.stage with
  | .replace account set _, .inserted writes =>
    some { s.setStage i c .ended with
      rows := ReadCommitted.commit (·.id) writes s.rows
      sets := ⟨account, set.codes.map (·.id)⟩ :: s.sets
      answers := ((set.codes.head?.map fun code ↦ .replaced account code.id).toList) ++ s.answers }
  | .confirm account setId _, .writing _ [] writes =>
    some { s.setStage i c .ended with
      rows := ReadCommitted.commit (·.id) writes s.rows
      answers := .confirmed account setId :: s.answers }
  | .redeem account _, .writing _ [] writes =>
    some { s.setStage i c .ended with
      rows := ReadCommitted.commit (·.id) writes s.rows
      answers := writes.map (fun w ↦ .redeemed account w.1) ++ s.answers }
  | _, _ => none

/-- One thing that can happen. -/
def step (s : RecoveryCodes) : RecoveryAction → Option RecoveryCodes
  | .start call =>
    if ∃ c ∈ s.calls, ∃ id ∈ call.newIds, id ∈ c.call.newIds then none
    else some { s with calls := s.calls ++ [⟨call, .begun⟩] }
  | .lockUser i => s.calls[i]?.bind (s.lockUser users i)
  | .check i => s.calls[i]?.bind (s.check i)
  | .read i =>
    s.calls[i]?.bind fun c ↦ match c.call, c.stage with
      | .redeem account _, .begun => some (s.setStage i c (.read (findUnused s.rows account)))
      | _, _ => none
  | .scan i usedAt => s.calls[i]?.bind (s.scan toLowerCase verify decoy i · usedAt)
  | .visit i => s.calls[i]?.bind (s.visit i)
  | .insert i => s.calls[i]?.bind (s.insert i)
  | .commit i => s.calls[i]?.bind (s.commit i)
  | .rollback i => s.calls[i]?.bind fun c ↦ some (s.setStage i c .ended)

end Step

end RecoveryCodes

/-- At first there is no code, and no call runs. -/
def recoveryCodeSystem (toLowerCase : List Char → List Char) (verify : String → List Char → Bool)
    (decoy : String) (users : List RecoveryCodeAccount) :
    System RecoveryCodes RecoveryAction where
  initial s := s.rows = [] ∧ s.calls = [] ∧ s.sets = [] ∧ s.answers = []
  step := RecoveryCodes.step toLowerCase verify decoy users

end QAuth.SignIn
