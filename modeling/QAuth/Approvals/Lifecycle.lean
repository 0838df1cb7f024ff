import QAuth.Approvals.Standing
import QAuth.Foundation.Run
import QAuth.Foundation.Table

/-!
# Approvals beside one another

Approvals are filed, decided, withdrawn, used and swept by transactions that run beside one
another. A write locks the approval's row, then makes its conditional `UPDATE`, then commits or
rolls back, with the operation it belongs to. An approver's decision and an operation's call are
judged before, on what the table and the directory hold then.
-/

namespace QAuth.Approvals

open Audit (Digest Sha256)
open Events (Uuid)
open Transition

/-- A decision that was let through: what was read, and what it was let through as. -/
structure Judgement where
  directory : Directory
  rows : List AdminApproval
  decision : ApprovalDecision
  now : ℕ
  approval : AdminApproval
  approver : Approver
  decided : approvalTheApproverMayDecide directory rows decision now = some (approval, approver)

/-- A call of an operation that the approval gate let through. -/
structure GatedCall where
  realmId : Uuid
  approvalId : Uuid
  request : CanonicalRequest
  opHash : Digest

/-- What a transaction does to the row it holds. -/
inductive Write
  /-- An approver's answer that the factor verified. -/
  | approve (judgement : Judgement) (credentialId factor : String) (now : ℕ)
  | deny (judgement : Judgement) (now : ℕ)
  | cancel (requesterRealmId requesterId : Uuid) (expected : AdminApprovalExpectedState) (now : ℕ)
  /-- The operation's own transaction. -/
  | consume (call : GatedCall) (now : ℕ)

/-- The entry that an approver's answer is stored as. -/
def Judgement.entry (j : Judgement) (credentialId factor : String) (now : ℕ) :
    AdminApprovalEntry :=
  ⟨j.approver.realmId, j.approver.accountId, credentialId, factor, now⟩

/-- The conditional `UPDATE` of a write. -/
def Write.apply (clock : ℕ) (retiredNonce : Nonce) (row : AdminApproval) :
    Write → Option AdminApproval
  | .approve j credentialId factor now =>
    addApproval j.approval.approvals.length (j.entry credentialId factor now) now clock row
  | .deny j now => Approvals.deny j.approval.approvals.length now clock retiredNonce row
  | .cancel requesterRealmId requesterId expected now =>
    Approvals.cancel requesterRealmId requesterId expected now clock retiredNonce row
  | .consume call now => Approvals.consume call.opHash now clock retiredNonce row

/-- The row a transaction wrote, and the database's clock as it did. -/
structure Written where
  row : AdminApproval
  clock : ℕ

/-- A transaction that holds the row of an approval. -/
structure Held where
  realmId : Uuid
  approvalId : Uuid
  write : Write
  written : Option Written

/-- A use of an approval that committed: the row it was used on, the operation's call, and the
clocks its expiry was checked at. -/
structure Use where
  approval : AdminApproval
  call : GatedCall
  now : ℕ
  clock : ℕ

structure Approvals where
  directory : Directory
  /-- The committed rows. -/
  rows : List AdminApproval
  /-- The rows that transactions still open have filed. -/
  filed : List AdminApproval
  held : List Held
  /-- The decisions let through so far. -/
  judged : List Judgement
  /-- The calls let through so far. -/
  gated : List GatedCall
  /-- The uses that committed. -/
  uses : List Use
  /-- The database's clock. -/
  clock : ℕ

/-- What a transaction that locks a row is for. -/
inductive WriteCall
  | approve (judgement : ℕ) (credentialId factor : String) (now : ℕ)
  | deny (judgement : ℕ) (now : ℕ)
  | cancel (realmId approvalId requesterRealmId requesterId : Uuid)
      (expected : AdminApprovalExpectedState) (now : ℕ)
  | consume (call : ℕ) (now : ℕ)

inductive ApprovalAction
  /-- Realms, accounts and grants change. -/
  | administer (directory : Directory)
  | tick (ms : ℕ)
  | file (id : Uuid) (approval : NewAdminApproval)
  | fileCommits (id : Uuid)
  | fileRollsBack (id : Uuid)
  | judge (decision : ApprovalDecision) (now : ℕ)
  | gate (input : CanonicalRequestInput) (realmId approvalId : Uuid) (now : ℕ)
  | lock (call : WriteCall)
  | update (approvalId : Uuid) (retiredNonce : Nonce)
  | commit (approvalId : Uuid)
  | rollback (approvalId : Uuid)
  | expireLapsed (now limit : ℕ) (retiredNonce : Uuid → Nonce)

namespace Approvals

def find (s : Approvals) (realmId approvalId : Uuid) : Option AdminApproval :=
  s.rows.find? fun r ↦ r.realmId = realmId && r.id = approvalId

/-- The transaction that holds the row of an approval. -/
def holder (s : Approvals) (approvalId : Uuid) : Option Held :=
  s.held.find? (·.approvalId = approvalId)

/-- The row is let go. -/
def release (s : Approvals) (approvalId : Uuid) : Approvals :=
  { s with held := s.held.filter (·.approvalId ≠ approvalId) }

/-- The approval a transaction is on, and what it writes. -/
def writeOf (s : Approvals) : WriteCall → Option (Uuid × Uuid × Write)
  | .approve i credentialId factor now =>
    s.judged[i]?.map fun j ↦ (j.approval.realmId, j.approval.id, .approve j credentialId factor now)
  | .deny i now => s.judged[i]?.map fun j ↦ (j.approval.realmId, j.approval.id, .deny j now)
  | .cancel realmId approvalId requesterRealmId requesterId expected now =>
    some (realmId, approvalId, .cancel requesterRealmId requesterId expected now)
  | .consume i now => s.gated[i]?.map fun call ↦ (call.realmId, call.approvalId, .consume call now)

/-- The decision is let through, if it is. -/
def judge (s : Approvals) (decision : ApprovalDecision) (now : ℕ) : Option Approvals :=
  match h : approvalTheApproverMayDecide s.directory s.rows decision now with
  | none => none
  | some (approval, approver) =>
    some { s with
      judged := s.judged ++ [⟨s.directory, s.rows, decision, now, approval, approver, h⟩] }

/-- The rows of the sweep: those that lapsed and that no transaction holds, the earliest first. -/
def sweep (s : Approvals) (now limit : ℕ) : List Uuid :=
  ((Table.orderBy (·.expiresAt) (s.rows.filter fun r ↦
    lapsed now s.clock r && !(s.holder r.id).isSome)).take limit).map (·.id)

section Step

variable (upper : Char → List Char) (sha256 : Sha256)

/-- The call is let through, if the gate finds no refusal. -/
def gate (s : Approvals) (input : CanonicalRequestInput) (realmId approvalId : Uuid) (now : ℕ) :
    Option Approvals :=
  match canonicalRequest upper input, s.find realmId approvalId with
  | .ok request, some approval =>
    match approvalRefusal sha256 approval request now,
      opHashOf sha256 request approval.nonce.val with
    | .ok none, .ok opHash =>
      some { s with gated := s.gated ++ [⟨realmId, approvalId, request, opHash⟩] }
    | _, _ => none
  | _, _ => none

/-- The conditional `UPDATE` of the transaction that holds the row. One that changes nothing ends
the transaction. -/
def update (s : Approvals) (approvalId : Uuid) (retiredNonce : Nonce) : Option Approvals := do
  let h ← s.holder approvalId
  guard h.written.isNone
  let row ← s.find h.realmId approvalId
  match h.write.apply s.clock retiredNonce row with
  | none => some (s.release approvalId)
  | some row' =>
    some { s with
      held := ⟨h.realmId, approvalId, h.write, some ⟨row', s.clock⟩⟩ ::
        (s.release approvalId).held }

/-- What the transaction wrote becomes the row. The row before is used where it is a use. -/
def commit (s : Approvals) (approvalId : Uuid) : Option Approvals := do
  let h ← s.holder approvalId
  let w ← h.written
  let row ← s.find h.realmId approvalId
  some { s.release approvalId with
    rows := Table.updateWhere (·.id = approvalId) (fun _ ↦ w.row) s.rows
    uses := match h.write with
      | .consume call now => s.uses ++ [⟨row, call, now, w.clock⟩]
      | _ => s.uses }

/-- One thing that can happen. -/
def step (s : Approvals) : ApprovalAction → Option Approvals
  | .administer directory => some { s with directory := directory }
  | .tick ms => some { s with clock := s.clock + ms }
  | .file id approval =>
    if ∀ r ∈ s.rows ++ s.filed, r.id ≠ id then
      (create id approval).map fun row ↦ { s with filed := row :: s.filed }
    else none
  | .fileCommits id =>
    (s.filed.find? (·.id = id)).map fun row ↦
      { s with rows := row :: s.rows, filed := s.filed.filter (·.id ≠ id) }
  | .fileRollsBack id => some { s with filed := s.filed.filter (·.id ≠ id) }
  | .judge decision now => s.judge decision now
  | .gate input realmId approvalId now => s.gate upper sha256 input realmId approvalId now
  | .lock call => do
    let (realmId, approvalId, write) ← s.writeOf call
    let _ ← s.find realmId approvalId
    guard (s.holder approvalId).isNone
    some { s with held := ⟨realmId, approvalId, write, none⟩ :: s.held }
  | .update approvalId retiredNonce => s.update approvalId retiredNonce
  | .commit approvalId => s.commit approvalId
  | .rollback approvalId => some (s.release approvalId)
  | .expireLapsed now limit retiredNonce =>
    some { s with
      rows := s.rows.map fun r ↦
        if r.id ∈ s.sweep now limit then expire (retiredNonce r.id) r else r }

end Step

end Approvals

/-- At first no approval is filed, and none is under way. -/
def approvalSystem (upper : Char → List Char) (sha256 : Sha256) :
    System Approvals ApprovalAction where
  initial s := s.rows = [] ∧ s.filed = [] ∧ s.held = [] ∧ s.judged = [] ∧ s.gated = [] ∧ s.uses = []
  step := Approvals.step upper sha256

end QAuth.Approvals
