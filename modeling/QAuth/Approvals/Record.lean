import QAuth.Approvals.OpHash
import QAuth.Events.Store
import QAuth.Foundation.UuidText

/-!
# Stored approval requests

An approval request is one row. Each write of it is one conditional `UPDATE` on the held row: it
names the state it moves from, and changes nothing where the row is in another one, has expired, or
is not the one named. The table's checks hold of every row, so no write can leave a row that breaks
them.
-/

namespace QAuth.Approvals

open Audit (Digest)
open Events (Uuid)

inductive AdminApprovalStatus
  | pending
  | approved
  | denied
  | cancelled
  | consumed
  | expired
  deriving DecidableEq

/-- An approval may still be approved or used. -/
def AdminApprovalStatus.isOpen : AdminApprovalStatus → Bool
  | .pending | .approved => true
  | _ => false

/-- One approval that a request collected. Its ids are text, compared as text. -/
structure AdminApprovalEntry where
  approverRealmId : List Char
  approverId : List Char
  credentialId : String
  factor : String
  approvedAt : ℕ

/-- The account that gave an approval. -/
def AdminApprovalEntry.account (entry : AdminApprovalEntry) : List Char × List Char :=
  (entry.approverRealmId, entry.approverId)

/-- The most approvals one request can need. -/
def ADMIN_APPROVALS_REQUIRED_MAX : ℕ := 2

/-- A row of the table, as far as its writes and its readers decide by it, with its checks. -/
structure AdminApproval where
  id : Uuid
  realmId : Uuid
  requesterKind : RequesterKind
  requesterRealmId : Uuid
  requesterId : Uuid
  opHash : Digest
  nonce : Nonce
  approvalsRequired : ℕ
  approvals : List AdminApprovalEntry
  status : AdminApprovalStatus
  createdAt : ℕ
  expiresAt : ℕ
  usedAt : Option ℕ
  required_range : 1 ≤ approvalsRequired ∧ approvalsRequired ≤ ADMIN_APPROVALS_REQUIRED_MAX
  approvals_array : approvals.length ≤ approvalsRequired
  status_matches_approvals :
    (status = .approved ∨ status = .consumed → approvals.length = approvalsRequired) ∧
      (status = .pending → approvals.length < approvalsRequired)
  expires_after_created : createdAt < expiresAt
  used_exactly_when_consumed : status = .consumed ↔ usedAt.isSome = true

/-- A new approval request, as the approval engine files it. -/
structure NewAdminApproval where
  realmId : Uuid
  requesterKind : RequesterKind
  requesterRealmId : Uuid
  requesterId : Uuid
  opHash : Digest
  nonce : Nonce
  approvalsRequired : ℕ
  createdAt : ℕ
  expiresAt : ℕ

/-- File an approval request, pending, with no approval yet, where the table's checks allow it. -/
def create (id : Uuid) (approval : NewAdminApproval) : Option AdminApproval :=
  if h : (1 ≤ approval.approvalsRequired ∧
      approval.approvalsRequired ≤ ADMIN_APPROVALS_REQUIRED_MAX) ∧
      approval.createdAt < approval.expiresAt then
    some {
      id := id
      realmId := approval.realmId
      requesterKind := approval.requesterKind
      requesterRealmId := approval.requesterRealmId
      requesterId := approval.requesterId
      opHash := approval.opHash
      nonce := approval.nonce
      approvalsRequired := approval.approvalsRequired
      approvals := []
      status := .pending
      createdAt := approval.createdAt
      expiresAt := approval.expiresAt
      usedAt := none
      required_range := h.1
      approvals_array := Nat.zero_le _
      status_matches_approvals := ⟨by simp, fun _ ↦ h.1.1⟩
      expires_after_created := h.2
      used_exactly_when_consumed := by simp }
  else none

namespace AdminApproval

/-! ### What the writes set -/

/-- The row with one more approval, approved when it was the last one needed. -/
def add (row : AdminApproval) (entry : AdminApprovalEntry) (h : row.status = .pending) :
    AdminApproval :=
  { row with
    approvals := row.approvals ++ [entry]
    status := if row.approvalsRequired ≤ row.approvals.length + 1 then .approved else .pending
    approvals_array := by
      have := row.status_matches_approvals.2 h
      rw [List.length_append, List.length_singleton]
      omega
    status_matches_approvals := by
      have := row.status_matches_approvals.2 h
      rw [List.length_append, List.length_singleton]
      split
      · exact ⟨fun _ ↦ by omega, nofun⟩
      · exact ⟨by simp, fun _ ↦ by omega⟩
    used_exactly_when_consumed := by
      have := row.used_exactly_when_consumed
      rw [h] at this
      split <;> simpa using this }

/-- The row closed unused, with another nonce. -/
def close (row : AdminApproval) (status : AdminApprovalStatus) (nonce : Nonce)
    (h : row.status.isOpen = true)
    (hstatus : status = .denied ∨ status = .cancelled ∨ status = .expired) : AdminApproval :=
  { row with
    status := status
    nonce := nonce
    status_matches_approvals := by rcases hstatus with rfl | rfl | rfl <;> simp
    used_exactly_when_consumed := by
      have hused := row.used_exactly_when_consumed
      have hnot : row.status ≠ .consumed := by
        rintro heq
        rw [heq] at h
        cases h
      have hnone : ¬ row.usedAt.isSome = true := fun hsome ↦ hnot (hused.mpr hsome)
      rcases hstatus with rfl | rfl | rfl <;> simpa using hnone }

/-- The row used at `now`, with another nonce. -/
def use (row : AdminApproval) (now : ℕ) (nonce : Nonce) (h : row.status = .approved) :
    AdminApproval :=
  { row with
    status := .consumed
    usedAt := some now
    nonce := nonce
    status_matches_approvals := ⟨fun _ ↦ row.status_matches_approvals.1 (.inl h), nofun⟩
    used_exactly_when_consumed := by simp }

end AdminApproval

/-! ### The conditional writes -/

/-- Not expired at the later of the caller's clock and the database's. -/
def Unexpired (row : AdminApproval) (now clock : ℕ) : Prop := max now clock < row.expiresAt

instance (row : AdminApproval) (now clock : ℕ) : Decidable (Unexpired row now clock) :=
  inferInstanceAs (Decidable (_ < _))

def sameApprover (row : AdminApproval) (entry : AdminApprovalEntry) : Bool :=
  row.approvals.any fun given ↦ given.account = entry.account

def addApproval (expectedCount : ℕ) (entry : AdminApprovalEntry) (now clock : ℕ)
    (row : AdminApproval) : Option AdminApproval :=
  if h : row.status = .pending ∧ Unexpired row now clock ∧ row.approvals.length = expectedCount ∧
      sameApprover row entry = false then
    some (row.add entry h.1)
  else none

def deny (expectedCount now clock : ℕ) (retiredNonce : Nonce) (row : AdminApproval) :
    Option AdminApproval :=
  if h : row.status = .pending ∧ Unexpired row now clock ∧
      row.approvals.length = expectedCount then
    some (row.close .denied retiredNonce (by rw [h.1]; rfl) (.inl rfl))
  else none

/-- The state a write expects to find. -/
structure AdminApprovalExpectedState where
  status : AdminApprovalStatus
  approvalCount : ℕ

def cancel (requesterRealmId requesterId : Uuid) (expected : AdminApprovalExpectedState)
    (now clock : ℕ) (retiredNonce : Nonce) (row : AdminApproval) : Option AdminApproval :=
  if h : row.status.isOpen = true ∧ Unexpired row now clock ∧ row.status = expected.status ∧
      row.approvals.length = expected.approvalCount ∧ row.requesterRealmId = requesterRealmId ∧
      row.requesterId = requesterId then
    some (row.close .cancelled retiredNonce h.1 (.inr (.inl rfl)))
  else none

def consume (opHash : Digest) (now clock : ℕ) (retiredNonce : Nonce) (row : AdminApproval) :
    Option AdminApproval :=
  if h : row.status = .approved ∧ Unexpired row now clock ∧ row.opHash = opHash then
    some (row.use now retiredNonce h.1)
  else none

/-- Whether the expiry sweep takes a row. -/
def lapsed (now clock : ℕ) (row : AdminApproval) : Bool :=
  row.status.isOpen && row.expiresAt ≤ max now clock

def expire (retiredNonce : Nonce) (row : AdminApproval) : AdminApproval :=
  if h : row.status.isOpen = true then row.close .expired retiredNonce h (.inr (.inr rfl)) else row

/-! ### Moves -/

/-- The moves of an approval. -/
inductive StatusMove : AdminApprovalStatus → AdminApprovalStatus → Prop
  | approve : StatusMove .pending .approved
  | deny : StatusMove .pending .denied
  | cancelPending : StatusMove .pending .cancelled
  | cancelApproved : StatusMove .approved .cancelled
  | expirePending : StatusMove .pending .expired
  | expireApproved : StatusMove .approved .expired
  | consume : StatusMove .approved .consumed

/-- What no write changes. -/
structure SameApproval (r r' : AdminApproval) : Prop where
  id : r'.id = r.id
  realmId : r'.realmId = r.realmId
  requesterKind : r'.requesterKind = r.requesterKind
  requesterRealmId : r'.requesterRealmId = r.requesterRealmId
  requesterId : r'.requesterId = r.requesterId
  opHash : r'.opHash = r.opHash
  approvalsRequired : r'.approvalsRequired = r.approvalsRequired
  expiresAt : r'.expiresAt = r.expiresAt

/-- What a write can do to a row: it stays the same approval, keeps the approvals it has, keeps its
nonce while it is open, and keeps its status or moves. -/
structure Moves (r r' : AdminApproval) : Prop extends SameApproval r r' where
  approvals : r.approvals <+: r'.approvals
  nonce : r'.status.isOpen = true → r'.nonce = r.nonce
  status : r'.status = r.status ∨ StatusMove r.status r'.status

variable {row row' : AdminApproval} {entry : AdminApprovalEntry} {now clock expectedCount : ℕ}
  {nonce : Nonce}

theorem Moves.refl (r : AdminApproval) : Moves r r :=
  ⟨⟨rfl, rfl, rfl, rfl, rfl, rfl, rfl, rfl⟩, List.prefix_rfl, fun _ ↦ rfl, .inl rfl⟩

theorem isOpen_iff {status : AdminApprovalStatus} :
    status.isOpen = true ↔ status = .pending ∨ status = .approved := by
  cases status <;> decide

/-- Nothing opens a closed approval again. -/
theorem StatusMove.isOpen {a b : AdminApprovalStatus} (h : StatusMove a b) : a.isOpen = true := by
  cases h <;> rfl

theorem StatusMove.ne {a b : AdminApprovalStatus} (h : StatusMove a b) : a ≠ b := by
  cases h <;> decide

theorem Moves.isOpen (h : Moves row row') (hopen : row'.status.isOpen = true) :
    row.status.isOpen = true := by
  rcases h.status with heq | hmove
  · rwa [← heq]
  · exact hmove.isOpen

theorem add_moves (h : row.status = .pending) : Moves row (row.add entry h) := by
  refine ⟨⟨rfl, rfl, rfl, rfl, rfl, rfl, rfl, rfl⟩, List.prefix_append _ _, fun _ ↦ rfl, ?_⟩
  rw [AdminApproval.add, h]
  dsimp only
  split
  · exact .inr .approve
  · exact .inl rfl

theorem close_moves {status : AdminApprovalStatus} (h : row.status.isOpen = true)
    (hstatus : status = .denied ∨ status = .cancelled ∨ status = .expired)
    (hdenied : status = .denied → row.status = .pending) :
    Moves row (row.close status nonce h hstatus) := by
  refine ⟨⟨rfl, rfl, rfl, rfl, rfl, rfl, rfl, rfl⟩, List.prefix_rfl, fun hopen ↦ ?_, .inr ?_⟩
  · rcases hstatus with rfl | rfl | rfl <;> cases hopen
  · show StatusMove row.status status
    rcases hstatus with rfl | rfl | rfl
    · rw [hdenied rfl]
      exact .deny
    · rcases isOpen_iff.mp h with hrow | hrow <;> rw [hrow]
      · exact .cancelPending
      · exact .cancelApproved
    · rcases isOpen_iff.mp h with hrow | hrow <;> rw [hrow]
      · exact .expirePending
      · exact .expireApproved

theorem use_moves (h : row.status = .approved) : Moves row (row.use now nonce h) := by
  refine ⟨⟨rfl, rfl, rfl, rfl, rfl, rfl, rfl, rfl⟩, List.prefix_rfl, nofun, .inr ?_⟩
  show StatusMove row.status .consumed
  rw [h]
  exact .consume

theorem expire_moves : Moves row (expire nonce row) := by
  rw [expire]
  split
  · exact close_moves _ _ nofun
  · exact .refl row

end QAuth.Approvals
