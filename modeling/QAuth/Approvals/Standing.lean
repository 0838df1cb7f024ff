import QAuth.Approvals.Record

/-!
# Who may give an approval

An approval needs so many approvals, each from a different account. A human requester's own step-up
is one of them, and only the requester gives it; every other one comes from a human account that
holds `approvals.approve` on the realm. The standing of an account is read from the approval and
from the account's grants, before the account answers the factor.
-/

namespace QAuth.Approvals

open Audit (Bytes Digest Sha256)
open Events (Uuid)

/-! ### The realms, accounts and grants -/

structure RealmRow where
  id : Uuid
  enabled : Bool
  isOperator : Bool
  issuer : Option String
  deriving DecidableEq

structure UserRow where
  realmId : Uuid
  id : Uuid
  enabled : Bool
  /-- When the account was last disabled. -/
  notValidBefore : Option ℕ
  deriving DecidableEq

structure AdminRole where
  realmId : Uuid
  disabled : Bool
  permissionIds : List String
  deriving DecidableEq

/-- What a grant grants: a built-in role, with what it holds, or a custom one. -/
inductive GrantedRole
  | builtIn (permissionIds : List String)
  | custom (role : Option AdminRole)
  deriving DecidableEq

/-- A live grant of an account, on one realm or on every realm. -/
structure LiveAdminGrant where
  accountRealmId : Uuid
  userId : Uuid
  targetRealmId : Option Uuid
  role : GrantedRole
  deriving DecidableEq

structure Directory where
  realms : List RealmRow
  users : List UserRow
  grants : List LiveAdminGrant
  deriving DecidableEq

def NOT_VALID_BEFORE_MARGIN_MS : ℕ := 1000

/-- Whether a credential issued then was issued before the account was last disabled. -/
def issuedBeforeDisablement (user : UserRow) (issuedAtMs : ℕ) : Bool :=
  user.notValidBefore.any fun notValidBefore ↦
    issuedAtMs ≤ notValidBefore + NOT_VALID_BEFORE_MARGIN_MS

def acceptsCredential (user : UserRow) (issuedAtMs : ℕ) : Bool :=
  user.enabled && !issuedBeforeDisablement user issuedAtMs

def grantedPermissionIds (live : LiveAdminGrant) : List String :=
  match live.role with
  | .builtIn permissionIds => permissionIds
  | .custom role => role.elim [] (·.permissionIds)

def grantFitsRealmRule (live : LiveAdminGrant) (accountRealm : RealmRow) : Bool :=
  (accountRealm.isOperator || live.targetRealmId = some accountRealm.id) &&
    match live.role with
    | .builtIn _ => true
    | .custom role => role.any fun role ↦
        !role.disabled && (role.realmId = accountRealm.id || live.targetRealmId = some role.realmId)

/-- The number that a text names a row by, in any letter case. -/
def uuidOf (text : List Char) : Option Uuid :=
  if UuidText.IsUuid (text.map Char.toLower) then some (UuidText.value (text.map Char.toLower))
  else none

/-- The account that approves, as the approval page names it. -/
structure Approver where
  realmId : List Char
  accountId : List Char

/-- What an admin may do on a realm, as far as approvals ask. -/
structure ApproverAuthority where
  issuerRealmId : Uuid
  userId : Uuid
  /-- The grants hold `approvals.approve`. -/
  holdsApprove : Bool

def matchingGrants (directory : Directory) (realm : RealmRow) (user : UserRow)
    (targetRealmId : Uuid) : List LiveAdminGrant :=
  directory.grants.filter fun live ↦
    live.accountRealmId = realm.id && live.userId = user.id && grantFitsRealmRule live realm &&
      (live.targetRealmId = some targetRealmId || (realm.isOperator && live.targetRealmId = none))

/-- What an admin token of `realm` for the account `sub`, issued then, may do on a realm. -/
def resolveAdminAuthority (directory : Directory) (realm : RealmRow) (sub : List Char)
    (issuedAtMs : ℕ) (targetRealmId : Uuid) : Option ApproverAuthority := do
  guard realm.enabled
  let userId ← uuidOf sub
  let user ← directory.users.find? fun user ↦ user.realmId = realm.id && user.id = userId
  guard (acceptsCredential user issuedAtMs)
  guard (realm.isOperator ∨ targetRealmId = realm.id)
  guard (matchingGrants directory realm user targetRealmId ≠ [])
  let targetRealm ← directory.realms.find? (·.id = targetRealmId)
  guard (realm.isOperator ∨ ¬ targetRealm.isOperator)
  some {
    issuerRealmId := realm.id
    userId := user.id
    holdsApprove := ((matchingGrants directory realm user targetRealmId).flatMap
      grantedPermissionIds).contains "approvals.approve" }

/-- What `approver` may do on a realm, the page's session standing in for a token. -/
def approverAuthority (directory : Directory) (approver : Approver) (targetRealmId : Uuid)
    (sessionIssuedAtMs : ℕ) : Option ApproverAuthority := do
  let realmId ← uuidOf approver.realmId
  let named ← directory.realms.find? (·.id = realmId)
  guard named.enabled
  let issuer ← named.issuer
  let realm ← directory.realms.find? (·.issuer = some issuer)
  -- In whole seconds, as a token's `iat`.
  resolveAdminAuthority directory realm approver.accountId (sessionIssuedAtMs / 1000 * 1000)
    targetRealmId

/-- The approver as the database names its account. -/
def ApproverAuthority.approver (authority : ApproverAuthority) : Approver :=
  ⟨UuidText.text authority.issuerRealmId, UuidText.text authority.userId⟩

/-! ### Standings -/

/-- An account, as an approval sees it. -/
structure ApprovalAccount extends Approver where
  kind : RequesterKind

structure ApprovalStanding where
  /-- The account filed the approval. -/
  isRequester : Bool
  /-- The account gave one of its approvals. -/
  hasApproved : Bool
  /-- The account may give the approval one more approval, or decline it. -/
  mayApprove : Bool
  mayRead : Bool

/-- The requester's account, as a reader of the row gets it. -/
def AdminApproval.requester (approval : AdminApproval) : List Char × List Char :=
  (UuidText.text approval.requesterRealmId, UuidText.text approval.requesterId)

/-- How many of the approvals are a human requester's own. -/
def fromRequester (approval : AdminApproval) : ℕ :=
  (approval.approvals.filter fun given ↦
    approval.requesterKind = .human ∧ given.account = approval.requester).length

def approvalStanding (approval : AdminApproval) (account : ApprovalAccount) (holdsApprove : Bool) :
    ApprovalStanding :=
  let isAccount := fun given : List Char × List Char ↦
    given = (account.realmId, account.accountId)
  let isRequester := decide (approval.requesterKind = account.kind) && isAccount approval.requester
  let hasApproved := approval.approvals.any fun given ↦ isAccount given.account
  let humanRequester := decide (approval.requesterKind = .human)
  -- The approvals that come from accounts other than the requester.
  let othersNeeded := approval.approvalsRequired - if humanRequester then 1 else 0
  let othersGiven := approval.approvals.length - fromRequester approval
  let mayApprove := decide (account.kind = .human) && !hasApproved &&
    if isRequester then humanRequester && decide (fromRequester approval = 0)
    else holdsApprove && decide (othersGiven < othersNeeded)
  ⟨isRequester, hasApproved, mayApprove, isRequester || hasApproved || mayApprove⟩

/-- The status the API shows. -/
def shownStatus (approval : AdminApproval) (now : ℕ) : AdminApprovalStatus :=
  if approval.status.isOpen ∧ approval.expiresAt ≤ now then .expired else approval.status

/-- One approver's decision on one approval, as the approval page hands it over. -/
structure ApprovalDecision where
  realmId : Uuid
  approvalId : Uuid
  approver : Approver
  sessionIssuedAtMs : ℕ

/-- The approval a decision names, with the approver as the database names its account, once the
approver may give it an approval now. -/
def approvalTheApproverMayDecide (directory : Directory) (rows : List AdminApproval)
    (decision : ApprovalDecision) (now : ℕ) : Option (AdminApproval × Approver) := do
  let approval ← rows.find? fun r ↦ r.realmId = decision.realmId && r.id = decision.approvalId
  let authority ← approverAuthority directory decision.approver approval.realmId
    decision.sessionIssuedAtMs
  let standing := approvalStanding approval ⟨authority.approver, .human⟩ authority.holdsApprove
  guard standing.mayRead
  guard (shownStatus approval now = .pending)
  guard standing.mayApprove
  some (approval, authority.approver)

/-! ### The gate -/

inductive ApprovalRefusal
  | notFound
  | closed (status : AdminApprovalStatus)
  | requestMismatch
  | expired
  | pending

/-- Why an approval does not approve the call of a canonical request at `now`, if it does not. A
nonce that cannot be hashed fails the call. -/
def approvalRefusal (sha256 : Sha256) (approval : AdminApproval) (request : CanonicalRequest)
    (now : ℕ) : Except JsString (Option ApprovalRefusal) :=
  if approval.status.isOpen = false then .ok (some (.closed approval.status))
  else do
    let digest ← opHashOf sha256 request approval.nonce.val
    if digest ≠ approval.opHash then .ok (some .requestMismatch)
    else if approval.expiresAt ≤ now then .ok (some .expired)
    else if approval.status ≠ .approved then .ok (some .pending)
    else .ok none

/-! ### What a standing says -/

variable {approval row : AdminApproval} {account : ApprovalAccount} {holdsApprove : Bool}
  {directory : Directory} {approver : Approver} {targetRealmId : Uuid} {issuedAtMs now : ℕ}
  {authority : ApproverAuthority}

/-- When a human account may give an approval: it gave none before, and it is the requester, or one
of the others, who are not to give the last approval in the place of a human requester. -/
theorem mayApprove_iff (hkind : account.kind = .human) :
    (approvalStanding approval account holdsApprove).mayApprove = true ↔
      (∀ given ∈ approval.approvals, given.account ≠ (account.realmId, account.accountId)) ∧
        if approval.requesterKind = .human ∧
            approval.requester = (account.realmId, account.accountId) then
          fromRequester approval = 0
        else holdsApprove = true ∧ approval.approvals.length - fromRequester approval <
          approval.approvalsRequired - if approval.requesterKind = .human then 1 else 0 := by
  by_cases hrequester : approval.requesterKind = .human <;>
    by_cases haccount : approval.requester = (account.realmId, account.accountId) <;>
    simp [approvalStanding, hkind, hrequester, haccount]

end QAuth.Approvals
