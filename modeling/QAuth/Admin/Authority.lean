import QAuth.Events.Store
import QAuth.Foundation.Guards
import QAuth.Foundation.Table
import QAuth.Foundation.UuidText
import QAuth.Ssf.LiveRefreshTokens
import QAuth.Token.Scope

/-!
# Admin authority

What an admin token may do to which realm: `resolveAdminAuthority`, with the grants of an account as
`listLive` reads them, the realm rule, the roles and the permission catalog. Ids are numbers, as the
database holds them; a request names them by text.
-/

namespace QAuth.Admin

open Events (Uuid)
open Guards
open Token (PermissionClass)

/-! ### The permission catalog -/

structure AdminPermission where
  id : String
  «class» : PermissionClass
  /-- the release that retired it -/
  retiredIn : Option String

/-- A catalog: every permission once. -/
structure PermissionRegistry where
  all : List AdminPermission
  nodup : (all.map (·.id)).Nodup

namespace PermissionRegistry

variable (registry : PermissionRegistry)

def active : List AdminPermission := registry.all.filter (·.retiredIn.isNone)

def get (id : String) : Option AdminPermission := registry.all.find? (·.id = id)

def isGrantable (id : String) : Bool := (registry.get id).any (·.retiredIn.isNone)

end PermissionRegistry

/-! ### Roles -/

inductive BuiltInRoleName
  | viewer | editor | security_admin

namespace BuiltInRoleName

def classes : BuiltInRoleName → List PermissionClass
  | viewer => [.read]
  | editor => [.read, .write]
  | security_admin => [.read, .write, .security]

/-- `BUILT_IN_ROLE_NAMES.includes(name)`. -/
def parse? : String → Option BuiltInRoleName
  | "viewer" => some viewer
  | "editor" => some editor
  | "security-admin" => some security_admin
  | _ => none

/-- `BUILT_IN_ROLES[name].permissionIds`, over the catalog the roles were built from. -/
def permissionIds (catalog : PermissionRegistry) (name : BuiltInRoleName) : List String :=
  (catalog.active.filter fun permission ↦ name.classes.contains permission.class).map (·.id)

end BuiltInRoleName

/-! ### Rows -/

structure RealmRow where
  id : Uuid
  enabled : Bool
  isOperator : Bool
  issuer : Option String
deriving DecidableEq

structure UserRow extends Ssf.UserRow where
  id : Uuid
  realmId : Uuid

structure AdminRole where
  id : Uuid
  realmId : Uuid
  permissionIds : List String
  disabledAt : Option ℕ

/-- The one role that a grant names. -/
inductive GrantedRole
  | builtIn (name : String)
  | custom (roleId : Uuid)

structure AdminGrant where
  id : Uuid
  userId : Uuid
  role : GrantedRole
  /-- `none` for every realm -/
  targetRealmId : Option Uuid
  createdAt : ℕ
  revokedAt : Option ℕ

structure Database where
  realms : List RealmRow
  users : List UserRow
  roles : List AdminRole
  grants : List AdminGrant
  realmIds : (realms.map (·.id)).Nodup
  userIds : (users.map (·.id)).Nodup
  roleIds : (roles.map (·.id)).Nodup
  issuers : (realms.filterMap (·.issuer)).Nodup

namespace Database

variable (db : Database)

/-- `realms.findByIssuer`, with the directory's check that the issuer is the realm's. -/
def realmForIssuer (issuer : String) : Option RealmRow :=
  if issuer = "" then none else db.realms.find? (·.issuer = some issuer)

/-- `realms.findById`. -/
def realm? (id : Uuid) : Option RealmRow := db.realms.find? (·.id = id)

/-- `users.findById`: an account of the realm. -/
def user? (realmId id : Uuid) : Option UserRow :=
  db.users.find? fun user ↦ user.realmId = realmId && user.id = id

/-- The role of a custom grant. -/
def role? (id : Uuid) : Option AdminRole := db.roles.find? (·.id = id)

end Database

/-! ### Live grants -/

/-- A grant with its custom role. -/
structure LiveAdminGrant where
  grant : AdminGrant
  role : Option AdminRole

def joinedRole (db : Database) (grant : AdminGrant) : Option AdminRole :=
  match grant.role with
  | .builtIn _ => none
  | .custom roleId => db.role? roleId

/-- `seenFromRealm`: the grant is on the realm, or its account is of the realm. -/
def seenFromRealm (db : Database) (realmId : Uuid) (grant : AdminGrant) : Bool :=
  grant.targetRealmId = some realmId ||
    db.users.any fun user ↦ user.realmId = realmId && user.id = grant.userId

/-- The unrevoked grants of an account whose custom role, if any, is not disabled. -/
def listLive (db : Database) (realmId userId : Uuid) : List LiveAdminGrant :=
  (Table.orderBy (fun grant : AdminGrant ↦ toLex (grant.createdAt, grant.id))
    (db.grants.filter fun grant ↦ grant.userId = userId && seenFromRealm db realmId grant &&
      grant.revokedAt.isNone && (joinedRole db grant).all (·.disabledAt.isNone))).map
    fun grant ↦ ⟨grant, joinedRole db grant⟩

/-- The permission ids a live grant's role holds now. -/
def grantedPermissionIds (catalog : PermissionRegistry) (live : LiveAdminGrant) : List String :=
  match live.grant.role with
  | .builtIn name => (BuiltInRoleName.parse? name).elim [] (·.permissionIds catalog)
  | .custom _ => live.role.elim [] (·.permissionIds)

/-- Whether a live grant still fits the realm rule for an account of `accountRealm`. -/
def grantFitsRealmRule (live : LiveAdminGrant) (accountRealm : RealmRow) : Bool :=
  (accountRealm.isOperator || live.grant.targetRealmId = some accountRealm.id) &&
    match live.grant.role with
    | .builtIn _ => true
    | .custom _ => live.role.any fun role ↦ role.disabledAt.isNone &&
        (role.realmId = accountRealm.id || live.grant.targetRealmId = some role.realmId)

/-! ### Scopes -/

/-- A token's scopes: the `scope` claim, or a list. -/
inductive TokenScopes
  | claim (scope : String)
  | list (scopes : List String)

/-- The claim is split at blanks alone. -/
def tokenScopeSet : TokenScopes → List String
  | .claim scope => ((scope.toList.splitOn ' ').filter (· ≠ [])).map String.ofList
  | .list scopes => scopes

def ADMIN_SCOPES (c : PermissionClass) : String := c.adminScope.name

def ADMIN_SCOPE_LIST : List String := [.read, .write, .security].map ADMIN_SCOPES

def allowedPermissionClasses (scopes : TokenScopes) : List PermissionClass :=
  [.read, .write, .security].filter fun c ↦ (tokenScopeSet scopes).contains (ADMIN_SCOPES c)

/-- The permissions a request may use. -/
def effectivePermissions (registry : PermissionRegistry) (rolePermissions : List String)
    (tokenScopes : TokenScopes) : List String :=
  let allowed := allowedPermissionClasses tokenScopes
  (rolePermissions.filter fun id ↦ registry.isGrantable id &&
    (registry.get id).any fun permission ↦ allowed.contains permission.class).eraseDups

/-! ### The authority of a token -/

/-- The texts that `z.uuid()` takes: a version and a variant, or all zeros or all ones. -/
def isZodUuid (text : List Char) : Bool :=
  UuidText.IsUuid (text.map Char.toLower) &&
    ((('1' ≤ text.getD 14 ' ' && text.getD 14 ' ' ≤ '8') &&
        ['8', '9', 'a', 'b', 'A', 'B'].contains (text.getD 19 ' ')) ||
      text.all (fun c ↦ c = '0' || c = '-') || text.all (fun c ↦ c = 'f' || c = '-'))

/-- The id that a text names. -/
def uuidSchema (text : String) : Option Uuid :=
  if isZodUuid text.toList then some (UuidText.value (text.toList.map Char.toLower)) else none

/-- A verified admin token, and the realm it acts on. -/
structure AdminAuthorityRequest where
  iss : String
  sub : String
  /-- in seconds -/
  iat : Option ℤ
  scopes : Option TokenScopes
  targetRealmId : String

inductive AdminAuthorityRefusal
  | issuer_unknown | account_inactive | realm_not_found
deriving DecidableEq

structure AdminAuthority where
  issuerRealm : RealmRow
  operator : Bool
  targetRealm : RealmRow
  userId : Uuid
  permissions : List String
  rolePermissions : List String
  grantIds : List Uuid
deriving DecidableEq

def matchingGrants (db : Database) (issuerRealm : RealmRow) (userId target : Uuid) :
    List LiveAdminGrant :=
  (listLive db issuerRealm.id userId).filter fun live ↦ grantFitsRealmRule live issuerRealm &&
    (live.grant.targetRealmId = some target ||
      (issuerRealm.isOperator && live.grant.targetRealmId = none))

/-- Decide what an admin token may do to a realm. -/
def resolveAdminAuthority (db : Database) (catalog registry : PermissionRegistry)
    (request : AdminAuthorityRequest) : Except AdminAuthorityRefusal AdminAuthority := do
  let issuerRealm ← require (db.realmForIssuer request.iss) .issuer_unknown
  refuseIf (issuerRealm.enabled = false) .issuer_unknown
  let sub ← require (uuidSchema request.sub) .account_inactive
  let user ← require (db.user? issuerRealm.id sub) .account_inactive
  refuseIf (Ssf.accountCredentialRefusal user.toUserRow (request.iat.map (· * 1000)) ≠ none)
    .account_inactive
  let target ← require (uuidSchema request.targetRealmId) .realm_not_found
  let operator := issuerRealm.isOperator
  -- a realm-local admin acts on its own realm, never on another
  refuseIf (operator = false ∧ target ≠ issuerRealm.id) .realm_not_found
  let matching := matchingGrants db issuerRealm user.id target
  refuseIf (matching = []) .realm_not_found
  let targetRealm ← require (db.realm? target) .realm_not_found
  -- only a moved flag reaches this
  refuseIf (operator = false ∧ targetRealm.isOperator = true) .realm_not_found
  let granted := matching.flatMap (grantedPermissionIds catalog)
  pure {
    issuerRealm
    operator
    targetRealm
    userId := user.id
    permissions := effectivePermissions registry granted (request.scopes.getD (.list []))
    rolePermissions := effectivePermissions registry granted (.list ADMIN_SCOPE_LIST)
    grantIds := matching.map (·.grant.id) }

/-! ### Which grants count -/

/-- A grant counts for an account on a realm: it is unrevoked, of an enabled role, within the realm
rule, of that account, and on the realm or, for an operator account only, on every realm. -/
structure Counts (db : Database) (issuerRealm : RealmRow) (userId target : Uuid)
    (grant : AdminGrant) : Prop where
  mem : grant ∈ db.grants
  account : grant.userId = userId
  unrevoked : grant.revokedAt = none
  role : ∀ roleId, grant.role = .custom roleId → ∃ role ∈ db.roles, role.id = roleId ∧
    role.disabledAt = none ∧
      (role.realmId = issuerRealm.id ∨ grant.targetRealmId = some role.realmId)
  rule : issuerRealm.isOperator = true ∨ grant.targetRealmId = some issuerRealm.id
  target : grant.targetRealmId = some target ∨
    (issuerRealm.isOperator = true ∧ grant.targetRealmId = none)

/-- The role that a grant names holds a permission. -/
inductive RoleHolds (db : Database) (catalog : PermissionRegistry) (grant : AdminGrant)
    (id : String) : Prop
  | builtIn (name : String) (known : BuiltInRoleName) (permission : AdminPermission)
      (role : grant.role = .builtIn name) (parsed : BuiltInRoleName.parse? name = some known)
      (mem : permission ∈ catalog.all) (named : permission.id = id)
      (active : permission.retiredIn = none) (held : permission.class ∈ known.classes)
  | custom (roleId : Uuid) (role : AdminRole) (named : grant.role = .custom roleId)
      (mem : role ∈ db.roles) (same : role.id = roleId) (held : id ∈ role.permissionIds)

/-- The catalog's permission is one that a role can grant, and the scopes allow its class. -/
def ScopesCarry (registry : PermissionRegistry) (scopes : TokenScopes) (id : String) : Prop :=
  ∃ permission ∈ registry.all, permission.id = id ∧ permission.retiredIn = none ∧
    ADMIN_SCOPES permission.class ∈ tokenScopeSet scopes

variable {db db' : Database} {catalog registry : PermissionRegistry} {issuerRealm : RealmRow}
  {userId target : Uuid} {grant : AdminGrant} {live : LiveAdminGrant} {id : String}
  {scopes scopes' : TokenScopes} {request : AdminAuthorityRequest} {a : AdminAuthority}

theorem mem_permissionIds_iff {name : BuiltInRoleName} :
    id ∈ name.permissionIds catalog ↔ ∃ permission ∈ catalog.all, permission.id = id ∧
      permission.retiredIn = none ∧ permission.class ∈ name.classes := by
  simp only [BuiltInRoleName.permissionIds, PermissionRegistry.active, List.mem_map, List.mem_filter,
    List.contains_iff_mem, Option.isNone_iff_eq_none]
  constructor
  · rintro ⟨permission, ⟨⟨hmem, hactive⟩, hclass⟩, hid⟩
    exact ⟨permission, hmem, hid, hactive, hclass⟩
  · rintro ⟨permission, hmem, hid, hactive, hclass⟩
    exact ⟨permission, ⟨⟨hmem, hactive⟩, hclass⟩, hid⟩

theorem mem_grantedPermissionIds_iff :
    id ∈ grantedPermissionIds catalog ⟨grant, joinedRole db grant⟩ ↔ RoleHolds db catalog grant id := by
  constructor
  · intro h
    rw [grantedPermissionIds] at h
    cases hrole : grant.role with
    | builtIn name =>
      simp only [hrole] at h
      cases hknown : BuiltInRoleName.parse? name with
      | none =>
        rw [hknown] at h
        cases h
      | some known =>
        rw [hknown, Option.elim_some] at h
        obtain ⟨permission, hmem, hid, hactive, hclass⟩ := mem_permissionIds_iff.mp h
        exact .builtIn name known permission hrole hknown hmem hid hactive hclass
    | custom roleId =>
      simp only [hrole, joinedRole] at h
      cases hjoined : db.role? roleId with
      | none =>
        rw [hjoined] at h
        cases h
      | some role =>
        rw [hjoined, Option.elim_some] at h
        obtain ⟨hmem, hid⟩ := (Table.find?_eq_some_iff db.roleIds).mp hjoined
        exact .custom roleId role hrole hmem hid h
  · intro h
    rw [grantedPermissionIds]
    cases h with
    | builtIn name known permission hrole hknown hmem hid hactive hclass =>
      simp only [hrole, hknown, Option.elim_some]
      exact mem_permissionIds_iff.mpr ⟨permission, hmem, hid, hactive, hclass⟩
    | custom roleId role hrole hmem hid hheld =>
      have hjoined : db.role? roleId = some role :=
        (Table.find?_eq_some_iff db.roleIds).mpr ⟨hmem, hid⟩
      simpa only [hrole, joinedRole, hjoined, Option.elim_some] using hheld

/-- What `listLive` and the realm rule ask of a grant's role together. -/
theorem role_iff (db : Database) (grant : AdminGrant) (issuerRealm : RealmRow) :
    ((joinedRole db grant).all (·.disabledAt.isNone) = true ∧
      grantFitsRealmRule ⟨grant, joinedRole db grant⟩ issuerRealm = true) ↔
    (∀ roleId, grant.role = .custom roleId → ∃ role ∈ db.roles, role.id = roleId ∧
      role.disabledAt = none ∧
        (role.realmId = issuerRealm.id ∨ grant.targetRealmId = some role.realmId)) ∧
    (issuerRealm.isOperator = true ∨ grant.targetRealmId = some issuerRealm.id) := by
  rw [grantFitsRealmRule]
  cases hrole : grant.role with
  | builtIn name => simp [joinedRole, hrole]
  | custom roleId =>
    have hjoined : joinedRole db grant = db.role? roleId := by simp only [joinedRole, hrole]
    simp only [hjoined, GrantedRole.custom.injEq, forall_eq']
    cases hfind : db.role? roleId with
    | none =>
      have hnone : ∀ role ∈ db.roles, role.id ≠ roleId := by
        simpa [Database.role?] using hfind
      simp only [Option.all_none, Option.any_none, Bool.and_false, Bool.false_eq_true, and_false,
        false_iff, not_and]
      rintro ⟨role, hmem, hid, -⟩
      exact absurd hid (hnone role hmem)
    | some role =>
      obtain ⟨hmem, hid⟩ := (Table.find?_eq_some_iff db.roleIds).mp hfind
      have hexists : (∃ role' ∈ db.roles, role'.id = roleId ∧ role'.disabledAt = none ∧
          (role'.realmId = issuerRealm.id ∨ grant.targetRealmId = some role'.realmId)) ↔
          role.disabledAt = none ∧
            (role.realmId = issuerRealm.id ∨ grant.targetRealmId = some role.realmId) := by
        constructor
        · rintro ⟨role', hmem', hid', hrest⟩
          rw [← Table.eq_of_key_eq db.roleIds hmem' hmem (hid'.trans hid.symm)]
          exact hrest
        · exact fun hrest ↦ ⟨role, hmem, hid, hrest⟩
      rw [hexists]
      simp only [Option.all_some, Option.any_some, Option.isNone_iff_eq_none, Bool.and_eq_true,
        Bool.or_eq_true, decide_eq_true_eq]
      tauto

theorem mem_matchingGrants_iff
    (huser : ∃ user ∈ db.users, user.realmId = issuerRealm.id ∧ user.id = userId) :
    live ∈ matchingGrants db issuerRealm userId target ↔
      ∃ grant, Counts db issuerRealm userId target grant ∧ live = ⟨grant, joinedRole db grant⟩ := by
  have hcounts : ∀ grant, Counts db issuerRealm userId target grant ↔
      (grant ∈ db.grants ∧ grant.userId = userId ∧ grant.revokedAt = none ∧
        (joinedRole db grant).all (·.disabledAt.isNone) = true) ∧
      grantFitsRealmRule ⟨grant, joinedRole db grant⟩ issuerRealm = true ∧
        (grant.targetRealmId = some target ∨
          (issuerRealm.isOperator = true ∧ grant.targetRealmId = none)) := by
    intro grant
    have hrole := role_iff db grant issuerRealm
    constructor
    · intro h
      obtain ⟨henabled, hfits⟩ := hrole.mpr ⟨h.role, h.rule⟩
      exact ⟨⟨h.mem, h.account, h.unrevoked, henabled⟩, hfits, h.target⟩
    · rintro ⟨⟨hmem, haccount, hunrevoked, henabled⟩, hfits, htarget⟩
      obtain ⟨hrole, hrule⟩ := hrole.mp ⟨henabled, hfits⟩
      exact ⟨hmem, haccount, hunrevoked, hrole, hrule, htarget⟩
  have hseen : ∀ grant : AdminGrant, grant.userId = userId →
      seenFromRealm db issuerRealm.id grant = true := by
    rintro grant rfl
    obtain ⟨user, hmem, hrealm, hid⟩ := huser
    rw [seenFromRealm, Bool.or_eq_true, List.any_eq_true]
    exact .inr ⟨user, hmem, by simp [hrealm, hid]⟩
  simp only [matchingGrants, listLive, List.mem_filter, List.mem_map, Table.mem_orderBy,
    Bool.and_eq_true, decide_eq_true_eq, Option.isNone_iff_eq_none, Bool.or_eq_true, hcounts]
  constructor
  · rintro ⟨⟨grant, ⟨hmem, ⟨⟨haccount, -⟩, hunrevoked⟩, henabled⟩, rfl⟩, hfits, htarget⟩
    exact ⟨grant, ⟨⟨hmem, haccount, hunrevoked, henabled⟩, hfits, htarget⟩, rfl⟩
  · rintro ⟨grant, ⟨⟨hmem, haccount, hunrevoked, henabled⟩, hfits, htarget⟩, rfl⟩
    exact ⟨⟨grant, ⟨hmem, ⟨⟨haccount, hseen grant haccount⟩, hunrevoked⟩, henabled⟩, rfl⟩, hfits,
      htarget⟩

/-! ### Scopes -/

theorem mem_allowedPermissionClasses_iff {c : PermissionClass} :
    c ∈ allowedPermissionClasses scopes ↔ ADMIN_SCOPES c ∈ tokenScopeSet scopes := by
  rw [allowedPermissionClasses, List.mem_filter, List.contains_iff_mem]
  cases c <;> simp

theorem mem_effectivePermissions_iff {rolePermissions : List String} :
    id ∈ effectivePermissions registry rolePermissions scopes ↔
      id ∈ rolePermissions ∧ ScopesCarry registry scopes id := by
  have hcarry : (registry.isGrantable id && (registry.get id).any fun permission ↦
      (allowedPermissionClasses scopes).contains permission.class) = true ↔
        ScopesCarry registry scopes id := by
    rw [PermissionRegistry.isGrantable, ScopesCarry]
    cases hget : registry.get id with
    | none =>
      have hnone : ∀ permission ∈ registry.all, permission.id ≠ id := by
        simpa [PermissionRegistry.get] using hget
      refine iff_of_false (by simp) ?_
      rintro ⟨permission, hmem, hid, -⟩
      exact hnone permission hmem hid
    | some permission =>
      obtain ⟨hmem, hid⟩ := (Table.find?_eq_some_iff registry.nodup).mp hget
      simp only [Option.any_some, Bool.and_eq_true, Option.isNone_iff_eq_none,
        List.contains_iff_mem, mem_allowedPermissionClasses_iff]
      constructor
      · rintro ⟨hactive, hscope⟩
        exact ⟨permission, hmem, hid, hactive, hscope⟩
      · rintro ⟨other, hother, hid', hactive, hscope⟩
        rw [Table.eq_of_key_eq registry.nodup hother hmem (hid'.trans hid.symm)] at hactive hscope
        exact ⟨hactive, hscope⟩
  rw [effectivePermissions, List.mem_eraseDups, List.mem_filter, hcarry]

theorem ScopesCarry.mono (hsub : tokenScopeSet scopes ⊆ tokenScopeSet scopes')
    (h : ScopesCarry registry scopes id) : ScopesCarry registry scopes' id := by
  obtain ⟨permission, hmem, hid, hactive, hscope⟩ := h
  exact ⟨permission, hmem, hid, hactive, hsub hscope⟩

/-! ### The authority -/

/-- What the database says of an allowed token. -/
structure Allowed (db : Database) (catalog registry : PermissionRegistry)
    (request : AdminAuthorityRequest) (user : UserRow) (a : AdminAuthority) : Prop where
  issuer : db.realmForIssuer request.iss = some a.issuerRealm
  issuerEnabled : a.issuerRealm.enabled = true
  sub : uuidSchema request.sub = some user.id
  account : user ∈ db.users ∧ user.realmId = a.issuerRealm.id ∧ user.id = a.userId
  accepts : Ssf.accountCredentialRefusal user.toUserRow (request.iat.map (· * 1000)) = none
  target : uuidSchema request.targetRealmId = some a.targetRealm.id
  targetRealm : a.targetRealm ∈ db.realms
  operator : a.operator = a.issuerRealm.isOperator
  ownRealm : a.issuerRealm.isOperator = false →
    a.targetRealm.id = a.issuerRealm.id ∧ a.targetRealm.isOperator = false
  matching : matchingGrants db a.issuerRealm a.userId a.targetRealm.id ≠ []
  permissions : a.permissions = effectivePermissions registry
    ((matchingGrants db a.issuerRealm a.userId a.targetRealm.id).flatMap
      (grantedPermissionIds catalog)) (request.scopes.getD (.list []))
  rolePermissions : a.rolePermissions = effectivePermissions registry
    ((matchingGrants db a.issuerRealm a.userId a.targetRealm.id).flatMap
      (grantedPermissionIds catalog)) (.list ADMIN_SCOPE_LIST)
  grantIds : a.grantIds =
    (matchingGrants db a.issuerRealm a.userId a.targetRealm.id).map (·.grant.id)

theorem user?_eq_some_iff {realmId : Uuid} {user : UserRow} :
    db.user? realmId userId = some user ↔
      user ∈ db.users ∧ user.realmId = realmId ∧ user.id = userId := by
  constructor
  · intro h
    exact ⟨List.mem_of_find?_eq_some h, by simpa using List.find?_some h⟩
  · rintro ⟨hmem, rfl, rfl⟩
    cases hfind : db.user? user.realmId user.id with
    | none =>
      have hall := List.find?_eq_none.mp hfind user hmem
      simp at hall
    | some other =>
      have hsame : other.realmId = user.realmId ∧ other.id = user.id := by
        simpa using List.find?_some hfind
      rw [Table.eq_of_key_eq db.userIds (List.mem_of_find?_eq_some hfind) hmem hsame.2]

/-- When a token is allowed, and with what. -/
theorem resolveAdminAuthority_eq_ok_iff :
    resolveAdminAuthority db catalog registry request = .ok a ↔
      ∃ user, Allowed db catalog registry request user a := by
  constructor
  · intro h
    rw [resolveAdminAuthority] at h
    obtain ⟨issuerRealm, hissuer, h⟩ := bind_eq_ok_iff.mp h
    obtain ⟨_, henabled, h⟩ := bind_eq_ok_iff.mp h
    obtain ⟨sub, hsub, h⟩ := bind_eq_ok_iff.mp h
    obtain ⟨user, huser, h⟩ := bind_eq_ok_iff.mp h
    obtain ⟨_, haccepts, h⟩ := bind_eq_ok_iff.mp h
    obtain ⟨target, htarget, h⟩ := bind_eq_ok_iff.mp h
    obtain ⟨_, hown, h⟩ := bind_eq_ok_iff.mp h
    obtain ⟨_, hmatching, h⟩ := bind_eq_ok_iff.mp h
    obtain ⟨targetRealm, hrealm, h⟩ := bind_eq_ok_iff.mp h
    obtain ⟨_, hmoved, h⟩ := bind_eq_ok_iff.mp h
    cases h
    obtain ⟨hmem, hrealm', hid'⟩ := user?_eq_some_iff.mp (require_eq_ok_iff.mp huser)
    obtain ⟨htargetRealm, hid⟩ :=
      (Table.find?_eq_some_iff db.realmIds).mp (require_eq_ok_iff.mp hrealm)
    simp only [refuseIf_eq_ok_iff] at henabled haccepts hown hmatching hmoved
    subst hid
    refine ⟨user, require_eq_ok_iff.mp hissuer, by simpa using henabled, ?_,
      ⟨hmem, hrealm', rfl⟩, not_not.mp haccepts,
      require_eq_ok_iff.mp htarget, htargetRealm, rfl, fun hlocal ↦ ⟨?_, ?_⟩, hmatching, rfl, rfl,
      rfl⟩
    · rw [require_eq_ok_iff.mp hsub, hid']
    · exact not_not.mp fun hne ↦ hown ⟨hlocal, hne⟩
    · exact Bool.eq_false_iff.mpr fun hoperator ↦ hmoved ⟨hlocal, hoperator⟩
  · rintro ⟨user, h⟩
    obtain ⟨hmem, hrealm, hid⟩ := h.account
    have hfound : db.user? a.issuerRealm.id user.id = some user :=
      user?_eq_some_iff.mpr ⟨hmem, hrealm, rfl⟩
    have htarget : db.realm? a.targetRealm.id = some a.targetRealm :=
      (Table.find?_eq_some_iff db.realmIds).mpr ⟨h.targetRealm, rfl⟩
    rw [resolveAdminAuthority]
    refine bind_eq_ok_iff.mpr ⟨a.issuerRealm, require_eq_ok_iff.mpr h.issuer, ?_⟩
    refine bind_eq_ok_iff.mpr ⟨(), by simp [h.issuerEnabled], ?_⟩
    refine bind_eq_ok_iff.mpr ⟨user.id, require_eq_ok_iff.mpr h.sub, ?_⟩
    refine bind_eq_ok_iff.mpr ⟨user, require_eq_ok_iff.mpr hfound, ?_⟩
    refine bind_eq_ok_iff.mpr ⟨(), by simp [h.accepts], ?_⟩
    refine bind_eq_ok_iff.mpr ⟨a.targetRealm.id, require_eq_ok_iff.mpr h.target, ?_⟩
    refine bind_eq_ok_iff.mpr ⟨(), refuseIf_eq_ok_iff.mpr fun hother ↦
      hother.2 (h.ownRealm hother.1).1, ?_⟩
    refine bind_eq_ok_iff.mpr ⟨(), refuseIf_eq_ok_iff.mpr (by rw [hid]; exact h.matching), ?_⟩
    refine bind_eq_ok_iff.mpr ⟨a.targetRealm, require_eq_ok_iff.mpr htarget, ?_⟩
    refine bind_eq_ok_iff.mpr ⟨(), refuseIf_eq_ok_iff.mpr fun hmoved ↦ ?_, ?_⟩
    · rw [(h.ownRealm hmoved.1).2] at hmoved
      cases hmoved.2
    · dsimp only
      rw [hid, ← h.operator, ← h.permissions, ← h.rolePermissions, ← h.grantIds]
      rfl

theorem mem_permissions_iff {user : UserRow} (h : Allowed db catalog registry request user a) :
    id ∈ a.permissions ↔
      (∃ grant, Counts db a.issuerRealm a.userId a.targetRealm.id grant ∧
        RoleHolds db catalog grant id) ∧
      ScopesCarry registry (request.scopes.getD (.list [])) id := by
  have hmatching : ∀ live, live ∈ matchingGrants db a.issuerRealm a.userId a.targetRealm.id ↔
      ∃ grant, Counts db a.issuerRealm a.userId a.targetRealm.id grant ∧
        live = ⟨grant, joinedRole db grant⟩ :=
    fun live ↦ mem_matchingGrants_iff ⟨user, h.account⟩
  rw [h.permissions, mem_effectivePermissions_iff, List.mem_flatMap]
  refine and_congr_left fun _ ↦ ?_
  constructor
  · rintro ⟨live, hlive, hid⟩
    obtain ⟨grant, hcounts, rfl⟩ := (hmatching live).mp hlive
    exact ⟨grant, hcounts, mem_grantedPermissionIds_iff.mp hid⟩
  · rintro ⟨grant, hcounts, hholds⟩
    exact ⟨_, (hmatching _).mpr ⟨grant, hcounts, rfl⟩, mem_grantedPermissionIds_iff.mpr hholds⟩

theorem permissions_mono {user : UserRow} (h : Allowed db catalog registry request user a)
    (hsub : tokenScopeSet (request.scopes.getD (.list [])) ⊆ tokenScopeSet scopes') :
    ∃ a', resolveAdminAuthority db catalog registry { request with scopes := some scopes' } = .ok a' ∧
      a.permissions ⊆ a'.permissions := by
  let a' : AdminAuthority := { a with
    permissions := effectivePermissions registry
      ((matchingGrants db a.issuerRealm a.userId a.targetRealm.id).flatMap
        (grantedPermissionIds catalog)) scopes' }
  have hallowed : Allowed db catalog registry { request with scopes := some scopes' } user a' :=
    { h with permissions := rfl }
  refine ⟨a', resolveAdminAuthority_eq_ok_iff.mpr ⟨user, hallowed⟩, fun id hid ↦ ?_⟩
  rw [h.permissions, mem_effectivePermissions_iff] at hid
  exact mem_effectivePermissions_iff.mpr ⟨hid.1, hid.2.mono hsub⟩

/-! ### Which realms exist -/

/-- `db'` is `db` without the realm that a request acts on. Rows that refer to the realm may be gone
with it, but no account of another realm. -/
structure WithoutTarget (db db' : Database) (targetRealmId : String) : Prop where
  realms : ∀ realm, realm ∈ db'.realms ↔
    realm ∈ db.realms ∧ uuidSchema targetRealmId ≠ some realm.id
  users : db'.users ⊆ db.users
  kept : ∀ user ∈ db.users, uuidSchema targetRealmId ≠ some user.realmId → user ∈ db'.users
  roles : db'.roles ⊆ db.roles
  grants : db'.grants ⊆ db.grants

/-- No grant counts for the account that a token names, on the realm that the request acts on. -/
def NoMatchingGrant (db : Database) (request : AdminAuthorityRequest) : Prop :=
  ∀ issuerRealm userId target grant, db.realmForIssuer request.iss = some issuerRealm →
    uuidSchema request.sub = some userId → uuidSchema request.targetRealmId = some target →
    ¬ Counts db issuerRealm userId target grant

theorem realmForIssuer_eq_some_iff {issuer : String} {realm : RealmRow} :
    db.realmForIssuer issuer = some realm ↔
      realm ∈ db.realms ∧ realm.issuer = some issuer ∧ issuer ≠ "" := by
  rw [Database.realmForIssuer, Option.ite_none_left_eq_some]
  constructor
  · rintro ⟨hne, hfind⟩
    exact ⟨List.mem_of_find?_eq_some hfind, by simpa using List.find?_some hfind, hne⟩
  · rintro ⟨hmem, hissuer, hne⟩
    refine ⟨hne, ?_⟩
    cases hfind : db.realms.find? (·.issuer = some issuer) with
    | none =>
      have hall := List.find?_eq_none.mp hfind realm hmem
      simp [hissuer] at hall
    | some realm' =>
      have hissuer' : realm'.issuer = some issuer := by simpa using List.find?_some hfind
      rw [Table.eq_of_filterMap_eq db.issuers (List.mem_of_find?_eq_some hfind) hmem hissuer' hissuer]

/-- An account of another realm is found in both. -/
theorem WithoutTarget.user?_eq {targetRealmId : String} {realmId : Uuid}
    (h : WithoutTarget db db' targetRealmId) (hne : uuidSchema targetRealmId ≠ some realmId) :
    db'.user? realmId userId = db.user? realmId userId := by
  ext user
  rw [user?_eq_some_iff, user?_eq_some_iff]
  refine and_congr_left ?_
  rintro ⟨rfl, -⟩
  exact ⟨fun hmem ↦ h.users hmem, fun hmem ↦ h.kept user hmem hne⟩

theorem WithoutTarget.counts {targetRealmId : String} (h : WithoutTarget db db' targetRealmId)
    (hcounts : Counts db' issuerRealm userId target grant) :
    Counts db issuerRealm userId target grant where
  mem := h.grants hcounts.mem
  account := hcounts.account
  unrevoked := hcounts.unrevoked
  role := by
    intro roleId hrole
    obtain ⟨role, hmem, hid⟩ := hcounts.role roleId hrole
    exact ⟨role, h.roles hmem, hid⟩
  rule := hcounts.rule
  target := hcounts.target

theorem matchingGrants_eq_nil {user : UserRow} (huser : db.user? issuerRealm.id userId = some user)
    (hnone : ∀ grant, ¬ Counts db issuerRealm userId target grant) :
    matchingGrants db issuerRealm userId target = [] := by
  refine List.eq_nil_iff_forall_not_mem.mpr fun live hlive ↦ ?_
  obtain ⟨grant, hcounts, -⟩ :=
    (mem_matchingGrants_iff ⟨user, user?_eq_some_iff.mp huser⟩).mp hlive
  exact hnone grant hcounts

/-- The answer to a caller without a matching grant. It reads no realm but the issuer's. -/
def answerWithoutGrant (db : Database) (request : AdminAuthorityRequest) :
    Except AdminAuthorityRefusal AdminAuthority := do
  let issuerRealm ← require (db.realmForIssuer request.iss) .issuer_unknown
  refuseIf (issuerRealm.enabled = false) .issuer_unknown
  let sub ← require (uuidSchema request.sub) .account_inactive
  let user ← require (db.user? issuerRealm.id sub) .account_inactive
  refuseIf (Ssf.accountCredentialRefusal user.toUserRow (request.iat.map (· * 1000)) ≠ none)
    .account_inactive
  .error .realm_not_found

theorem require_bind_congr {ε α β : Type} {o : Option α} {e : ε} {f g : α → Except ε β}
    (h : ∀ v, o = some v → f v = g v) : (require o e >>= f) = (require o e >>= g) := by
  cases o with
  | none => rfl
  | some v => exact h v rfl

theorem refuseIf_bind_error {ε α : Type} {c : Prop} [Decidable c] {e : ε} {f : Unit → Except ε α}
    (h : c ∨ f () = .error e) : (refuseIf c e >>= f) = .error e := by
  by_cases hc : c
  · rw [refuseIf, if_pos hc]
    rfl
  · rw [refuseIf, if_neg hc]
    exact h.resolve_left hc

theorem resolveAdminAuthority_of_noMatchingGrant (hnone : NoMatchingGrant db request) :
    resolveAdminAuthority db catalog registry request = answerWithoutGrant db request := by
  refine require_bind_congr fun issuerRealm hissuer ↦ bind_congr fun _ ↦ ?_
  refine require_bind_congr fun sub hsub ↦ require_bind_congr fun user huser ↦ bind_congr fun _ ↦ ?_
  obtain ⟨-, -, rfl⟩ := user?_eq_some_iff.mp huser
  cases htarget : uuidSchema request.targetRealmId with
  | none => rfl
  | some target =>
    have hmatching : matchingGrants db issuerRealm user.id target = [] :=
      matchingGrants_eq_nil huser fun grant ↦
        hnone issuerRealm user.id target grant hissuer hsub htarget
    change (refuseIf (issuerRealm.isOperator = false ∧ target ≠ issuerRealm.id) _ >>= _) = _
    exact refuseIf_bind_error (.inr (refuseIf_bind_error (.inl hmatching)))

/-- A caller without a matching grant learns nothing of the realm it asks for. -/
theorem resolveAdminAuthority_eq_of_withoutTarget
    (h : WithoutTarget db db' request.targetRealmId)
    (hissuer : (db'.realmForIssuer request.iss).isSome = true)
    (hnone : NoMatchingGrant db request) :
    resolveAdminAuthority db' catalog registry request =
      resolveAdminAuthority db catalog registry request := by
  obtain ⟨issuerRealm, hissuer'⟩ := Option.isSome_iff_exists.mp hissuer
  obtain ⟨hmem, hnamed, hne⟩ := realmForIssuer_eq_some_iff.mp hissuer'
  obtain ⟨hmem, hother⟩ := (h.realms issuerRealm).mp hmem
  have hissuer : db.realmForIssuer request.iss = some issuerRealm :=
    realmForIssuer_eq_some_iff.mpr ⟨hmem, hnamed, hne⟩
  have hnone' : NoMatchingGrant db' request := by
    rintro _ userId target grant hrealm hsub htarget hcounts
    cases hissuer'.symm.trans hrealm
    exact hnone issuerRealm userId target grant hissuer hsub htarget (h.counts hcounts)
  have husers : ∀ userId, db'.user? issuerRealm.id userId = db.user? issuerRealm.id userId :=
    fun userId ↦ h.user?_eq hother
  rw [resolveAdminAuthority_of_noMatchingGrant hnone, resolveAdminAuthority_of_noMatchingGrant hnone',
    answerWithoutGrant, answerWithoutGrant, hissuer, hissuer']
  refine require_bind_congr fun realm hrealm ↦ ?_
  cases hrealm
  simp only [husers]

/-! ### The main result -/

theorem Allowed.enabled {user : UserRow} (h : Allowed db catalog registry request user a) :
    user.enabled = true := by
  by_contra hdisabled
  have haccepts := h.accepts
  rw [Ssf.accountCredentialRefusal, if_pos (by simpa using hdisabled)] at haccepts
  cases haccepts

theorem Allowed.ownRealm_eq {user : UserRow} (h : Allowed db catalog registry request user a)
    (hlocal : a.issuerRealm.isOperator = false) :
    a.targetRealm = a.issuerRealm ∧ a.targetRealm.isOperator = false := by
  obtain ⟨hid, hoperator⟩ := h.ownRealm hlocal
  have hissuer : a.issuerRealm ∈ db.realms := (realmForIssuer_eq_some_iff.mp h.issuer).1
  exact ⟨Table.eq_of_key_eq db.realmIds h.targetRealm hissuer hid, hoperator⟩

/-- An allowed token is one of an enabled account of its issuer's realm. Its permissions are those of
the grants that count and of its scopes, and they grow with its scopes. A token that is not of the
operator realm acts on its own realm alone. A caller without a matching grant gets the same answer
whether the realm that it asks for exists or not; its own realm exists, for the token was verified. -/
theorem resolveAdminAuthority_sound (db : Database) (catalog registry : PermissionRegistry)
    (request : AdminAuthorityRequest) :
    (∀ a, resolveAdminAuthority db catalog registry request = .ok a →
      (∃ user ∈ db.users, user.id = a.userId ∧ uuidSchema request.sub = some user.id ∧
        user.realmId = a.issuerRealm.id ∧ user.enabled = true ∧
        Ssf.accountCredentialRefusal user.toUserRow (request.iat.map (· * 1000)) = none) ∧
      (a.issuerRealm ∈ db.realms ∧ a.issuerRealm.issuer = some request.iss ∧
        a.issuerRealm.enabled = true) ∧
      (a.targetRealm ∈ db.realms ∧ uuidSchema request.targetRealmId = some a.targetRealm.id) ∧
      (∀ id, id ∈ a.permissions ↔
        (∃ grant, Counts db a.issuerRealm a.userId a.targetRealm.id grant ∧
          RoleHolds db catalog grant id) ∧
        ScopesCarry registry (request.scopes.getD (.list [])) id) ∧
      (∀ scopes', tokenScopeSet (request.scopes.getD (.list [])) ⊆ tokenScopeSet scopes' →
        ∃ a', resolveAdminAuthority db catalog registry { request with scopes := some scopes' } =
          .ok a' ∧ a.permissions ⊆ a'.permissions) ∧
      (a.issuerRealm.isOperator = false →
        a.targetRealm = a.issuerRealm ∧ a.targetRealm.isOperator = false)) ∧
    ∀ db', WithoutTarget db db' request.targetRealmId →
      (db'.realmForIssuer request.iss).isSome = true → NoMatchingGrant db request →
      resolveAdminAuthority db' catalog registry request =
        resolveAdminAuthority db catalog registry request := by
  refine ⟨fun a h ↦ ?_, fun db' ↦ resolveAdminAuthority_eq_of_withoutTarget⟩
  obtain ⟨user, h⟩ := resolveAdminAuthority_eq_ok_iff.mp h
  obtain ⟨hmem, hrealm, hid⟩ := h.account
  obtain ⟨hissuer, hnamed, -⟩ := realmForIssuer_eq_some_iff.mp h.issuer
  exact ⟨⟨user, hmem, hid, h.sub, hrealm, h.enabled, h.accepts⟩, ⟨hissuer, hnamed, h.issuerEnabled⟩,
    ⟨h.targetRealm, h.target⟩, fun id ↦ mem_permissions_iff h, fun scopes' ↦ permissions_mono h,
    h.ownRealm_eq⟩

/-! ### A run -/

def sampleCatalog : PermissionRegistry where
  all := [⟨"users.read", .read, none⟩, ⟨"users.write", .write, none⟩]
  nodup := by decide

def editorId : String := "00000000-0000-4000-8000-000000000007"

def ownRealmId : String := "00000000-0000-4000-8000-000000000001"

def otherRealmId : String := "00000000-0000-4000-8000-000000000002"

def sampleUuid (text : String) : Uuid := UuidText.value text.toList

def sampleRealm : RealmRow :=
  ⟨sampleUuid ownRealmId, true, false, some "https://one.example"⟩

/-- A realm with an editor, and perhaps another realm. -/
def sampleDatabase (other : Bool) : Database where
  realms := sampleRealm ::
    if other then [⟨sampleUuid otherRealmId, true, false, none⟩] else []
  users := [⟨⟨true, none⟩, sampleUuid editorId, sampleUuid ownRealmId⟩]
  roles := []
  grants := [⟨9, sampleUuid editorId, .builtIn "editor", some (sampleUuid ownRealmId), 0, none⟩]
  realmIds := by cases other <;> decide
  userIds := by decide
  roleIds := by decide
  issuers := by cases other <;> decide

/-- A token of the editor that only reads. -/
def sampleRequest (targetRealmId : String) : AdminAuthorityRequest where
  iss := "https://one.example"
  sub := editorId
  iat := some 1000
  scopes := some (.list [ADMIN_SCOPES .read])
  targetRealmId

/-- What the editor's token may do in its realm. -/
def sampleAuthority : AdminAuthority where
  issuerRealm := sampleRealm
  operator := false
  targetRealm := sampleRealm
  userId := sampleUuid editorId
  permissions := ["users.read"]
  rolePermissions := ["users.read", "users.write"]
  grantIds := [9]

/-- The editor may read in its realm, and it does not learn whether there is another realm. -/
theorem resolveAdminAuthority_sound_sample :
    (resolveAdminAuthority (sampleDatabase true) sampleCatalog sampleCatalog
        (sampleRequest ownRealmId) = .ok sampleAuthority ∧
      sampleAuthority.targetRealm = sampleAuthority.issuerRealm) ∧
    resolveAdminAuthority (sampleDatabase false) sampleCatalog sampleCatalog
        (sampleRequest otherRealmId) =
      resolveAdminAuthority (sampleDatabase true) sampleCatalog sampleCatalog
        (sampleRequest otherRealmId) := by
  constructor
  · have hallowed : resolveAdminAuthority (sampleDatabase true) sampleCatalog sampleCatalog
        (sampleRequest ownRealmId) = .ok sampleAuthority := by decide
    have hsound := (resolveAdminAuthority_sound (sampleDatabase true) sampleCatalog sampleCatalog
      (sampleRequest ownRealmId)).1 sampleAuthority hallowed
    exact ⟨hallowed, (hsound.2.2.2.2.2 rfl).1⟩
  · refine (resolveAdminAuthority_sound (sampleDatabase true) sampleCatalog sampleCatalog
      (sampleRequest otherRealmId)).2 (sampleDatabase false) ?_ (by decide) ?_
    · have htarget : uuidSchema (sampleRequest otherRealmId).targetRealmId =
          some (sampleUuid otherRealmId) := by decide
      have hne : sampleUuid otherRealmId ≠ sampleUuid ownRealmId := by decide
      refine ⟨fun realm ↦ ?_, fun _ h ↦ h, fun _ h _ ↦ h, fun _ h ↦ h, fun _ h ↦ h⟩
      simp only [htarget, sampleDatabase, ne_eq, Option.some.injEq, if_true, Bool.false_eq_true,
        if_false, List.mem_cons, List.not_mem_nil, or_false]
      constructor
      · rintro rfl
        exact ⟨.inl rfl, hne⟩
      · rintro ⟨rfl | rfl, hother⟩
        · rfl
        · exact absurd rfl hother
    · rintro issuerRealm userId target grant hissuer - htarget hcounts
      have hrealm : (sampleDatabase true).realmForIssuer (sampleRequest otherRealmId).iss =
        some sampleRealm := by decide
      cases hrealm.symm.trans hissuer
      have hother : uuidSchema (sampleRequest otherRealmId).targetRealmId =
        some (sampleUuid otherRealmId) := by decide
      obtain rfl := Option.some.inj (hother.symm.trans htarget)
      obtain rfl := List.mem_singleton.mp hcounts.mem
      have hne : sampleUuid ownRealmId ≠ sampleUuid otherRealmId := by decide
      rcases hcounts.target with hsame | ⟨hoperator, -⟩
      · exact hne (Option.some.inj hsame)
      · cases hoperator

end QAuth.Admin
