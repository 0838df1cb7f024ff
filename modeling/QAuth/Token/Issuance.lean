import QAuth.Token.Client

/-!
# What a grant may issue

The decisions every grant of `routes/oauth/token.ts` makes between its own checks and its
transaction: the admin issuance rule (`helpers/admin-issuance.ts`, `issuableScopes`), the DPoP
binding of codes and refresh tokens, the token's lifetime, and the claims the signer puts on the
access token (`buildAccessTokenClaims`, `withLifetime`).
-/

namespace QAuth.Token

open Guards

/-! ### The context of a request -/

/-- `TokenLifetimes`, in seconds. -/
structure TokenLifetimes where
  accessTokenLifespanSeconds : ℕ
  developmentAccessTokenLifespanSeconds : ℕ
  refreshTokenLifespanSeconds : ℕ
  adminAccessTokenLifespanSeconds : ℕ

/-- `AccessTokenLifespanTier`. -/
inductive LifespanTier
  | short | long

/-- `EnvironmentPolicy`: what the grant handlers read of it. -/
structure EnvironmentPolicy where
  pkceRequired : Bool
  accessTokenLifespanTier : LifespanTier

/-- `HandlerContext`, with the two server settings a handler reads beside it: whether DPoP is on,
and the `client_id` of the system client. -/
structure HandlerContext where
  client : OAuthClient
  policy : EnvironmentPolicy
  ssoMaxLifespan : Option ℕ
  tokenLifetimes : TokenLifetimes
  dpopThumbprint : Option String
  dpopEnabled : Bool
  systemClientId : String

/-- A row of `users`: what the grants read of it. -/
structure User where
  id : Uuid
  enabled : Bool
  notValidBefore : Option ℕ

/-- The accounts of the request's realm, by id: `users.findById`. -/
structure Accounts where
  find : Uuid → Option User
  id_of_find : ∀ {id user}, find id = some user → user.id = id

/-- The accounts of a list of rows. -/
def Accounts.ofList (users : List User) : Accounts where
  find id := users.find? fun user ↦ user.id = id
  id_of_find h := by simpa using List.find?_some h

/-- The accounts and their admin grants, as the issuance rule reads them. -/
structure Directory where
  accounts : Accounts
  /-- The classes of the grantable permissions of the account's live grants that fit the realm
  rule. -/
  liveGrantClasses : Uuid → List PermissionClass

/-! ### Lifetimes -/

/-- `ADMIN_ACCESS_TOKEN_MAX_LIFESPAN_SECONDS`. -/
def adminAccessTokenMaxLifespanSeconds : ℕ := 900

/-- `accessTokenLifespanForPolicy`: the seconds of the policy's tier. -/
def accessTokenLifespanForPolicy (lifetimes : TokenLifetimes) (policy : EnvironmentPolicy) : ℕ :=
  match policy.accessTokenLifespanTier with
  | .long => lifetimes.developmentAccessTokenLifespanSeconds
  | .short => lifetimes.accessTokenLifespanSeconds

/-- `accessTokenLifespanFor`: the tier's, and at most the admin lifetime for the admin audience. -/
def accessTokenLifespanFor (lifetimes : TokenLifetimes) (policy : EnvironmentPolicy)
    (aud : Audience) : ℕ :=
  let tierSeconds := accessTokenLifespanForPolicy lifetimes policy
  if aud.namesAdmin then
    min tierSeconds
      (min lifetimes.adminAccessTokenLifespanSeconds adminAccessTokenMaxLifespanSeconds)
  else tierSeconds

/-! ### Accounts -/

/-- `issuedBeforeDisablement`, with its margin of a second. -/
def issuedBeforeDisablement (user : User) (issuedAt : Option ℕ) : Bool :=
  match user.notValidBefore, issuedAt with
  | none, _ => false
  | some _, none => true
  | some notValidBefore, some issuedAt => issuedAt ≤ notValidBefore + 1000

/-- `accountCredentialRefusal`: the reason an account's credential is refused, if any. -/
def accountCredentialRefusal (user : User) (issuedAt : Option ℕ) : Option String :=
  if !user.enabled then some "user_disabled"
  else if issuedBeforeDisablement user issuedAt then some "issued_before_disablement"
  else none

/-! ### DPoP -/

/-- `dpopBindingRefusal`: hold a code or refresh token bound to a key to that key. -/
def dpopBindingRefusal (ctx : HandlerContext) (boundThumbprint : Option String) :
    Option (OAuthError × String) :=
  match boundThumbprint with
  | none => none
  | some bound =>
    if !ctx.dpopEnabled then some (.invalidGrant, "dpop_disabled")
    else
      match ctx.dpopThumbprint with
      | none => some (.invalidDpopProof, "dpop_missing_proof")
      | some thumbprint =>
        if thumbprint ≠ bound then some (.invalidDpopProof, "dpop_key_mismatch") else none

/-- What is bound to a key passes only with a proof under that key. -/
theorem dpopBindingRefusal_eq_none {ctx : HandlerContext} {bound : String}
    (h : dpopBindingRefusal ctx (some bound) = none) : ctx.dpopThumbprint = some bound := by
  unfold dpopBindingRefusal at h
  cases hd : ctx.dpopEnabled <;> cases ht : ctx.dpopThumbprint <;> simp_all

/-- `isAdminToken`: the admin audience, or an admin scope. -/
def isAdminToken (scopes : List Scope) (aud : Audience) : Bool :=
  aud.namesAdmin || scopes.any isAdminScope

/-- `refreshTokenBinding`: the key a newly issued refresh token is bound to. -/
def refreshTokenBinding (ctx : HandlerContext) (scopes : List Scope) (aud : Audience) :
    Option String :=
  if isPublicClient ctx.client || isAdminToken scopes aud then ctx.dpopThumbprint else none

theorem refreshTokenBinding_of_admin {ctx : HandlerContext} {scopes : List Scope} {aud : Audience}
    (h : isAdminToken scopes aud = true) :
    refreshTokenBinding ctx scopes aud = ctx.dpopThumbprint := by
  simp [refreshTokenBinding, h]

/-! ### The admin issuance rule -/

/-- `AdminIssuanceRequest`. -/
structure AdminIssuanceRequest where
  client : OAuthClient
  userId : Option Uuid
  /-- Absent: whether `userId` names one. -/
  namesUser : Option Bool
  scopes : List Scope
  aud : Audience
  dpopBound : Bool

/-- `AdminIssuance`. -/
structure AdminIssuance where
  scopes : List Scope
  withheld : List Scope
  audienceRefused : Bool
  proofMissing : Bool

/-- `heldPermissionClasses`: the permission classes an account's live grants give; none for no
account and for a missing or disabled one. -/
def heldPermissionClasses (directory : Directory) (userId : Option Uuid) : List PermissionClass :=
  match userId with
  | none => []
  | some id =>
    match directory.accounts.find id with
    | none => []
    | some user => if user.enabled then directory.liveGrantClasses id else []

/-- `allowedByGrants` of `adminIssuance`: whether a scope may reach the token, its key aside. -/
def allowedByGrants (request : AdminIssuanceRequest) (held : List PermissionClass)
    (scope : Scope) : Bool :=
  if !isReservedQauthScope scope then true
  else
    match familyScopeOf scope with
    | some familyScope =>
      request.namesUser.getD request.userId.isSome &&
        unlistedReservedAudiences request.client (.one familyScope.family.audience) = []
    | none =>
      match permissionClassOfScope scope with
      | none => false
      | some permissionClass =>
        unlistedReservedAudiences request.client (.one ApiFamily.admin.audience) = [] &&
          held.contains permissionClass

/-- `adminIssuance`: which `qauth:` scopes a token may carry, and whether it may name the admin
audience. -/
def adminIssuance (directory : Directory) (request : AdminIssuanceRequest) : AdminIssuance :=
  let reserved := request.scopes.filter isReservedQauthScope
  let namesAdminAudience := request.aud.namesAdmin
  if reserved = [] ∧ namesAdminAudience = false then
    ⟨request.scopes, [], false, false⟩
  else
    -- The grants are read only where an admin scope or the admin audience depends on them.
    let held :=
      if namesAdminAudience || reserved.any isAdminScope then
        heldPermissionClasses directory request.userId
      else []
    let audienceRefused := namesAdminAudience && held.isEmpty
    let unbound := fun scope ↦
      !request.dpopBound && isAdminScope scope && allowedByGrants request held scope
    let issuable := fun scope ↦ allowedByGrants request held scope && !unbound scope
    ⟨request.scopes.filter issuable, request.scopes.filter fun scope ↦ !issuable scope,
      audienceRefused,
      !request.dpopBound &&
        (namesAdminAudience && !audienceRefused || request.scopes.any unbound)⟩

section AdminIssuance

variable {directory : Directory} {request : AdminIssuanceRequest}

theorem adminIssuance_scopes_subset :
    ∀ s ∈ (adminIssuance directory request).scopes, s ∈ request.scopes := by
  intro s hs
  unfold adminIssuance at hs
  simp only at hs
  split_ifs at hs
  · exact hs
  · exact List.mem_of_mem_filter hs
  · exact List.mem_of_mem_filter hs

theorem exists_userId_of_mem_heldPermissionClasses {userId : Option Uuid} {c : PermissionClass}
    (h : c ∈ heldPermissionClasses directory userId) : userId ≠ none := by
  rintro rfl
  cases h

theorem allowedByGrants_of_isAdminScope {held : List PermissionClass} {scope : Scope}
    (hadmin : isAdminScope scope = true) (h : allowedByGrants request held scope = true) :
    ∃ c, c ∈ held := by
  unfold allowedByGrants at h
  rw [isReservedQauthScope_of_isAdminScope hadmin,
    familyScopeOf_eq_none_of_isAdminScope hadmin] at h
  cases hclass : permissionClassOfScope scope with
  | none => simp [hclass] at h
  | some c =>
    simp only [hclass] at h
    exact ⟨c, by simp_all⟩

/-- An admin scope is issued only for a token bound to a key, and to an account. -/
theorem adminIssuance_of_isAdminScope {scope : Scope}
    (hs : scope ∈ (adminIssuance directory request).scopes) (hadmin : isAdminScope scope = true) :
    request.dpopBound = true ∧ request.userId ≠ none := by
  have hreserved := isReservedQauthScope_of_isAdminScope hadmin
  unfold adminIssuance at hs
  simp only at hs
  split_ifs at hs with hnone
  · exact absurd (List.mem_filter.mpr ⟨hs, hreserved⟩) (by rw [hnone.1]; simp)
  · obtain ⟨-, hissuable⟩ := List.mem_filter.mp hs
    rw [Bool.and_eq_true] at hissuable
    obtain ⟨hallowed, hbound⟩ := hissuable
    obtain ⟨c, hc⟩ := allowedByGrants_of_isAdminScope hadmin hallowed
    refine ⟨?_, exists_userId_of_mem_heldPermissionClasses hc⟩
    rw [hallowed, hadmin] at hbound
    simpa using hbound
  · obtain ⟨-, hissuable⟩ := List.mem_filter.mp hs
    rw [Bool.and_eq_true] at hissuable
    obtain ⟨c, hc⟩ := allowedByGrants_of_isAdminScope hadmin hissuable.1
    cases hc

/-- The admin audience passes only for a token bound to a key, and for an account. -/
theorem adminIssuance_of_namesAdmin (hadmin : request.aud.namesAdmin = true)
    (hrefused : (adminIssuance directory request).audienceRefused = false)
    (hproof : (adminIssuance directory request).proofMissing = false) :
    request.dpopBound = true ∧ request.userId ≠ none := by
  unfold adminIssuance at hrefused hproof
  simp only [hadmin, Bool.true_eq_false, and_false, if_false, Bool.true_or, if_true,
    Bool.true_and] at hrefused hproof
  refine ⟨?_, ?_⟩
  · rw [hrefused] at hproof
    simpa using hproof
  · cases hheld : heldPermissionClasses directory request.userId with
    | nil => simp [hheld] at hrefused
    | cons c cs =>
      have hmem : c ∈ heldPermissionClasses directory request.userId := by
        rw [hheld]
        exact List.mem_cons_self
      exact exists_userId_of_mem_heldPermissionClasses hmem

end AdminIssuance

/-- What a grant is about to issue, as `issuableScopes` takes it. -/
structure Issuance where
  userId : Option Uuid
  scopes : List Scope
  aud : Audience
  namesUser : Option Bool

/-- The request the issuance rule decides. -/
def Issuance.request (issuance : Issuance) (ctx : HandlerContext) (dpopBound : Bool) :
    AdminIssuanceRequest where
  client := ctx.client
  userId := issuance.userId
  namesUser := issuance.namesUser
  scopes := issuance.scopes
  aud := issuance.aud
  dpopBound := dpopBound

/-- `issuableScopes`: the scopes to issue, or the refusal of the token. `dpopBound` says whether
the token issued is bound to a key. -/
def issuableScopes (ctx : HandlerContext) (directory : Directory) (issuance : Issuance)
    (dpopBound : Bool) : Except Refusal (List Scope) := do
  let decision := adminIssuance directory (issuance.request ctx dpopBound)
  refuseIf (decision.audienceRefused = true)
    (refusal .invalidTarget "admin_audience_without_grant"
      "the admin API audience is issued only to an account that holds an admin grant")
  let namesAdmin := issuance.aud.namesAdmin
  let missing := decision.proofMissing && (namesAdmin || decision.scopes.isEmpty)
  -- Where a proof would lift the refusal it asks for one, else it names the audience or the scope.
  refuseIf ((missing && ctx.dpopEnabled && ctx.dpopThumbprint.isNone) = true)
    (refusal .invalidDpopProof "admin_token_without_dpop"
      "a token for the admin API, or with an admin scope, is issued only with a DPoP proof")
  refuseIf ((missing && namesAdmin) = true)
    (refusal .invalidTarget "admin_token_without_dpop"
      "the admin API audience is issued only in a DPoP-bound token")
  refuseIf (missing = true)
    (refusal .invalidScope "admin_token_without_dpop"
      "admin scopes are issued only in a DPoP-bound token")
  let reason :=
    if decision.withheld.any isAdminScope then "admin_scope_without_grant"
    else "reserved_scope_not_issued"
  refuseIf (decision.scopes = [] ∧ decision.withheld ≠ [])
    (refusal .invalidScope reason (namesThen decision.withheld " not issued to this account"))
  return decision.scopes

/-- The scopes issued are among those asked for, and an admin token is issued only bound to a key,
and only for an account. -/
theorem issuableScopes_eq_ok {ctx : HandlerContext} {directory : Directory} {issuance : Issuance}
    {dpopBound : Bool} {issued : List Scope}
    (h : issuableScopes ctx directory issuance dpopBound = .ok issued) :
    (∀ s ∈ issued, s ∈ issuance.scopes) ∧
      (isAdminToken issued issuance.aud = true → dpopBound = true ∧ issuance.userId ≠ none) := by
  simp only [issuableScopes, bind_eq_ok_iff, refuseIf_eq_ok_iff, pure_eq_ok_iff] at h
  obtain ⟨-, haudience, -, -, -, htarget, -, hmissing, -, -, rfl⟩ := h
  refine ⟨adminIssuance_scopes_subset, fun hadmin ↦ ?_⟩
  by_cases hnames : issuance.aud.namesAdmin = true
  · have hrequest : (issuance.request ctx dpopBound).aud.namesAdmin = true := hnames
    rw [hnames] at hmissing
    exact adminIssuance_of_namesAdmin hrequest (by simpa using haudience) (by simpa using hmissing)
  · rw [Bool.not_eq_true] at hnames
    rw [isAdminToken, hnames, Bool.false_or, List.any_eq_true] at hadmin
    obtain ⟨s, hs, hscope⟩ := hadmin
    exact adminIssuance_of_isAdminScope hs hscope

/-- `assertReservedAudiencesListed`: a reserved audience goes only to a client that lists it. -/
def assertReservedAudiencesListed (ctx : HandlerContext) (aud : Audience) : Except Refusal Unit :=
  refuseIf (unlistedReservedAudiences ctx.client aud ≠ [])
    (refusal .invalidTarget "reserved_audience_not_listed"
      "a QAuth API audience is issued only to a client that lists it")

/-! ### Refusals that leave the grant alone -/

theorem refuses_issuableScopes {ctx : HandlerContext} {directory : Directory} {issuance : Issuance}
    {dpopBound : Bool} :
    Refuses (fun e ↦ e.effect = .none) (issuableScopes ctx directory issuance dpopBound) := by
  unfold issuableScopes
  simp only [refuses_bind_iff, refuses_refuseIf_iff]
  exact ⟨fun _ ↦ rfl, fun _ _ ↦ ⟨fun _ ↦ rfl, fun _ _ ↦ ⟨fun _ ↦ rfl, fun _ _ ↦ ⟨fun _ ↦ rfl,
    fun _ _ ↦ ⟨fun _ ↦ rfl, fun _ _ ↦ refuses_pure⟩⟩⟩⟩⟩

theorem refuses_assertReservedAudiencesListed {ctx : HandlerContext} {aud : Audience} :
    Refuses (fun e ↦ e.effect = .none) (assertReservedAudiencesListed ctx aud) :=
  refuses_refuseIf_iff.mpr fun _ ↦ rfl

end QAuth.Token
