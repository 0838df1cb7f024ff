import QAuth.Token.AccessToken

/-!
# The authorization code grant

`handleAuthorizationCode` of `routes/oauth/token.ts`: the checks of a redemption in the order of
the source, and what the redemption issues, an access token and, under a stored consent, the first
refresh token of a new family. The lifetime of a family is that of `helpers/refresh-family.ts`.

The checks are a function of what the handler reads (`CodeReads`), and give what its transaction is
to spend, store and sign. The compare-and-set that spends the code is in the store; its outcome is
given to the handler here.
-/

namespace QAuth.Token

open Guards

/-! ### Rows -/

/-- A row of `authorization_codes`. -/
structure AuthorizationCode where
  id : Uuid
  oauthClientId : Uuid
  userId : Uuid
  redirectUri : String
  codeChallenge : String
  dpopJkt : Option String
  scopes : List Scope
  resource : List String
  used : Bool
  createdAt : ℕ
  expiresAt : ℕ
  authTime : Option ℕ
  amr : Option (List String)
  sessionId : Option String
  sessionExpiresAt : Option ℕ

/-- What `refreshTokens.create` is given. -/
structure NewRefreshToken where
  userId : Uuid
  oauthClientId : Uuid
  tokenHash : String
  previousTokenHash : Option String
  familyId : Uuid
  /-- The code that started the family; only its first token has one. -/
  authorizationCodeId : Option Uuid
  familyCreatedAt : ℕ
  familySessionExpiresAt : Option ℕ
  authTime : Option ℕ
  amr : Option (List String)
  expiresAt : ℕ
  scopes : List Scope
  resource : List String
  /-- The DPoP key the token is bound to. -/
  cnfJkt : Option String

/-- A row of `refresh_tokens`. -/
structure RefreshToken extends NewRefreshToken where
  id : Uuid
  createdAt : ℕ
  revoked : Bool
  revokedReason : Option String

/-- The row `create` inserts. -/
def NewRefreshToken.row (data : NewRefreshToken) (id : Uuid) (createdAt : ℕ) : RefreshToken where
  toNewRefreshToken := data
  id := id
  createdAt := createdAt
  revoked := false
  revokedReason := none

/-! ### The lifetime of a family -/

/-- `refreshFamilyEnd`: under the realm's `sso_max_lifespan`, the earlier of the family's start
plus the limit and the end of its browser session. -/
def refreshFamilyEnd (familyCreatedAt : ℕ) (ssoMaxLifespan familySessionExpiresAt : Option ℕ) :
    Option ℕ :=
  ssoMaxLifespan.map fun seconds ↦
    match familySessionExpiresAt with
    | none => familyCreatedAt + seconds * 1000
    | some sessionEnd => min (familyCreatedAt + seconds * 1000) sessionEnd

/-- `refreshTokenExpiresAt`. -/
def refreshTokenExpiresAt (now lifespanSeconds : ℕ) (familyEnd : Option ℕ) : ℕ :=
  match familyEnd with
  | none => now + lifespanSeconds * 1000
  | some familyEnd => min (now + lifespanSeconds * 1000) familyEnd

/-- `rotatedRefreshTokenExpiresAt`: a browser-based client's token never outlives the one it
replaces. -/
def rotatedRefreshTokenExpiresAt (now lifespanSeconds : ℕ) (familyEnd : Option ℕ)
    (replacedExpiresAt : ℕ) (browserBased : Bool) : ℕ :=
  let expiresAt := refreshTokenExpiresAt now lifespanSeconds familyEnd
  if browserBased then min expiresAt replacedExpiresAt else expiresAt

/-- `refreshFamilyEnded`. -/
def refreshFamilyEnded (familyEnd : Option ℕ) (now : ℕ) : Bool :=
  match familyEnd with
  | none => false
  | some familyEnd => familyEnd ≤ now

/-! ### Consent -/

/-- An active row of `oauth_consents`. -/
structure Consent where
  scopes : List Scope
  resourceScopes : List (String × List Scope)

/-- `isScopeSubset`. -/
def isScopeSubset (requested granted : List Scope) : Bool := requested.all granted.contains

/-- `consentCovers`: the consent covers the scopes at every one of the resources. -/
def consentCovers (consent : Consent) (scopes : List Scope) (resources : List String) : Bool :=
  isScopeSubset scopes consent.scopes &&
    resources.all fun resource ↦
      match consent.resourceScopes.lookup resource with
      | none => false
      | some granted => isScopeSubset scopes granted

/-! ### The redemption -/

/-- The body of a redemption. -/
structure CodeBody where
  redirectUri : Option String
  codeVerifier : String
  resource : List String

/-- What a redemption reads: the code by its value, the clock, the account and its consent, and
the fresh values it issues under. -/
structure CodeReads where
  code : Option AuthorizationCode
  now : ℕ
  verifyCodeChallenge : String → String → Bool
  issuedAt : ℕ
  accounts : Accounts
  consent : Option Consent
  directory : Directory
  tokenHash : String
  familyId : Uuid

/-- `accountSessionClaim`: the browser session, on the account API's token alone. -/
def accountSessionClaim (aud : Audience) (sessionId : Option String) : Option String :=
  if aud.values = [ApiFamily.account.audience] then sessionId.filter (· ≠ "") else none

/-- `token_type` of the response. -/
inductive TokenType
  | dpop | bearer

/-- `tokenTypeFor`. -/
def tokenTypeFor (ctx : HandlerContext) : TokenType :=
  if ctx.dpopThumbprint.isSome then .dpop else .bearer

/-- What a grant issues: the refresh token it stores, if any, and the response. -/
structure Issued where
  refresh : Option NewRefreshToken
  accessToken : AccessToken
  expiresIn : ℕ
  tokenType : TokenType

/-- The answer of a grant that stores `refresh` and signs `payload` at `signedAt`. -/
def issue (ctx : HandlerContext) (refresh : Option NewRefreshToken) (payload : SignPayload)
    (jti : String) (signedAt : ℕ) : Issued :=
  ⟨refresh, signAccessToken payload jti signedAt, payload.expiresIn, tokenTypeFor ctx⟩

/-- What a redemption that passed its checks is to spend, store and sign. -/
structure Redemption where
  code : AuthorizationCode
  refresh : Option NewRefreshToken
  payload : SignPayload

/-- What the caller of an unusable code is told. -/
def unusableCode : Option String := "Invalid or expired authorization code"

/-- The answer to a second redemption, `rejectCodeReplay`. -/
def codeReplayRefusal : Refusal := ⟨.invalidGrant, "code_replay", unusableCode, .codeReplay⟩

/-- A refusal of a code bound to a key: a spent code is `invalid_grant` whatever the proof. -/
def codeBindingRefusal (ctx : HandlerContext) (code : AuthorizationCode) : Option Refusal :=
  (dpopBindingRefusal ctx code.dpopJkt).map fun binding ↦
    let error := if code.used then .invalidGrant else binding.1
    refusal error binding.2 (if error = .invalidGrant then unusableCode else none)

/-- The first refresh token of the family a redemption starts. -/
def startedRefreshToken (ctx : HandlerContext) (reads : CodeReads) (code : AuthorizationCode)
    (userId : Uuid) (resource : List String) (issuedScopes : List Scope) (aud : Audience) :
    NewRefreshToken where
  userId := userId
  oauthClientId := ctx.client.id
  tokenHash := reads.tokenHash
  previousTokenHash := none
  familyId := reads.familyId
  authorizationCodeId := some code.id
  familyCreatedAt := reads.issuedAt
  familySessionExpiresAt := code.sessionExpiresAt
  authTime := (recordedSignIn code.authTime code.amr).authTime
  amr := (recordedSignIn code.authTime code.amr).amr
  expiresAt := refreshTokenExpiresAt reads.issuedAt ctx.tokenLifetimes.refreshTokenLifespanSeconds
    (refreshFamilyEnd reads.issuedAt ctx.ssoMaxLifespan code.sessionExpiresAt)
  scopes := code.scopes
  resource := resource
  cnfJkt := refreshTokenBinding ctx issuedScopes aud

def redemptionPayload (ctx : HandlerContext) (code : AuthorizationCode) (userId : Uuid)
    (issuedScopes : List Scope) (aud : Audience) : SignPayload where
  sub := userId
  clientId := ctx.client.clientId
  scopes := issuedScopes
  aud := aud
  act := none
  cnf := ctx.dpopThumbprint
  signIn := recordedSignIn code.authTime code.amr
  sid := accountSessionClaim aud code.sessionId
  expiresIn := accessTokenLifespanFor ctx.tokenLifetimes ctx.policy aud
  expiresNotAfter := none

/-- What a redemption issues its tokens for: the named resources, or else the code's. -/
def effectiveResource (requested bound : List String) : List String :=
  if requested ≠ [] then requested else bound

/-- `handleAuthorizationCode` up to its transaction: the checks, in order, and what the transaction
is to write and sign. -/
def checkRedemption (ctx : HandlerContext) (body : CodeBody) (reads : CodeReads) :
    Except Refusal Redemption := do
  refuseIf ("authorization_code" ∉ ctx.client.grantTypes)
    (refusal .unauthorizedClient "grant_type_not_allowed" none)
  let code ← require reads.code (refusal .invalidGrant "code_invalid" unusableCode)
  refuseIf (code.used = false ∧ code.expiresAt ≤ reads.now)
    (refusal .invalidGrant "code_invalid" unusableCode)
  refuseIf (code.oauthClientId ≠ ctx.client.id)
    (refusal .invalidGrant "client_mismatch" unusableCode)
  let redirectUri ← require (body.redirectUri.filter (· ≠ ""))
    (refusal .invalidGrant "redirect_uri_missing" "redirect_uri is required for this code")
  refuseIf (redirectUri ≠ code.redirectUri)
    (refusal .invalidGrant "redirect_uri_mismatch" unusableCode)
  -- A verifier against a code without a challenge is a downgrade, whatever the policy.
  refuseIf (code.codeChallenge = "" ∧ body.codeVerifier ≠ "")
    (refusal .invalidGrant "pkce_downgrade" unusableCode)
  refuseIf (code.codeChallenge = "" ∧ ctx.policy.pkceRequired = true)
    (refusal .invalidGrant "pkce_required" unusableCode)
  refuseIf (code.codeChallenge ≠ "" ∧
      reads.verifyCodeChallenge body.codeVerifier code.codeChallenge = false)
    (refusal .invalidGrant "pkce_mismatch" unusableCode)
  refuseSome (codeBindingRefusal ctx code)
  refuseIf ((body.resource.filter fun r ↦ r ∉ code.resource) ≠ [] ∧ code.used = true)
    (refusal .invalidGrant "resource_outside_binding" unusableCode)
  refuseIf ((body.resource.filter fun r ↦ r ∉ code.resource) ≠ [])
    (refusal .invalidTarget "resource_outside_binding"
      "requested resource is outside the authorization-code binding")
  refuseIf (code.used = true) codeReplayRefusal
  let user ← require (reads.accounts.find code.userId)
    (refusal .invalidGrant "user_not_found" unusableCode)
  -- The earlier of the code and the sign-in behind it.
  let startedAt := min code.createdAt (code.authTime.getD code.createdAt)
  refuseSome ((accountCredentialRefusal user (some startedAt)).map fun reason ↦
    ⟨.invalidGrant, reason, unusableCode, .burnCode⟩)
  (enforceAgentScopeCap code.scopes ctx.client).mapError fun e ↦
    ⟨e.1, "scope_exceeds_agent_mode", e.2, .burnCode⟩
  let resource := effectiveResource body.resource code.resource
  let aud := resolveUserGrantAudience ctx.systemClientId ctx.client resource
  assertReservedAudiencesListed ctx aud
  let issuedScopes ← issuableScopes ctx reads.directory
    ⟨some user.id, code.scopes, aud, none⟩ ctx.dpopThumbprint.isSome
  -- A refresh token only under a stored consent that covers its scopes and resources.
  let refresh := (reads.consent.filter (consentCovers · code.scopes resource)).map fun _ ↦
    startedRefreshToken ctx reads code user.id resource issuedScopes aud
  return ⟨code, refresh, redemptionPayload ctx code user.id issuedScopes aud⟩

/-- `handleAuthorizationCode`, where `spent` says that this request's `markUsed` spent the code, and
the token is signed at `signedAt`. -/
def handleAuthorizationCode (ctx : HandlerContext) (body : CodeBody) (reads : CodeReads)
    (spent : Bool) (jti : String) (signedAt : ℕ) : Except Refusal Issued := do
  let redemption ← checkRedemption ctx body reads
  refuseIf (spent = false) codeReplayRefusal
  return issue ctx redemption.refresh redemption.payload jti signedAt

theorem handleAuthorizationCode_eq_ok {ctx : HandlerContext} {body : CodeBody} {reads : CodeReads}
    {spent : Bool} {jti : String} {signedAt : ℕ} {issued : Issued}
    (h : handleAuthorizationCode ctx body reads spent jti signedAt = .ok issued) :
    ∃ redemption, checkRedemption ctx body reads = .ok redemption ∧
      issued = issue ctx redemption.refresh redemption.payload jti signedAt := by
  simp only [handleAuthorizationCode, bind_eq_ok_iff, refuseIf_eq_ok_iff, pure_eq_ok_iff] at h
  obtain ⟨redemption, hcheck, -, -, hissued⟩ := h
  exact ⟨redemption, hcheck, hissued.symm⟩

/-- Inside a binding, the effective resources are among the bound ones, and there are some unless
the binding has none. -/
theorem effectiveResource_narrows {requested bound : List String}
    (h : (requested.filter fun r ↦ r ∉ bound) = []) :
    (∀ r ∈ effectiveResource requested bound, r ∈ bound) ∧
      (bound ≠ [] → effectiveResource requested bound ≠ []) := by
  rw [List.filter_eq_nil_iff] at h
  by_cases hreq : requested = []
  · rw [effectiveResource, if_neg (not_not.mpr hreq)]
    exact ⟨fun r hr ↦ hr, id⟩
  · rw [effectiveResource, if_pos hreq]
    exact ⟨fun r hr ↦ by simpa using h r hr, fun _ ↦ hreq⟩

/-- What a redemption that passed its checks has checked, and what it issues. -/
theorem checkRedemption_eq_ok {ctx : HandlerContext} {body : CodeBody} {reads : CodeReads}
    {redemption : Redemption} (h : checkRedemption ctx body reads = .ok redemption) :
    let code := redemption.code
    reads.code = some code ∧ code.used = false ∧ reads.now < code.expiresAt ∧
      code.oauthClientId = ctx.client.id ∧
      (body.resource.filter fun r ↦ r ∉ code.resource) = [] ∧
      ∃ scopes,
        let resource := effectiveResource body.resource code.resource
        let aud := resolveUserGrantAudience ctx.systemClientId ctx.client resource
        issuableScopes ctx reads.directory ⟨some code.userId, code.scopes, aud, none⟩
            ctx.dpopThumbprint.isSome = .ok scopes ∧
          redemption.payload = redemptionPayload ctx code code.userId scopes aud ∧
          ∀ token ∈ redemption.refresh,
            token = startedRefreshToken ctx reads code code.userId resource scopes aud := by
  simp only [checkRedemption, bind_eq_ok_iff, refuseIf_eq_ok_iff, require_eq_ok_iff,
    refuseSome_eq_ok_iff, pure_eq_ok_iff] at h
  obtain ⟨-, -, code', hcode, -, hlive, -, hclient, -, -, -, -, -, -, -, -, -, -, -, -, -, -, -,
    hresource, -, hunused, user, huser, -, -, -, -, -, -, scopes, hscopes, rfl⟩ := h
  have hid : user.id = code'.userId := reads.accounts.id_of_find huser
  rw [Bool.not_eq_true] at hunused
  rw [not_not] at hclient hresource
  refine ⟨hcode, hunused, ?_, hclient, hresource, scopes, ?_, ?_, ?_⟩
  · exact Nat.lt_of_not_le fun hle ↦ hlive ⟨hunused, hle⟩
  · rw [← hid]
    exact hscopes
  · rw [← hid]
  · intro token htoken
    obtain ⟨consent, -, rfl⟩ := Option.map_eq_some_iff.mp htoken
    rw [← hid]

/-- Only a code that was read as used is answered as a replay. -/
theorem used_of_codeReplay {ctx : HandlerContext} {body : CodeBody} {reads : CodeReads}
    {e : Refusal} (h : checkRedemption ctx body reads = .error e) (heffect : e.effect = .codeReplay) :
    ∃ code, reads.code = some code ∧ code.used = true := by
  have key : Refuses (fun e ↦ e.effect = .codeReplay →
      ∃ code, reads.code = some code ∧ code.used = true) (checkRedemption ctx body reads) := by
    unfold checkRedemption
    simp only [refuses_bind_iff, refuses_refuseIf_iff, refuses_require_iff, refuses_refuseSome_iff,
      refuses_mapError_iff, require_eq_ok_iff, refuseIf_eq_ok_iff, refusal, reduceCtorEq,
      false_implies, implies_true, true_and]
    intro _ _ code hcode _ _ _ _ _ _ _ _ _ _ _ _ _ _
    refine ⟨fun e he heffect ↦ ?_, fun _ _ _ _ _ _ ↦ ⟨fun hused _ ↦ ⟨code, hcode, hused⟩,
      fun _ _ _ _ ↦ ⟨fun e he heffect ↦ ?_, fun _ _ _ _ ↦ ⟨fun e he heffect ↦ ?_,
        fun _ _ ↦ ⟨fun e he heffect ↦ ?_, fun _ _ ↦ refuses_pure⟩⟩⟩⟩⟩
    · obtain ⟨binding, -, rfl⟩ := Option.map_eq_some_iff.mp he
      cases heffect
    · obtain ⟨reason, -, rfl⟩ := Option.map_eq_some_iff.mp he
      cases heffect
    · rw [refuses_assertReservedAudiencesListed e he] at heffect
      cases heffect
    · rw [refuses_issuableScopes e he] at heffect
      cases heffect
  exact key e h heffect

end QAuth.Token
