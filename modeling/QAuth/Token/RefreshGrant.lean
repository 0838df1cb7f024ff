import QAuth.Token.CodeGrant

/-!
# The refresh token grant

`handleRefreshToken` of `routes/oauth/token.ts`: the checks of a rotation in the order of the
source, the refresh token that takes the presented one's place, and the access token it comes with.

As for the code grant, the checks are a function of what the handler reads (`RefreshReads`), and
the compare-and-set that revokes the presented token is in the store.
-/

namespace QAuth.Token

open Guards

/-- The body of a refresh. -/
structure RefreshBody where
  scope : Option String
  resource : List String

/-- What a refresh reads: the token by its hash, the clock, the account, and the fresh values it
issues under. -/
structure RefreshReads where
  presentedHash : String
  stored : Option RefreshToken
  now : ℕ
  accounts : Accounts
  directory : Directory
  tokenHash : String

/-- What a rotation that passed its checks is to revoke, store and sign. -/
structure Rotation where
  stored : RefreshToken
  refresh : NewRefreshToken
  payload : SignPayload

/-- What the caller of an unusable refresh token is told. -/
def unusableRefreshToken : Option String := "Invalid or expired refresh token"

/-- The answer to a replayed refresh token, `rejectRefreshTokenReplay`. -/
def refreshReplayRefusal : Refusal :=
  ⟨.invalidGrant, "refresh_replay", unusableRefreshToken, .refreshReplay⟩

/-- A refusal of a refresh token bound to a key. -/
def refreshBindingRefusal (ctx : HandlerContext) (stored : RefreshToken) : Option Refusal :=
  (dpopBindingRefusal ctx stored.cnfJkt).map fun binding ↦
    refusal binding.1 binding.2
      (if binding.1 = .invalidGrant then unusableRefreshToken else none)

/-- The scopes a refresh asks for, each once: the named ones, or all the token has. -/
def requestedScopes (body : RefreshBody) (stored : RefreshToken) : List Scope :=
  match body.scope with
  | some scope => (splitScopes scope).eraseDups
  | none => stored.scopes.eraseDups

/-- `familyScopes`: an unbound family carries no admin scope forward, and no other reserved scope
but those of the account and developer APIs. -/
def familyScopes (familyBound : Bool) (grantedScopes : List Scope) : List Scope :=
  if familyBound then grantedScopes
  else grantedScopes.filter fun s ↦ !isReservedQauthScope s || (familyScopeOf s).isSome

/-- The end of the family of a stored token under the realm's current limit. -/
def storedFamilyEnd (ctx : HandlerContext) (stored : RefreshToken) : Option ℕ :=
  refreshFamilyEnd stored.familyCreatedAt ctx.ssoMaxLifespan stored.familySessionExpiresAt

/-- The refresh token a rotation stores in place of the presented one. -/
def rotatedRefreshToken (ctx : HandlerContext) (reads : RefreshReads) (stored : RefreshToken)
    (userId : Uuid) (grantedScopes : List Scope) (resource : List String)
    (issuedScopes : List Scope) (aud : Audience) : NewRefreshToken where
  userId := userId
  oauthClientId := ctx.client.id
  tokenHash := reads.tokenHash
  previousTokenHash := some reads.presentedHash
  familyId := stored.familyId
  authorizationCodeId := none
  familyCreatedAt := stored.familyCreatedAt
  familySessionExpiresAt := stored.familySessionExpiresAt
  authTime := stored.authTime
  amr := stored.amr
  expiresAt := rotatedRefreshTokenExpiresAt reads.now ctx.tokenLifetimes.refreshTokenLifespanSeconds
    (storedFamilyEnd ctx stored) stored.expiresAt (isBrowserBasedClient ctx.client)
  scopes := familyScopes stored.cnfJkt.isSome grantedScopes
  resource := resource
  cnfJkt := stored.cnfJkt.or (refreshTokenBinding ctx issuedScopes aud)

def rotationPayload (ctx : HandlerContext) (stored : RefreshToken) (userId : Uuid)
    (issuedScopes : List Scope) (aud : Audience) : SignPayload where
  sub := userId
  clientId := ctx.client.clientId
  scopes := issuedScopes
  aud := aud
  act := none
  cnf := ctx.dpopThumbprint
  signIn := recordedSignIn stored.authTime stored.amr
  sid := none
  expiresIn := accessTokenLifespanFor ctx.tokenLifetimes ctx.policy aud
  expiresNotAfter := none

/-- `handleRefreshToken` up to its transaction: the checks, in order, and what the transaction is
to write and sign. -/
def checkRotation (ctx : HandlerContext) (body : RefreshBody) (reads : RefreshReads) :
    Except Refusal Rotation := do
  refuseIf ("refresh_token" ∉ ctx.client.grantTypes)
    (refusal .unauthorizedClient "grant_type_not_allowed" none)
  let stored ← require reads.stored
    (refusal .invalidGrant "refresh_token_unknown" unusableRefreshToken)
  refuseIf (stored.oauthClientId ≠ ctx.client.id)
    (refusal .invalidGrant "client_mismatch" unusableRefreshToken)
  refuseSome (refreshBindingRefusal ctx stored)
  refuseIf (stored.revoked = true) refreshReplayRefusal
  refuseIf (refreshFamilyEnded (storedFamilyEnd ctx stored) reads.now = true)
    ⟨.invalidGrant, "refresh_family_expired", unusableRefreshToken, .expireFamily⟩
  refuseIf (stored.expiresAt ≤ reads.now)
    (refusal .invalidGrant "refresh_token_expired" unusableRefreshToken)
  let user ← require (reads.accounts.find stored.userId)
    (refusal .invalidGrant "user_not_found" unusableRefreshToken)
  let startedAt := min stored.familyCreatedAt stored.createdAt
  refuseSome ((accountCredentialRefusal user (some startedAt)).map fun reason ↦
    ⟨.invalidGrant, reason, unusableRefreshToken, .burnRefreshToken reason⟩)
  let grantedScopes := requestedScopes body stored
  let extraneous := grantedScopes.filter fun s ↦ s ∉ stored.scopes
  refuseIf (extraneous ≠ [])
    (refusal .invalidScope "scope_exceeds_refresh_token"
      (namesThen extraneous " not in original refresh token scope"))
  let _ ← (validateScopes (some (joinScopes grantedScopes)) ctx.client).mapError fun e ↦
    refusal e.1 "scope_not_allowed_for_client" e.2
  refuseIf ((body.resource.filter fun r ↦ r ∉ stored.resource) ≠ [])
    (refusal .invalidTarget "resource_outside_binding"
      "requested resource is outside the refresh-token binding")
  let resource := effectiveResource body.resource stored.resource
  let aud := resolveUserGrantAudience ctx.systemClientId ctx.client resource
  assertReservedAudiencesListed ctx aud
  -- An admin token comes only from a family bound to a key since its start.
  let familyBound := stored.cnfJkt.isSome
  refuseIf ((!familyBound && aud.namesAdmin) = true)
    (refusal .invalidGrant "admin_refresh_token_unbound"
      "a refresh token bound to no DPoP key refreshes no admin token: sign in again")
  let issuedScopes ← issuableScopes ctx reads.directory ⟨some user.id, grantedScopes, aud, none⟩
    familyBound
  return ⟨stored, rotatedRefreshToken ctx reads stored user.id grantedScopes resource issuedScopes aud,
    rotationPayload ctx stored user.id issuedScopes aud⟩

/-- `handleRefreshToken`, where `revoked` says that this request's `revokeIfActive` revoked the
presented token, and the access token is signed at `signedAt`. -/
def handleRefreshToken (ctx : HandlerContext) (body : RefreshBody) (reads : RefreshReads)
    (revoked : Bool) (jti : String) (signedAt : ℕ) : Except Refusal (NewRefreshToken × Issued) := do
  let rotation ← checkRotation ctx body reads
  refuseIf (revoked = false) refreshReplayRefusal
  return (rotation.refresh, issue ctx (some rotation.refresh) rotation.payload jti signedAt)

section Facts

variable {ctx : HandlerContext} {body : RefreshBody} {reads : RefreshReads}

theorem handleRefreshToken_eq_ok {revoked : Bool} {jti : String} {signedAt : ℕ}
    {refresh : NewRefreshToken} {issued : Issued}
    (h : handleRefreshToken ctx body reads revoked jti signedAt = .ok (refresh, issued)) :
    ∃ rotation, checkRotation ctx body reads = .ok rotation ∧ refresh = rotation.refresh ∧
      issued = issue ctx (some rotation.refresh) rotation.payload jti signedAt := by
  simp only [handleRefreshToken, bind_eq_ok_iff, refuseIf_eq_ok_iff, pure_eq_ok_iff,
    Prod.mk.injEq] at h
  obtain ⟨rotation, hcheck, -, -, hrefresh, hissued⟩ := h
  exact ⟨rotation, hcheck, hrefresh.symm, hissued.symm⟩

/-- What a rotation that passed its checks has checked, and what it issues. -/
theorem checkRotation_eq_ok {rotation : Rotation}
    (h : checkRotation ctx body reads = .ok rotation) :
    let stored := rotation.stored
    reads.stored = some stored ∧ stored.oauthClientId = ctx.client.id ∧ stored.revoked = false ∧
      reads.now < stored.expiresAt ∧ dpopBindingRefusal ctx stored.cnfJkt = none ∧
      (∀ s ∈ requestedScopes body stored, s ∈ stored.scopes) ∧
      (body.resource.filter fun r ↦ r ∉ stored.resource) = [] ∧
      ∃ scopes,
        let resource := effectiveResource body.resource stored.resource
        let aud := resolveUserGrantAudience ctx.systemClientId ctx.client resource
        (stored.cnfJkt = none → aud.namesAdmin = false) ∧
          issuableScopes ctx reads.directory
              ⟨some stored.userId, requestedScopes body stored, aud, none⟩
              stored.cnfJkt.isSome = .ok scopes ∧
          rotation.refresh = rotatedRefreshToken ctx reads stored stored.userId
            (requestedScopes body stored) resource scopes aud ∧
          rotation.payload = rotationPayload ctx stored stored.userId scopes aud := by
  simp only [checkRotation, bind_eq_ok_iff, refuseIf_eq_ok_iff, require_eq_ok_iff,
    refuseSome_eq_ok_iff, pure_eq_ok_iff] at h
  obtain ⟨-, -, stored', hstored, -, hclient, -, hbinding, -, hrevoked, -, -, -, hlive, user,
    huser, -, -, -, hextraneous, -, -, -, hresource, -, -, -, hunbound, scopes, hscopes, rfl⟩ := h
  have hid : user.id = stored'.userId := reads.accounts.id_of_find huser
  rw [not_not] at hclient hresource hextraneous
  rw [Bool.not_eq_true] at hrevoked
  rw [refreshBindingRefusal, Option.map_eq_none_iff] at hbinding
  rw [List.filter_eq_nil_iff] at hextraneous
  refine ⟨hstored, hclient, hrevoked, Nat.lt_of_not_le hlive, hbinding,
    fun s hs ↦ by simpa using hextraneous s hs, hresource, scopes, ?_, ?_, ?_, ?_⟩
  · intro hcnf
    rw [hcnf] at hunbound
    simpa using hunbound
  · rw [← hid]
    exact hscopes
  · rw [← hid]
  · rw [← hid]

theorem mem_familyScopes {familyBound : Bool} {scopes : List Scope} {s : Scope}
    (h : s ∈ familyScopes familyBound scopes) : s ∈ scopes := by
  cases familyBound with
  | true => exact h
  | false => exact List.mem_of_mem_filter h

/-- Only a family bound to a key keeps an admin scope. -/
theorem not_isAdminScope_of_mem_familyScopes {scopes : List Scope} {s : Scope}
    (h : s ∈ familyScopes false scopes) : isAdminScope s = false := by
  obtain ⟨-, hkept⟩ := List.mem_filter.mp h
  by_contra hadmin
  rw [Bool.not_eq_false] at hadmin
  rw [isReservedQauthScope_of_isAdminScope hadmin, familyScopeOf_eq_none_of_isAdminScope hadmin]
    at hkept
  cases hkept

end Facts

end QAuth.Token
