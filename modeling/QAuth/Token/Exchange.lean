import QAuth.Token.CodeGrant

/-!
# The token exchange grant

`handleTokenExchange` of `routes/oauth/token.ts`: an agent presents a user's access token and gets
a delegated one, whose `act` claim names the agent over the chain the presented token carries.

The signature checks are what `verifyAccessToken` answered for the presented strings: the claims of
a token, or a refusal. Asking for an identity assertion instead of an access token leaves the
handler for `mintIdJagForExchange` with the checked subject and scopes.
-/

namespace QAuth.Token

open Guards

/-- `TOKEN_EXCHANGE_GRANT_TYPE`. -/
def tokenExchangeGrantType : String := "urn:ietf:params:oauth:grant-type:token-exchange"

/-- `TOKEN_TYPE_ACCESS_TOKEN`. -/
def tokenTypeAccessToken : String := "urn:ietf:params:oauth:token-type:access_token"

/-- `TOKEN_TYPE_ID_JAG`. -/
def tokenTypeIdJag : String := "urn:ietf:params:oauth:token-type:id-jag"

/-- The body of an exchange. -/
structure ExchangeBody where
  subjectTokenType : String
  requestedTokenType : Option String
  /-- Whether an `actor_token` was sent. -/
  actorToken : Bool
  actorTokenType : Option String
  scope : Option String
  resource : List String
  audience : List String

/-- What an exchange reads. -/
structure ExchangeReads where
  /-- `verifyAccessToken` on the subject token; `none` where it refused it. -/
  subject : Option AccessToken
  actor : Option AccessToken
  /-- `isJtiRevoked`. -/
  isJtiRevoked : Option String → Bool
  accounts : Accounts
  directory : Directory
  idJagEnabled : Bool
  /-- The clock where the lifetime is computed, in milliseconds. -/
  now : ℕ
  jti : String
  signedAt : ℕ

/-- What an exchange leads to. -/
inductive Exchanged
  | delegated (issued : Issued)
  /-- The branch of `mintIdJagForExchange`, with the scopes and the subject it is handed. -/
  | idJag (grantedScopes : List Scope) (subject : AccessToken)

/-- The `sub` of a machine token is its own `client_id`. -/
def AccessToken.namesNoUser (token : AccessToken) : Bool := token.clientId = some token.sub

/-- The marker of an access token, or the claims a token without the marker has. -/
def AccessToken.isAccessToken (token : AccessToken) : Bool :=
  token.tokenUse = some "access" ||
    token.tokenUse.isNone && token.clientId.isSome && token.aud.isSome

def subjectBindingRefusal (ctx : HandlerContext) (subject : AccessToken) : Option Refusal :=
  match subject.cnf with
  | none => none
  | some jkt =>
    if !ctx.dpopEnabled then
      some (refusal .invalidRequest "subject_token_dpop_disabled"
        "subject_token is bound to a DPoP key")
    else
      match ctx.dpopThumbprint with
      | none => some (refusal .invalidDpopProof "dpop_missing_proof" none)
      | some thumbprint =>
        if thumbprint ≠ jkt then
          some (refusal .invalidRequest "subject_token_key_mismatch"
            "subject_token is bound to another DPoP key")
        else none

theorem subjectBindingRefusal_eq_none {ctx : HandlerContext} {subject : AccessToken} {jkt : String}
    (h : subjectBindingRefusal ctx subject = none) (hcnf : subject.cnf = some jkt) :
    ctx.dpopThumbprint = some jkt := by
  rw [subjectBindingRefusal, hcnf] at h
  cases hd : ctx.dpopEnabled <;> cases ht : ctx.dpopThumbprint <;> simp_all

/-- What the caller is told of an inactive subject, `inactiveSubjectTokenError`. -/
def inactiveSubjectTokenRefusal (reason : String) : Refusal :=
  refusal .invalidRequest reason "subject_token subject is not an active user"

/-- The scopes an exchange asks for: the named ones, each once, or all the subject's. -/
def exchangeScopes (body : ExchangeBody) (subject : AccessToken) : List Scope :=
  match splitScopes (body.scope.getD "") with
  | [] => subject.scopes
  | named => named.eraseDups

/-- The family scopes the agent's own registration does not list. -/
def unregisteredScopes (client : OAuthClient) (scopes : List Scope) : List Scope :=
  scopes.filter fun s ↦ (familyScopeOf s).isSome && s.name ∉ client.scopes

/-- The targets an exchange names, each once. -/
def requestedTargets (body : ExchangeBody) : List String :=
  (body.resource ++ body.audience).eraseDups

/-- The seconds the delegated token lives: the configured ones, clamped to what the subject has
left. -/
def delegatedLifespan (configured : ℕ) (subjectExp : Option ℕ) (now : ℕ) : ℕ :=
  match subjectExp with
  | none => configured
  | some exp => min configured (exp - now / 1000)

def delegatedPayload (ctx : HandlerContext) (userId : Uuid) (issuedScopes : List Scope)
    (aud : Audience) (subject : AccessToken) (now : ℕ) : SignPayload where
  sub := userId
  clientId := ctx.client.clientId
  scopes := issuedScopes
  aud := aud
  act := some (ActClaim.nest ctx.client.clientId subject.act)
  cnf := ctx.dpopThumbprint
  signIn := ⟨none, none⟩
  sid := none
  expiresIn := delegatedLifespan (accessTokenLifespanFor ctx.tokenLifetimes ctx.policy aud)
    subject.exp now
  expiresNotAfter := subject.exp

/-- `handleTokenExchange`. -/
def handleTokenExchange (ctx : HandlerContext) (body : ExchangeBody) (reads : ExchangeReads) :
    Except Refusal Exchanged := do
  -- The agent, its grant and the token types.
  refuseIf (ctx.client.isAgent = false) (refusal .unauthorizedClient "client_not_agent" none)
  refuseIf (tokenExchangeGrantType ∉ ctx.client.grantTypes)
    (refusal .unauthorizedClient "grant_type_not_allowed" none)
  let mintingIdJag := reads.idJagEnabled && body.requestedTokenType = some tokenTypeIdJag
  refuseIf (body.subjectTokenType ≠ tokenTypeAccessToken)
    (refusal .invalidRequest "unsupported_subject_token_type" "unsupported subject_token_type")
  refuseIf (body.requestedTokenType ≠ none ∧
      body.requestedTokenType ≠ some tokenTypeAccessToken ∧ mintingIdJag = false)
    (refusal .invalidRequest "unsupported_requested_token_type"
      "unsupported requested_token_type")
  refuseIf (body.actorToken = true ∧ body.actorTokenType = none)
    (refusal .invalidRequest "actor_token_type_missing"
      "actor_token_type is required when actor_token is present")
  refuseIf (body.actorToken = true ∧ body.actorTokenType ≠ some tokenTypeAccessToken)
    (refusal .invalidRequest "unsupported_actor_token_type" "unsupported actor_token_type")
  -- The subject token, what it is for, and that it is not revoked.
  let subject ← require reads.subject
    (refusal .invalidRequest "subject_token_invalid" "subject_token is not a valid access token")
  refuseIf (subject.sub = "") (inactiveSubjectTokenRefusal "subject_token_missing_sub")
  refuseIf (subject.isAccessToken = false)
    (refusal .invalidRequest "subject_token_not_access_token"
      "subject_token is not a QAuth-issued access token")
  refuseIf (body.actorToken = true ∧ reads.actor = none)
    (refusal .invalidRequest "actor_token_invalid" "actor_token is not a valid access token")
  refuseIf (reads.isJtiRevoked subject.jti = true)
    (refusal .invalidRequest "subject_token_revoked" "subject_token has been revoked")
  refuseIf (body.actorToken = true ∧ reads.isJtiRevoked (reads.actor.bind (·.jti)) = true)
    (refusal .invalidRequest "actor_token_revoked" "actor_token has been revoked")
  -- The subject token was issued for this agent, and is held to its key.
  refuseIf (ctx.client.clientId ∉ subject.audience)
    (refusal .invalidRequest "subject_token_audience_mismatch"
      "subject_token was not issued for this client")
  refuseSome (subjectBindingRefusal ctx subject)
  refuseIf (subject.namesNoUser = true) (inactiveSubjectTokenRefusal "subject_not_a_user")
  let user ← require (reads.accounts.find subject.sub)
    (inactiveSubjectTokenRefusal "user_not_found")
  refuseSome ((accountCredentialRefusal user (subject.iat.map (· * 1000))).map
    inactiveSubjectTokenRefusal)
  -- The scopes, narrowed and capped.
  let grantedScopes := exchangeScopes body subject
  let extraneous := grantedScopes.filter fun s ↦ s ∉ subject.scopes
  refuseIf (extraneous ≠ [])
    (refusal .invalidScope "scope_exceeds_subject_token"
      (namesThen extraneous " not in subject_token scope"))
  (enforceAgentScopeCap grantedScopes ctx.client).mapError fun e ↦
    refusal e.1 "scope_exceeds_agent_mode" e.2
  if mintingIdJag then
    return .idJag grantedScopes subject
  -- The audience, narrowed.
  let targets := requestedTargets body
  refuseIf ((targets.filter fun t ↦ t ∉ subject.audience) ≠ [])
    (refusal .invalidTarget "audience_outside_subject_token"
      "requested resource/audience is outside the subject token")
  let aud := arrayToAud (effectiveResource targets subject.audience)
  refuseIf (maxDelegationDepth < actDepth (some (ActClaim.nest ctx.client.clientId subject.act)))
    (refusal .invalidRequest "delegation_too_deep"
      "delegation chain exceeds the maximum depth")
  assertReservedAudiencesListed ctx aud
  let unregistered := unregisteredScopes ctx.client grantedScopes
  let delegable := grantedScopes.filter fun s ↦ s ∉ unregistered
  refuseIf (delegable = [] ∧ unregistered ≠ [])
    (refusal .invalidScope "reserved_scope_not_issued"
      (namesThen unregistered " not issued to this agent"))
  -- Decided for no account, but for a token that names a user.
  let issuedScopes ← issuableScopes ctx reads.directory ⟨none, delegable, aud, some true⟩
    ctx.dpopThumbprint.isSome
  let payload := delegatedPayload ctx user.id issuedScopes aud subject reads.now
  refuseIf (payload.expiresIn = 0)
    (refusal .invalidRequest "subject_token_expired" "subject_token has expired")
  return .delegated ⟨none, signAccessToken payload reads.jti reads.signedAt, payload.expiresIn,
    tokenTypeFor ctx⟩

theorem handleTokenExchange_eq_ok {ctx : HandlerContext} {body : ExchangeBody}
    {reads : ExchangeReads} {issued : Issued}
    (h : handleTokenExchange ctx body reads = .ok (.delegated issued)) :
    ∃ subject scopes,
      let aud := arrayToAud (effectiveResource (requestedTargets body) subject.audience)
      reads.subject = some subject ∧
        subjectBindingRefusal ctx subject = none ∧
        (∀ s ∈ exchangeScopes body subject, s ∈ subject.scopes) ∧
        ((requestedTargets body).filter fun t ↦ t ∉ subject.audience) = [] ∧
        actDepth (some (ActClaim.nest ctx.client.clientId subject.act)) ≤ maxDelegationDepth ∧
        issuableScopes ctx reads.directory
            ⟨none,
              (exchangeScopes body subject).filter fun s ↦
                s ∉ unregisteredScopes ctx.client (exchangeScopes body subject),
              aud, some true⟩
            ctx.dpopThumbprint.isSome = .ok scopes ∧
        issued.accessToken =
          signAccessToken (delegatedPayload ctx subject.sub scopes aud subject reads.now) reads.jti
            reads.signedAt := by
  unfold handleTokenExchange at h
  simp only [bind_eq_ok_iff, refuseIf_eq_ok_iff, require_eq_ok_iff, refuseSome_eq_ok_iff] at h
  obtain ⟨-, -, -, -, -, -, -, -, -, -, -, -, subject, hsubject, -, -, -, -, -, -, -, -, -, -, -, -,
    -, hbinding, -, -, user, huser, -, -, -, hextraneous, -, -, h⟩ := h
  split_ifs at h
  · simp at h
  · simp only [bind_eq_ok_iff, refuseIf_eq_ok_iff, pure_eq_ok_iff, Exchanged.delegated.injEq] at h
    obtain ⟨-, htargets, -, hdepth, -, -, -, -, scopes, hscopes, -, -, rfl⟩ := h
    have hid : user.id = subject.sub := reads.accounts.id_of_find huser
    rw [not_not] at hextraneous htargets
    rw [List.filter_eq_nil_iff] at hextraneous
    refine ⟨subject, scopes, hsubject, hbinding, fun s hs ↦ by simpa using hextraneous s hs,
      htargets, Nat.le_of_not_lt hdepth, hscopes, ?_⟩
    rw [← hid]

end QAuth.Token
