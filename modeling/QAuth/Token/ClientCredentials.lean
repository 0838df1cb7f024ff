import QAuth.Token.CodeGrant

/-!
# The client credentials grant

`handleClientCredentials` of `routes/oauth/token.ts`: a client acts as itself, so the token names
no account and comes with no refresh token.
-/

namespace QAuth.Token

open Guards

/-- The body of a client credentials request. -/
structure ClientCredentialsBody where
  scope : Option String
  resource : List String

/-- `clientCredentialsScopeAllowlist`: `none` where the column is null, and nothing where it holds
an empty name. -/
def clientCredentialsScopeAllowlist (client : OAuthClient) : Option (List String) :=
  client.clientCredentialsScopes.map fun names ↦ if "" ∈ names then [] else names

def outsideAllowlist (client : OAuthClient) (scopes : List Scope) : List Scope :=
  match clientCredentialsScopeAllowlist client with
  | none => []
  | some names => scopes.filter fun s ↦ s.name ∉ names

/-- The audiences a client may name as itself. -/
def allowedAudience (client : OAuthClient) : List String :=
  match client.audience with
  | none | some [] => [client.clientId]
  | some values => values

def clientPayload (ctx : HandlerContext) (issuedScopes : List Scope) (aud : Audience) :
    SignPayload where
  sub := ctx.client.clientId
  clientId := ctx.client.clientId
  scopes := issuedScopes
  aud := aud
  act := none
  cnf := ctx.dpopThumbprint
  signIn := ⟨none, none⟩
  sid := none
  expiresIn := accessTokenLifespanFor ctx.tokenLifetimes ctx.policy aud
  expiresNotAfter := none

/-- `handleClientCredentials`. -/
def handleClientCredentials (ctx : HandlerContext) (body : ClientCredentialsBody)
    (directory : Directory) (jti : String) (signedAt : ℕ) : Except Refusal Issued := do
  refuseIf ("client_credentials" ∉ ctx.client.grantTypes)
    (refusal .unauthorizedClient "grant_type_not_allowed" none)
  let grantedScopes ← (validateScopes body.scope ctx.client).mapError fun e ↦
    refusal e.1 "scope_not_allowed_for_client" e.2
  let outside := outsideAllowlist ctx.client grantedScopes
  refuseIf (outside ≠ [])
    (refusal .invalidScope "scope_not_allowed_for_grant"
      (namesThen outside " not permitted for this client with the client_credentials grant"))
  refuseIf (grantedScopes = [])
    (refusal .invalidScope "scope_required"
      "client_credentials grant requires at least one scope")
  refuseIf ((body.resource.filter fun r ↦ r ∉ allowedAudience ctx.client) ≠ [])
    (refusal .invalidTarget "resource_outside_client_audience"
      "requested resource is outside the client audience allowlist")
  let aud := resolveAudience ctx.client body.resource
  assertReservedAudiencesListed ctx aud
  -- The token names no account, and admin grants belong to accounts.
  let issuedScopes ← issuableScopes ctx directory ⟨none, grantedScopes, aud, none⟩
    ctx.dpopThumbprint.isSome
  let payload := clientPayload ctx issuedScopes aud
  return ⟨none, signAccessToken payload jti signedAt, payload.expiresIn, tokenTypeFor ctx⟩

theorem handleClientCredentials_eq_ok {ctx : HandlerContext} {body : ClientCredentialsBody}
    {directory : Directory} {jti : String} {signedAt : ℕ} {issued : Issued}
    (h : handleClientCredentials ctx body directory jti signedAt = .ok issued) :
    ∃ granted scopes,
      let aud := resolveAudience ctx.client body.resource
      issuableScopes ctx directory ⟨none, granted, aud, none⟩ ctx.dpopThumbprint.isSome =
          .ok scopes ∧
        issued.accessToken = signAccessToken (clientPayload ctx scopes aud) jti signedAt := by
  simp only [handleClientCredentials, bind_eq_ok_iff, refuseIf_eq_ok_iff, pure_eq_ok_iff] at h
  obtain ⟨-, -, granted, -, -, -, -, -, -, -, -, -, scopes, hscopes, rfl⟩ := h
  exact ⟨granted, scopes, hscopes, rfl⟩

end QAuth.Token
