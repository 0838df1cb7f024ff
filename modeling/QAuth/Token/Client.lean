import Mathlib.Algebra.GroupWithZero.Nat
import QAuth.Foundation.Guards
import QAuth.Token.Scope

/-!
# The client behind a token request

The registration data the token endpoint reads (`OAuthClientLike`) and the decisions it makes from
them alone (`helpers/client-auth.ts`): the scopes a client may ask for, the audience its tokens
get, and the reserved audiences it does not list.
-/

namespace QAuth.Token

open Guards

/-! ### Refusals -/

/-- The OAuth error codes of the endpoint's grants. -/
inductive OAuthError
  | invalidRequest | invalidGrant | invalidScope | invalidTarget | invalidDpopProof
  | unauthorizedClient
deriving DecidableEq

/-- What a refusal does to the stored grant. -/
inductive RefusalEffect
  /-- The grant is left as it was. -/
  | none
  /-- `markUsed` on the code. -/
  | burnCode
  /-- `rejectCodeReplay`. -/
  | codeReplay
  /-- `revoke` on the refresh token, with a reason. -/
  | burnRefreshToken (reason : String)
  /-- `revokeFamily` with the reason `family_expired`. -/
  | expireFamily
  /-- `rejectRefreshTokenReplay`. -/
  | refreshReplay

/-- A refused request: the error it answers, the reason its event records, and its effect. -/
structure Refusal where
  error : OAuthError
  reason : String
  description : Option String
  effect : RefusalEffect

/-- A refusal that leaves the grant as it was. -/
def refusal (error : OAuthError) (reason : String) (description : Option String) : Refusal :=
  ⟨error, reason, description, .none⟩

/-! ### The client -/

/-- The text of a row's id. -/
abbrev Uuid := String

/-- `OAuthClientLike`: what the token endpoint reads of a client. -/
structure OAuthClient where
  id : Uuid
  clientId : String
  grantTypes : List String
  scopes : List String
  clientCredentialsScopes : Option (List String)
  audience : Option (List String)
  tokenEndpointAuthMethod : Option String
  isAgent : Bool
  maxAgentMode : Option String
  /-- `metadata.registrationType`. -/
  registrationType : Option String
  dynamicRegisteredAt : Option ℕ
  /-- Whether every redirect URI is a native app's, and there is one. -/
  nativeRedirectUrisOnly : Bool

/-- `isPublicClient`. -/
def isPublicClient (client : OAuthClient) : Bool := client.tokenEndpointAuthMethod = some "none"

/-- `isBrowserBasedClient`: public, and not a native app by its redirect URIs. -/
def isBrowserBasedClient (client : OAuthClient) : Bool :=
  isPublicClient client && !client.nativeRedirectUrisOnly

/-- The names of a list of scopes, joined by blanks, before the rest of an error text. -/
def namesThen (scopes : List Scope) (text : String) : Option String :=
  some (joinScopes scopes ++ text)

/-- `enforceAgentScopeCap` for the context `toAgentScopeContext` reads from the client. -/
def enforceAgentScopeCap (requested : List Scope) (client : OAuthClient) :
    Except (OAuthError × Option String) Unit :=
  let exceeding :=
    findExceedingAgentScopes requested client.isAgent (parseAgentMode client.maxAgentMode)
  refuseIf (exceeding ≠ [])
    (.invalidScope, namesThen exceeding " exceeds the client's agent scope mode")

/-- `validateScopes` with the client's agent context, against `client.scopes`. -/
def validateScopes (requestedScope : Option String) (client : OAuthClient) :
    Except (OAuthError × Option String) (List Scope) := do
  let requested := (splitScopes (requestedScope.getD "")).eraseDups
  if requested = [] then
    return []
  enforceAgentScopeCap requested client
  let disallowed := requested.filter fun s ↦ s.name ∉ client.scopes
  refuseIf (disallowed ≠ [])
    (.invalidScope, namesThen disallowed " not permitted for this client")
  return requested

/-! ### Audiences -/

/-- The length of a string in UTF-16 code units. -/
def utf16Length (s : String) : ℕ :=
  (s.toList.map fun c ↦ if c.val < 0x10000 then 1 else 2).sum

/-- `audienceSchema.safeParse(client.audience)`: at most 20 entries of 1 to 256 code units. -/
def parseAudience (audience : Option (List String)) : Option (List String) :=
  audience.filter fun values ↦
    decide (values.length ≤ 20) && values.all fun v ↦ decide (v ≠ "") && utf16Length v ≤ 256

/-- `resolveAudience`: the named resources, else the client's audience, else its id. -/
def resolveAudience (client : OAuthClient) (resource : List String) : Audience :=
  if resource ≠ [] then arrayToAud resource
  else
    match parseAudience client.audience with
    | none | some [] => .one client.clientId
    | some values => arrayToAud values

/-- `userGrantDefaultAudience`: the client's audience, without the reserved values unless the
client is the system client. -/
def userGrantDefaultAudience (systemClientId : String) (client : OAuthClient) : List String :=
  match parseAudience client.audience with
  | none => []
  | some values =>
    if client.clientId = systemClientId then values
    else values.filter fun v ↦ !isReservedAudience v

/-- `resolveUserGrantAudience`: the `aud` of a token of the code and refresh grants. -/
def resolveUserGrantAudience (systemClientId : String) (client : OAuthClient)
    (resource : List String) : Audience :=
  if resource ≠ [] then resolveAudience client resource
  else
    let audience := userGrantDefaultAudience systemClientId client
    if audience = [] then .one client.clientId else arrayToAud audience

theorem resolveUserGrantAudience_of_resource {systemClientId : String} {client : OAuthClient}
    {resource : List String} (h : resource ≠ []) :
    (resolveUserGrantAudience systemClientId client resource).values = resource := by
  simp [resolveUserGrantAudience, resolveAudience, h]

/-- `isSelfRegisteredClient`: from a metadata document, or registered dynamically. -/
def isSelfRegisteredClient (client : OAuthClient) : Bool :=
  client.registrationType = some "cimd" || client.registrationType = some "dynamic" ||
    client.dynamicRegisteredAt.isSome

/-- The audiences an operator set up for the client: none for one that registered itself. -/
def listedAudiences (client : OAuthClient) : List String :=
  if isSelfRegisteredClient client then [] else (parseAudience client.audience).getD []

/-- `unlistedReservedAudiences`: the reserved values the client's own `audience` does not list. -/
def unlistedReservedAudiences (client : OAuthClient) (aud : Audience) : List String :=
  aud.values.filter fun v ↦ isReservedAudience v && !(listedAudiences client).contains v

end QAuth.Token
