import Mathlib.Algebra.Order.Field.Rat
import QAuth.Foundation.Base64Url
import QAuth.Foundation.Guards
import QAuth.Foundation.PercentEncoding
import QAuth.Foundation.Text

/-!
# Client authentication

`helpers/client-auth.ts` and `helpers/client-assertion.ts`: how the token endpoint tells what a
request authenticates its client with, and checks it. What the server keeps (its clients, the
assertions it has seen) and what the JOSE library makes of an assertion are given by `ClientAuth`.
-/

namespace QAuth.Token

open Guards

/-! ### What is given -/

/-- A client, as far as its authentication reads it. -/
structure OAuthClientLike where
  id : String
  clientId : String
  clientSecretHash : String
  enabled : Bool
  suspended : Option Bool
  tokenEndpointAuthMethod : Option String

/-- The errors of client authentication. -/
inductive ClientAuthError
  | invalidClient (errorDescription : Option String)
  /-- 503, with `Retry-After` -/
  | temporarilyUnavailable (retryAfterSeconds : ℕ)
  /-- an error of another part of the server -/
  | other (message : String)

/-- The outcome of `verifyPassword`. -/
inductive SecretCheck
  | checked (valid : Bool)
  /-- `Argon2QueueFullError` -/
  | queueFull
  | failed (message : String)

/-- A protected header: its algorithm, and whether it has `jwk`, `jku` or `x5u`. -/
structure AssertionHeader where
  alg : Option String
  hasKeyMaterial : Bool

/-- The `iss` and `sub` of an assertion, where they are strings. -/
structure AssertionSubject where
  iss : Option String
  sub : Option String

/-- The claims of a verified assertion; `aud` is a string or as many strings. -/
structure AssertionPayload where
  audEntries : Option ℕ
  exp : Option ℚ
  iat : Option ℚ
  jti : Option String

/-- The answer to `SET key 1 EX ttl NX`. -/
inductive JtiAnswer
  | stored
  | present
  | unavailable

/-- What the authentication of clients of one realm reads. -/
structure ClientAuth where
  findByClientId : String → Option OAuthClientLike
  /-- the registered clients, and those of metadata documents -/
  resolveClient : String → Except ClientAuthError (Option OAuthClientLike)
  verifyPassword : String → String → SecretCheck
  decodeProtectedHeader : String → Option AssertionHeader
  decodeJwt : String → Option AssertionSubject
  /-- verified under the keys of a client, for its name -/
  jwtVerify : String → OAuthClientLike → String → Except ClientAuthError AssertionPayload
  nowSeconds : ℤ
  setJti : String → String → ℚ → JtiAnswer

/-- A request, as far as client authentication reads it. -/
structure ClientRequest where
  /-- `request.headers.authorization` -/
  authorization : Option (List Char)

/-- `ClientAuthenticationParams`. -/
structure ClientAuthenticationParams where
  clientId : Option String
  clientSecret : Option String
  clientAssertionType : Option String
  clientAssertion : Option String

/-- A parameter that is truthy. -/
def truthy (param : Option String) : Option String := param.filter (· ≠ "")

/-- `isClientUsable`. -/
def isClientUsable (client : OAuthClientLike) : Bool :=
  client.enabled && client.suspended ≠ some true

def invalidClient : ClientAuthError := .invalidClient none

/-! ### By a secret -/

inductive SecretMethod
  | clientSecretPost
  | clientSecretBasic

structure ExtractedClientCredentials where
  clientId : String
  clientSecret : String
  method : SecretMethod

/-- `[A-Za-z0-9+/]`. -/
def isBase64Char (c : Char) : Bool := c.isAlphanum || c = '+' || c = '/'

/-- What `^Basic\s+([A-Za-z0-9+/]+={0,2})$` captures of a header. -/
def basicToken (header : List Char) : Option (List Char) :=
  let rest := header.drop 5
  let token := rest.dropWhile Text.isSpace
  if header.take 5 = ['B', 'a', 's', 'i', 'c'] ∧ rest.head?.any Text.isSpace ∧
      token.takeWhile isBase64Char ≠ [] ∧
      token.dropWhile isBase64Char ∈ [[], ['='], ['=', '=']] then
    some token
  else none

/-- `Buffer.from(token, 'base64')`. -/
def base64Bytes (token : List Char) : List UInt8 :=
  Base64Url.decode ((token.filter (· ≠ '=')).map fun c ↦
    if c = '+' then '-' else if c = '/' then '_' else c)

/-- `decodeURIComponent(text.replace(/\+/g, ' '))`. -/
def formDecode (text : List Char) : Option String :=
  (PercentEncoding.decode (text.map fun c ↦ if c = '+' then ' ' else c)).map String.ofList

/-- The client id and the secret of a `Basic` header. -/
def parseBasicAuthHeader (authHeader : Option (List Char)) : Option (String × String) := do
  let token ← basicToken (← authHeader)
  let decoded := Text.utf8Text (base64Bytes token)
  if ':' ∉ decoded then none
  else
    let clientId ← formDecode (decoded.takeWhile (· ≠ ':'))
    let clientSecret ← formDecode ((decoded.dropWhile (· ≠ ':')).drop 1)
    if clientId = "" ∨ clientSecret = "" then none else some (clientId, clientSecret)

def extractClientCredentials (request : ClientRequest)
    (bodyClientId bodyClientSecret : Option String) :
    Except ClientAuthError ExtractedClientCredentials :=
  match parseBasicAuthHeader request.authorization with
  | some (clientId, clientSecret) =>
    if (truthy bodyClientSecret).isSome ∨ (truthy bodyClientId).any (· ≠ clientId) then
      .error invalidClient
    else .ok ⟨clientId, clientSecret, .clientSecretBasic⟩
  | none =>
    match truthy bodyClientId, truthy bodyClientSecret with
    | some clientId, some clientSecret => .ok ⟨clientId, clientSecret, .clientSecretPost⟩
    | _, _ => .error invalidClient

def acceptsClientSecret (method : Option String) : Bool :=
  method = none || method = some "client_secret_basic" || method = some "client_secret_post"

def SHED_CLIENT_SECRET_RETRY_AFTER_SECONDS : ℕ := 1

def authenticateClient (env : ClientAuth) (creds : ExtractedClientCredentials) :
    Except ClientAuthError OAuthClientLike := do
  let client ← require (env.findByClientId creds.clientId) invalidClient
  refuseIf (isClientUsable client = false) invalidClient
  refuseIf (acceptsClientSecret client.tokenEndpointAuthMethod = false) invalidClient
  match env.verifyPassword client.clientSecretHash creds.clientSecret with
  | .queueFull => .error (.temporarilyUnavailable SHED_CLIENT_SECRET_RETRY_AFTER_SECONDS)
  | .failed message => .error (.other message)
  | .checked valid => do
    refuseIf (valid = false) invalidClient
    .ok client

/-! ### By an assertion -/

structure ClientAssertionCredentials where
  clientId : Option String
  assertionType : String
  assertion : String

def CLIENT_ASSERTION_TYPE_JWT_BEARER : String :=
  "urn:ietf:params:oauth:client-assertion-type:jwt-bearer"

def ASSERTION_SIGNING_ALG_VALUES_SUPPORTED : List String :=
  ["RS256", "RS384", "RS512", "PS256", "PS384", "PS512", "ES256", "ES384", "ES512", "EdDSA"]

def CLIENT_ASSERTION_CLOCK_SKEW_LEEWAY_SECONDS : ℕ := 60

def CLIENT_ASSERTION_MAX_LIFETIME_SECONDS : ℕ := 300

def CLIENT_ASSERTION_MAX_JTI_LENGTH : ℕ := 255

def CLIENT_ASSERTION_MAX_ISSUER_LENGTH : ℕ := 2048

def isPermittedAlg (alg : Option String) : Bool :=
  alg.any (· ∈ ASSERTION_SIGNING_ALG_VALUES_SUPPORTED)

/-- The client that an assertion says it is of. -/
def readAssertionSubject (env : ClientAuth) (assertion : String) : Option String := do
  let payload ← env.decodeJwt assertion
  let iss ← payload.iss
  let sub ← payload.sub
  if iss = "" ∨ CLIENT_ASSERTION_MAX_ISSUER_LENGTH < Text.utf16Length iss then none
  else if iss ≠ sub then none
  else some iss

/-- The `jti` is used once for as long as the assertion may be. -/
def consumeAssertionJti (env : ClientAuth) (clientId jti : String) (expSeconds : ℚ) :
    Except ClientAuthError Unit :=
  let remaining : ℚ := expSeconds - env.nowSeconds
  let ttlSeconds := min (max remaining 1 + CLIENT_ASSERTION_CLOCK_SKEW_LEEWAY_SECONDS)
    (CLIENT_ASSERTION_MAX_LIFETIME_SECONDS + 2 * CLIENT_ASSERTION_CLOCK_SKEW_LEEWAY_SECONDS)
  match env.setJti clientId jti ttlSeconds with
  | .unavailable => .error (.invalidClient "client_assertion replay protection is unavailable")
  | .present => .error (.invalidClient "client_assertion jti has already been used")
  | .stored => .ok ()

def authenticateClientAssertion (env : ClientAuth) (creds : ClientAssertionCredentials) :
    Except ClientAuthError OAuthClientLike := do
  refuseIf (creds.assertionType ≠ CLIENT_ASSERTION_TYPE_JWT_BEARER)
    (.invalidClient "unsupported client_assertion_type")
  let header ← require (env.decodeProtectedHeader creds.assertion)
    (.invalidClient "client_assertion header is not decodable")
  refuseIf (isPermittedAlg header.alg = false)
    (.invalidClient "client_assertion alg is not permitted")
  refuseIf (header.hasKeyMaterial = true)
    (.invalidClient "client_assertion must not carry its own key material")
  let claimedClientId ← require (readAssertionSubject env creds.assertion)
    (.invalidClient "client_assertion iss and sub must both be the client_id")
  refuseIf (creds.clientId.any (· ≠ claimedClientId) = true)
    (.invalidClient "client_id does not match the client_assertion subject")
  let client ← require ((← env.resolveClient claimedClientId).filter isClientUsable) invalidClient
  refuseIf (client.tokenEndpointAuthMethod ≠ some "private_key_jwt")
    (.invalidClient "client is not registered for private_key_jwt")
  let payload ← env.jwtVerify creds.assertion client claimedClientId
  refuseIf (payload.audEntries.any (· ≠ 1) = true)
    (.invalidClient "client_assertion aud must be the issuer as its sole value")
  let exp ← require payload.exp (.invalidClient "client_assertion exp is missing")
  let issuedAt : ℚ := payload.iat.getD env.nowSeconds
  refuseIf (payload.iat.any
      (fun iat ↦ (env.nowSeconds : ℚ) + CLIENT_ASSERTION_CLOCK_SKEW_LEEWAY_SECONDS < iat) = true)
    (.invalidClient "client_assertion iat is in the future")
  refuseIf (CLIENT_ASSERTION_MAX_LIFETIME_SECONDS < exp - issuedAt)
    (.invalidClient "client_assertion lifetime exceeds the permitted maximum")
  let jti ← require (payload.jti.filter fun jti ↦
      jti ≠ "" && Text.utf16Length jti ≤ CLIENT_ASSERTION_MAX_JTI_LENGTH)
    (.invalidClient "client_assertion jti is missing or malformed")
  consumeAssertionJti env client.clientId jti exp
  .ok client

/-! ### By whichever mechanism -/

/-- `/^Basic\s/i`. -/
def hasBasic (request : ClientRequest) : Bool :=
  request.authorization.any fun header ↦
    (header.take 5).map Char.toLower = ['b', 'a', 's', 'i', 'c'] &&
      (header.drop 5).head?.any Text.isSpace

def authenticateClientPublicOrConfidential (env : ClientAuth) (request : ClientRequest)
    (bodyClientId bodyClientSecret : Option String) : Except ClientAuthError OAuthClientLike :=
  if hasBasic request ∨ (truthy bodyClientSecret).isSome then do
    let creds ← extractClientCredentials request bodyClientId bodyClientSecret
    authenticateClient env creds
  else do
    let clientId ← require (truthy bodyClientId) invalidClient
    let client ← require ((← env.resolveClient clientId).filter isClientUsable) invalidClient
    refuseIf (client.tokenEndpointAuthMethod ≠ some "none") invalidClient
    .ok client

inductive AttemptedClientAuthMethod
  | secret
  | privateKeyJwt
  | none

def classifyClientAuthentication (request : ClientRequest) (params : ClientAuthenticationParams) :
    Except ClientAuthError AttemptedClientAuthMethod :=
  let hasSecret := hasBasic request || (truthy params.clientSecret).isSome
  let hasAssertionType := (truthy params.clientAssertionType).isSome
  let hasAssertion := (truthy params.clientAssertion).isSome
  if (hasAssertionType || hasAssertion) && hasSecret then .error invalidClient
  else if hasAssertionType ≠ hasAssertion then .error invalidClient
  else if hasAssertion then .ok .privateKeyJwt
  else if hasSecret then .ok .secret
  else .ok .none

def authenticateClientRequest (env : ClientAuth) (request : ClientRequest)
    (params : ClientAuthenticationParams) (allowPublic : Bool) :
    Except ClientAuthError OAuthClientLike := do
  match ← classifyClientAuthentication request params with
  | .privateKeyJwt =>
    authenticateClientAssertion env ⟨params.clientId, params.clientAssertionType.getD "",
      params.clientAssertion.getD ""⟩
  | .secret =>
    let creds ← extractClientCredentials request params.clientId params.clientSecret
    authenticateClient env creds
  | .none =>
    refuseIf (allowPublic = false) invalidClient
    authenticateClientPublicOrConfidential env request params.clientId params.clientSecret

end QAuth.Token
