import QAuth.Token.ClientAuth

/-!
# One mechanism of client authentication

A request that presents more than one mechanism is to be refused. An `Authorization` header of the
Basic scheme counts as a mechanism in any letter case, but its credentials are read of the exact
form alone, so one that is not of that form is passed over where the body has a secret.
-/

namespace QAuth.Token

open Guards

variable {env : ClientAuth} {request : ClientRequest} {params : ClientAuthenticationParams}
  {allowPublic : Bool} {client : OAuthClientLike}

/-! ### What a request presents -/

/-- The header's scheme is Basic, in any letter case; what follows it is not looked at. -/
def presentsBasic (request : ClientRequest) : Bool :=
  request.authorization.any fun header ↦
    (header.take 5).map Char.toLower = ['b', 'a', 's', 'i', 'c'] &&
      (header.drop 5).head?.all Text.isSpace

def presentsSecret (params : ClientAuthenticationParams) : Bool :=
  (truthy params.clientSecret).isSome

def presentsAssertion (params : ClientAuthenticationParams) : Bool :=
  (truthy params.clientAssertionType).isSome && (truthy params.clientAssertion).isSome

/-- The request presents more than one mechanism. -/
def Mixed (request : ClientRequest) (params : ClientAuthenticationParams) : Prop :=
  1 < [presentsBasic request, presentsSecret params, presentsAssertion params].count true

/-- The credentials of the body alone. -/
def postCredentials (params : ClientAuthenticationParams) : Option ExtractedClientCredentials := do
  let clientId ← truthy params.clientId
  let clientSecret ← truthy params.clientSecret
  some ⟨clientId, clientSecret, .clientSecretPost⟩

/-- The assertion of the body. -/
def assertionCredentials (params : ClientAuthenticationParams) :
    Option ClientAssertionCredentials := do
  let assertionType ← truthy params.clientAssertionType
  let assertion ← truthy params.clientAssertion
  some ⟨params.clientId, assertionType, assertion⟩

/-- A Basic header is passed over: one that is not read, beside a client id and a secret in the body
and nothing of an assertion; or the bare word, beside an assertion and no secret. What is not passed
over authenticates the client. -/
def Overlooked (env : ClientAuth) (request : ClientRequest)
    (params : ClientAuthenticationParams) : Prop :=
  presentsBasic request = true ∧
    ((parseBasicAuthHeader request.authorization = none ∧
        truthy params.clientAssertionType = none ∧ truthy params.clientAssertion = none ∧
        ∃ creds ∈ postCredentials params, ∃ client, authenticateClient env creds = .ok client) ∨
      (hasBasic request = false ∧ presentsSecret params = false ∧
        ∃ creds ∈ assertionCredentials params, ∃ client,
          authenticateClientAssertion env creds = .ok client))

/-! ### What authenticates -/

theorem classifyClientAuthentication_eq_ok_iff {method : AttemptedClientAuthMethod} :
    classifyClientAuthentication request params = .ok method ↔
      match method with
      | .privateKeyJwt => presentsAssertion params = true ∧ hasBasic request = false ∧
          presentsSecret params = false
      | .secret => (hasBasic request = true ∨ presentsSecret params = true) ∧
          truthy params.clientAssertionType = none ∧ truthy params.clientAssertion = none
      | .none => hasBasic request = false ∧ presentsSecret params = false ∧
          truthy params.clientAssertionType = none ∧ truthy params.clientAssertion = none := by
  simp only [classifyClientAuthentication, presentsAssertion, presentsSecret]
  cases hasBasic request <;> cases truthy params.clientSecret <;>
    cases truthy params.clientAssertionType <;> cases truthy params.clientAssertion <;>
    cases method <;> simp

/-- What a secret is taken from: a Basic header that is read, or the body where none is. -/
theorem extractClientCredentials_eq_ok_iff {creds : ExtractedClientCredentials} :
    extractClientCredentials request params.clientId params.clientSecret = .ok creds ↔
      (parseBasicAuthHeader request.authorization = some (creds.clientId, creds.clientSecret) ∧
        creds.method = .clientSecretBasic ∧ presentsSecret params = false ∧
        ∀ clientId ∈ truthy params.clientId, clientId = creds.clientId) ∨
      (parseBasicAuthHeader request.authorization = none ∧
        postCredentials params = some creds) := by
  obtain ⟨id, secret, method⟩ := creds
  rw [extractClientCredentials, presentsSecret, postCredentials]
  cases parseBasicAuthHeader request.authorization with
  | none =>
    cases truthy params.clientId <;> cases truthy params.clientSecret <;> simp
  | some basic =>
    obtain ⟨basicId, basicSecret⟩ := basic
    cases truthy params.clientSecret with
    | some clientSecret => simp
    | none =>
      cases hid : truthy params.clientId with
      | none => simp; tauto
      | some clientId => simp; grind

theorem mixed_iff : Mixed request params ↔
    (presentsBasic request = true ∧ presentsSecret params = true) ∨
      (presentsBasic request = true ∧ presentsAssertion params = true) ∨
      (presentsSecret params = true ∧ presentsAssertion params = true) := by
  rw [Mixed]
  cases presentsBasic request <;> cases presentsSecret params <;>
    cases presentsAssertion params <;> decide

theorem truthy_eq_some {param : Option String} {value : String} (h : truthy param = some value) :
    param.getD "" = value := by
  obtain ⟨rfl, -⟩ := Option.filter_eq_some_iff.mp h
  rfl

theorem assertionCredentials_eq_some_iff {creds : ClientAssertionCredentials} :
    assertionCredentials params = some creds ↔ presentsAssertion params = true ∧
      creds = ⟨params.clientId, params.clientAssertionType.getD "",
        params.clientAssertion.getD ""⟩ := by
  rw [assertionCredentials, presentsAssertion]
  cases htype : truthy params.clientAssertionType with
  | none => simp
  | some assertionType =>
    cases hassertion : truthy params.clientAssertion with
    | none => simp
    | some assertion =>
      rw [truthy_eq_some htype, truthy_eq_some hassertion]
      simp [eq_comm]

theorem presentsSecret_of_postCredentials {creds : ExtractedClientCredentials}
    (h : postCredentials params = some creds) : presentsSecret params = true := by
  obtain ⟨clientId, -, h⟩ := Option.bind_eq_some_iff.mp h
  obtain ⟨clientSecret, hsecret, -⟩ := Option.bind_eq_some_iff.mp h
  rw [presentsSecret, hsecret]
  rfl

/-- A request with more than one mechanism that authenticates its client passes one over. -/
theorem overlooked_of_eq_ok (hmixed : Mixed request params)
    (h : authenticateClientRequest env request params allowPublic = .ok client) :
    Overlooked env request params := by
  rw [mixed_iff] at hmixed
  rw [authenticateClientRequest, bind_eq_ok_iff] at h
  obtain ⟨method, hmethod, h⟩ := h
  rw [classifyClientAuthentication_eq_ok_iff] at hmethod
  cases method with
  | privateKeyJwt =>
    obtain ⟨hassertion, hbasic, hsecret⟩ := hmethod
    have hpresents : presentsBasic request = true := by
      rw [hsecret] at hmixed
      simpa [hassertion] using hmixed
    exact ⟨hpresents, .inr ⟨hbasic, hsecret, _,
      assertionCredentials_eq_some_iff.mpr ⟨hassertion, rfl⟩, client, h⟩⟩
  | secret =>
    obtain ⟨-, htype, hassertion⟩ := hmethod
    have hboth : presentsBasic request = true ∧ presentsSecret params = true := by
      simpa [presentsAssertion, hassertion] using hmixed
    obtain ⟨creds, hextract, hauthenticate⟩ := bind_eq_ok_iff.mp h
    rcases extractClientCredentials_eq_ok_iff.mp hextract with ⟨-, -, hsecret, -⟩ | ⟨hparse, hpost⟩
    · rw [hboth.2] at hsecret
      cases hsecret
    · exact ⟨hboth.1, .inl ⟨hparse, htype, hassertion, creds, hpost, client, hauthenticate⟩⟩
  | none =>
    obtain ⟨-, hsecret, -, hassertion⟩ := hmethod
    simp [presentsAssertion, hsecret, hassertion] at hmixed

/-- Where a Basic header is passed over, the request authenticates its client. -/
theorem exists_eq_ok_of_overlooked (allowPublic : Bool) (h : Overlooked env request params) :
    Mixed request params ∧
      ∃ client, authenticateClientRequest env request params allowPublic = .ok client := by
  rw [mixed_iff]
  obtain ⟨hpresents, ⟨hparse, htype, hassertion, creds, hpost, client, hauthenticate⟩ |
    ⟨hbasic, hsecret, creds, hcreds, client, hauthenticate⟩⟩ := h
  · have hsecret := presentsSecret_of_postCredentials hpost
    have hmethod : classifyClientAuthentication request params = .ok .secret :=
      classifyClientAuthentication_eq_ok_iff.mpr ⟨.inr hsecret, htype, hassertion⟩
    have hextract : extractClientCredentials request params.clientId params.clientSecret =
        .ok creds := extractClientCredentials_eq_ok_iff.mpr (.inr ⟨hparse, hpost⟩)
    refine ⟨.inl ⟨hpresents, hsecret⟩, client, ?_⟩
    rw [authenticateClientRequest, bind_eq_ok_iff]
    exact ⟨.secret, hmethod, bind_eq_ok_iff.mpr ⟨creds, hextract, hauthenticate⟩⟩
  · obtain ⟨hassertion, rfl⟩ := assertionCredentials_eq_some_iff.mp hcreds
    have hmethod : classifyClientAuthentication request params = .ok .privateKeyJwt :=
      classifyClientAuthentication_eq_ok_iff.mpr ⟨hassertion, hbasic, hsecret⟩
    refine ⟨.inr (.inl ⟨hpresents, hassertion⟩), client, ?_⟩
    rw [authenticateClientRequest, bind_eq_ok_iff]
    exact ⟨.privateKeyJwt, hmethod, hauthenticate⟩

/-- A request that presents more than one mechanism is refused, unless a Basic header is passed
over. -/
theorem refuses_mixed_iff (env : ClientAuth) (request : ClientRequest)
    (params : ClientAuthenticationParams) (allowPublic : Bool) :
    (Mixed request params → ∀ client,
        authenticateClientRequest env request params allowPublic ≠ .ok client) ↔
      ¬ Overlooked env request params := by
  constructor
  · intro hrefuses hoverlooked
    obtain ⟨hmixed, client, h⟩ := exists_eq_ok_of_overlooked allowPublic hoverlooked
    exact hrefuses hmixed client h
  · intro hnot hmixed client h
    exact hnot (overlooked_of_eq_ok hmixed h)

/-! ### A header in lower case -/

namespace Sample

def secretClient : OAuthClientLike := ⟨"c1", "app", "hash", true, some false, none⟩

/-- A server that knows the client, whose secret is `s3cret`. -/
def secretServer : ClientAuth where
  findByClientId clientId := if clientId = "app" then some secretClient else none
  resolveClient _ := .ok none
  verifyPassword _ secret := .checked (secret = "s3cret")
  decodeProtectedHeader _ := none
  decodeJwt _ := none
  jwtVerify _ _ _ := .error invalidClient
  nowSeconds := 0
  setJti _ _ _ := .stored

/-- A request with a Basic header in lower case, and the secret in its body. -/
def lowerCase : ClientRequest := ⟨some "basic YXBwOng=".toList⟩

def secretParams : ClientAuthenticationParams := ⟨some "app", some "s3cret", none, none⟩

end Sample

/-- A Basic header in lower case is passed over, and the secret in the body authenticates the
client. -/
theorem authenticates_lowerCase : Mixed Sample.lowerCase Sample.secretParams ∧
    authenticateClientRequest Sample.secretServer Sample.lowerCase Sample.secretParams false =
      .ok Sample.secretClient := by
  constructor
  · rw [mixed_iff]
    exact .inl ⟨by decide, by decide⟩
  · rfl

end QAuth.Token
