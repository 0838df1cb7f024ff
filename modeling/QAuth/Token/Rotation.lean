import QAuth.Foundation.Run
import QAuth.Token.RefreshGrant

/-!
# Chains of rotations

A family of refresh tokens is a chain: a code's redemption stores its first token, and each refresh
revokes the latest one and stores the next. This file runs the two grants of the previous files as
such a chain, and shows what every token of it has from the code.

Everything but the presented token is chosen anew at each refresh: the parameters, the client's
registration, the realm's settings, the accounts and their grants, and the clock.
-/

namespace QAuth.Token

open Guards Transition

/-- The latest refresh token of a family, and the access token it was issued with. -/
structure Family where
  row : RefreshToken
  accessToken : AccessToken

/-- A refresh: its context, its parameters and what it reads, and the row it stores under. -/
structure Refresh where
  ctx : HandlerContext
  body : RefreshBody
  reads : RefreshReads
  rowId : Uuid
  createdAt : ℕ
  jti : String
  signedAt : ℕ

/-- What a refresh of `row` reads. -/
def Refresh.readsOf (refresh : Refresh) (row : RefreshToken) : RefreshReads :=
  { refresh.reads with stored := some row }

/-- One rotation: a refresh that presents the latest token and spends it. -/
def rotate (family : Family) (refresh : Refresh) : Option Family :=
  match handleRefreshToken refresh.ctx refresh.body (refresh.readsOf family.row) true refresh.jti
      refresh.signedAt with
  | .error _ => none
  | .ok (data, issued) => some ⟨data.row refresh.rowId refresh.createdAt, issued.accessToken⟩

/-- The family a redemption starts, once its refresh token is stored. -/
def Family.start (first : NewRefreshToken) (issued : Issued) (rowId : Uuid) (createdAt : ℕ) :
    Family :=
  ⟨first.row rowId createdAt, issued.accessToken⟩

/-- The audience of a refresh of `row`. -/
def Refresh.aud (refresh : Refresh) (row : RefreshToken) : Audience :=
  resolveUserGrantAudience refresh.ctx.systemClientId refresh.ctx.client
    (effectiveResource refresh.body.resource row.resource)

theorem rotate_eq_some {family next : Family} {refresh : Refresh}
    (h : rotate family refresh = some next) :
    dpopBindingRefusal refresh.ctx family.row.cnfJkt = none ∧
      (∀ s ∈ requestedScopes refresh.body family.row, s ∈ family.row.scopes) ∧
      (refresh.body.resource.filter fun r ↦ r ∉ family.row.resource) = [] ∧
      (family.row.cnfJkt = none → (refresh.aud family.row).namesAdmin = false) ∧
      ∃ scopes,
        issuableScopes refresh.ctx refresh.reads.directory
            ⟨some family.row.userId, requestedScopes refresh.body family.row,
              refresh.aud family.row, none⟩
            family.row.cnfJkt.isSome = .ok scopes ∧
          next = ⟨(rotatedRefreshToken refresh.ctx (refresh.readsOf family.row) family.row
              family.row.userId (requestedScopes refresh.body family.row)
              (effectiveResource refresh.body.resource family.row.resource) scopes
              (refresh.aud family.row)).row refresh.rowId refresh.createdAt,
            signAccessToken (rotationPayload refresh.ctx family.row family.row.userId scopes
              (refresh.aud family.row)) refresh.jti refresh.signedAt⟩ := by
  unfold rotate at h
  split at h
  · cases h
  · rename_i data issued hhandle
    obtain ⟨rotation, hcheck, hdata, hissued⟩ := handleRefreshToken_eq_ok hhandle
    obtain ⟨hstored, -, -, -, hbinding, hscopes, hresource, scopes, hadmin, hissuable, hrefresh,
      hpayload⟩ := checkRotation_eq_ok hcheck
    rw [← Option.some.inj hstored] at hbinding hscopes hresource hadmin hissuable hrefresh hpayload
    refine ⟨hbinding, hscopes, hresource, hadmin, scopes, hissuable, ?_⟩
    rw [← Option.some.inj h, hdata, hissued, hrefresh, hpayload]
    rfl

/-! ### What a chain keeps -/

/-- The resources of one row, narrowed from another's: among them, and some unless there were
none. -/
def NarrowedFrom (resource bound : List String) : Prop :=
  (∀ r ∈ resource, r ∈ bound) ∧ (bound ≠ [] → resource ≠ [])

theorem NarrowedFrom.refl (resource : List String) : NarrowedFrom resource resource :=
  ⟨fun _ h ↦ h, id⟩

theorem NarrowedFrom.trans {a b c : List String} (hab : NarrowedFrom a b)
    (hbc : NarrowedFrom b c) : NarrowedFrom a c :=
  ⟨fun r hr ↦ hbc.1 r (hab.1 r hr), fun hc ↦ hab.2 (hbc.2 hc)⟩

/-- What a family has from its code and its first token: scopes only of the code, the family's id,
its start, the end of its session and the sign-in of the first token. -/
structure Inherits (code : AuthorizationCode) (first : NewRefreshToken) (issued : Issued)
    (family : Family) : Prop where
  accessScopes : ∀ s ∈ family.accessToken.scopes, s ∈ code.scopes
  rowScopes : ∀ s ∈ family.row.scopes, s ∈ code.scopes
  familyId : family.row.familyId = first.familyId
  familyCreatedAt : family.row.familyCreatedAt = first.familyCreatedAt
  familySessionExpiresAt : family.row.familySessionExpiresAt = first.familySessionExpiresAt
  authTime : family.row.authTime = first.authTime
  amr : family.row.amr = first.amr
  accessAuthTime : family.accessToken.authTime = issued.accessToken.authTime
  accessAmr : family.accessToken.amr = issued.accessToken.amr

/-- A rotation narrows the family's resources. -/
theorem narrowedFrom_of_rotate {family next : Family} {refresh : Refresh}
    (h : rotate family refresh = some next) :
    NarrowedFrom next.row.resource family.row.resource := by
  obtain ⟨-, -, hresource, -, scopes, -, rfl⟩ := rotate_eq_some h
  exact effectiveResource_narrows hresource

/-- A chain narrows the family's resources. -/
theorem narrowedFrom_of_run {family last : Family} {refreshes : List Refresh}
    (h : Run rotate family refreshes last) :
    NarrowedFrom last.row.resource family.row.resource := by
  induction h with
  | nil => exact .refl _
  | cons head _ ih => exact ih.trans (narrowedFrom_of_rotate head)

section Inherits

variable {ctx : HandlerContext} {body : CodeBody} {reads : CodeReads} {redemption : Redemption}
  {first : NewRefreshToken} {jti : String} {signedAt : ℕ}

theorem scopes_of_checkRedemption (h : checkRedemption ctx body reads = .ok redemption) :
    ∀ s ∈ redemption.payload.scopes, s ∈ redemption.code.scopes := by
  obtain ⟨-, -, -, -, -, scopes, hscopes, hpayload, -⟩ := checkRedemption_eq_ok h
  rw [hpayload]
  exact (issuableScopes_eq_ok hscopes).1

theorem inherits_start (h : checkRedemption ctx body reads = .ok redemption)
    (hfirst : redemption.refresh = some first) (rowId : Uuid) (createdAt : ℕ) :
    Inherits redemption.code first (issue ctx redemption.refresh redemption.payload jti signedAt)
      (Family.start first (issue ctx redemption.refresh redemption.payload jti signedAt) rowId
        createdAt) := by
  obtain ⟨-, -, -, -, -, scopes, -, -, hrefresh⟩ := checkRedemption_eq_ok h
  refine ⟨?_, ?_, rfl, rfl, rfl, rfl, rfl, rfl, rfl⟩
  · rw [Family.start, issue, scopes_signAccessToken]
    exact scopes_of_checkRedemption h
  · rw [Family.start, hrefresh first hfirst]
    exact fun s hs ↦ hs

theorem signIn_of_checkRedemption (h : checkRedemption ctx body reads = .ok redemption)
    (hfirst : redemption.refresh = some first) :
    redemption.payload.signIn = recordedSignIn first.authTime first.amr := by
  obtain ⟨-, -, -, -, -, scopes, -, hpayload, hrefresh⟩ := checkRedemption_eq_ok h
  rw [hpayload, hrefresh first hfirst]
  simp [startedRefreshToken, redemptionPayload]

theorem inherits_rotate (h : checkRedemption ctx body reads = .ok redemption)
    (hfirst : redemption.refresh = some first) {family next : Family} {refresh : Refresh}
    (hinherits : Inherits redemption.code first
      (issue ctx redemption.refresh redemption.payload jti signedAt) family)
    (hrotate : rotate family refresh = some next) :
    Inherits redemption.code first (issue ctx redemption.refresh redemption.payload jti signedAt)
      next := by
  obtain ⟨-, hrequested, -, -, scopes, hissuable, rfl⟩ := rotate_eq_some hrotate
  have hsignIn := signIn_of_checkRedemption h hfirst
  have hgranted : ∀ s ∈ requestedScopes refresh.body family.row, s ∈ redemption.code.scopes :=
    fun s hs ↦ hinherits.rowScopes s (hrequested s hs)
  refine ⟨?_, ?_, hinherits.familyId, hinherits.familyCreatedAt,
    hinherits.familySessionExpiresAt, hinherits.authTime, hinherits.amr, ?_, ?_⟩
  · rw [scopes_signAccessToken]
    exact fun s hs ↦ hgranted s ((issuableScopes_eq_ok hissuable).1 s hs)
  · exact fun s hs ↦ hgranted s (mem_familyScopes hs)
  · simp only [issue, signAccessToken, rotationPayload, hsignIn, hinherits.authTime,
      hinherits.amr]
  · simp only [issue, signAccessToken, rotationPayload, hsignIn, hinherits.authTime,
      hinherits.amr]

/-- Along every chain of rotations that starts at a code, each issued token's scopes are among the
code's, the family's resources only narrow, and the family's id, start and session end and its
sign-in stay those of the first token. -/
theorem rotation_inherits {spent : Bool} {issued : Issued}
    (h : handleAuthorizationCode ctx body reads spent jti signedAt = .ok issued) :
    ∃ code, reads.code = some code ∧ (∀ s ∈ issued.accessToken.scopes, s ∈ code.scopes) ∧
      ∀ first, issued.refresh = some first → ∀ rowId createdAt refreshes family,
        Run rotate (Family.start first issued rowId createdAt) refreshes family →
          Inherits code first issued family ∧
            NarrowedFrom family.row.resource first.resource ∧
            NarrowedFrom first.resource code.resource ∧
            ∀ later last, Run rotate family later last →
              NarrowedFrom last.row.resource family.row.resource := by
  obtain ⟨redemption, hcheck, rfl⟩ := handleAuthorizationCode_eq_ok h
  obtain ⟨hcode, -, -, -, hresource, scopes, -, -, hrefresh⟩ := checkRedemption_eq_ok hcheck
  refine ⟨redemption.code, hcode, ?_, ?_⟩
  · rw [issue, scopes_signAccessToken]
    exact scopes_of_checkRedemption hcheck
  · intro first hfirst rowId createdAt refreshes family hrun
    have hinherits : Inherits redemption.code first
        (issue ctx redemption.refresh redemption.payload jti signedAt) family :=
      hrun.induct (P := Inherits redemption.code first
          (issue ctx redemption.refresh redemption.payload jti signedAt))
        (fun _ _ _ hinherits hrotate ↦ inherits_rotate hcheck hfirst hinherits hrotate)
        (inherits_start hcheck hfirst rowId createdAt)
    refine ⟨hinherits, narrowedFrom_of_run hrun, ?_, fun later last hlater ↦
      narrowedFrom_of_run hlater⟩
    rw [hrefresh first hfirst]
    exact effectiveResource_narrows hresource

end Inherits

/-! ### A chain, evaluated -/

namespace Sample

/-- A public client of the realm. -/
def app : OAuthClient where
  id := "c1"
  clientId := "app"
  grantTypes := ["authorization_code", "refresh_token"]
  scopes := ["openid", "notes:read"]
  clientCredentialsScopes := none
  audience := none
  tokenEndpointAuthMethod := some "none"
  isAgent := false
  maxAgentMode := none
  registrationType := none
  dynamicRegisteredAt := none
  nativeRedirectUrisOnly := true

def lifetimes : TokenLifetimes := ⟨900, 3600, 86400, 300⟩

/-- A request of `client`, with or without a proof. -/
def ctx (client : OAuthClient) (proof : Option String) : HandlerContext where
  client := client
  policy := ⟨true, .short⟩
  ssoMaxLifespan := none
  tokenLifetimes := lifetimes
  dpopThumbprint := proof
  dpopEnabled := true
  systemClientId := "system"

def openid : Scope := ⟨"openid", by decide⟩

def notesRead : Scope := ⟨"notes:read", by decide⟩

def accounts : Accounts := .ofList [⟨"u1", true, none⟩]

/-- Accounts of which the one holds a grant of every class. -/
def directory : Directory := ⟨accounts, fun _ ↦ [.read, .write, .security]⟩

/-- An authorization code for the client with row id `clientRow`. -/
def code (clientRow : Uuid) (resource : List String) : AuthorizationCode where
  id := "code1"
  oauthClientId := clientRow
  userId := "u1"
  redirectUri := "app:/cb"
  codeChallenge := "challenge"
  dpopJkt := none
  scopes := [openid, notesRead]
  resource := resource
  used := false
  createdAt := 1000
  expiresAt := 61000
  authTime := some 500
  amr := some ["pwd"]
  sessionId := none
  sessionExpiresAt := none

def codeBody : CodeBody := ⟨some "app:/cb", "verifier", []⟩

/-- A redemption of `code` under a consent that covers it. -/
def codeReads (code : AuthorizationCode) : CodeReads where
  code := some code
  now := 2000
  verifyCodeChallenge _ _ := true
  issuedAt := 2000
  accounts := accounts
  consent := some ⟨[openid, notesRead], code.resource.map fun r ↦ (r, [openid, notesRead])⟩
  directory := directory
  tokenHash := "h1"
  familyId := "f1"

/-- A refresh at `now` that stores under `rowId`. -/
def refresh (ctx : HandlerContext) (scope : Option String) (resource : List String)
    (rowId : String) (now : ℕ) : Refresh where
  ctx := ctx
  body := ⟨scope, resource⟩
  reads := ⟨"hash", none, now, accounts, directory, "hash of " ++ rowId⟩
  rowId := rowId
  createdAt := now
  jti := "jti of " ++ rowId
  signedAt := now

/-- The family a redemption starts, run through some refreshes. -/
def chain (ctx : HandlerContext) (code : AuthorizationCode) (refreshes : List Refresh) :
    Option (Issued × NewRefreshToken × Family) :=
  match handleAuthorizationCode ctx codeBody (codeReads code) true "j1" 2000 with
  | .error _ => none
  | .ok issued =>
    issued.refresh.bind fun first ↦
      (exec rotate (Family.start first issued "r1" 2000) refreshes).map (issued, first, ·)

theorem of_chain {ctx : HandlerContext} {code : AuthorizationCode} {refreshes : List Refresh}
    {issued : Issued} {first : NewRefreshToken} {family : Family}
    (h : chain ctx code refreshes = some (issued, first, family)) :
    handleAuthorizationCode ctx codeBody (codeReads code) true "j1" 2000 = .ok issued ∧
      issued.refresh = some first ∧
      Run rotate (Family.start first issued "r1" 2000) refreshes family := by
  unfold chain at h
  split at h
  · cases h
  · rename_i issued' hissued
    obtain ⟨first', hfirst, hexec⟩ := Option.bind_eq_some_iff.mp h
    obtain ⟨family', hfamily, heq⟩ := Option.map_eq_some_iff.mp hexec
    cases heq
    exact ⟨hissued, hfirst, Run.of_exec hfamily⟩

/-- A refresh that drops a scope and a resource, and one that names neither. -/
def narrowing : List Refresh :=
  [refresh (ctx app none) (some "notes:read") ["https://a"] "r2" 3000,
    refresh (ctx app none) none [] "r3" 4000]

end Sample

/-- A chain of two rotations, the first of which drops a scope and a resource. -/
theorem rotation_inherits_narrowing :
    ∃ issued first family,
      Sample.chain (Sample.ctx Sample.app none) (Sample.code "c1" ["https://a", "https://b"])
          Sample.narrowing = some (issued, first, family) ∧
        first.resource = ["https://a", "https://b"] ∧ family.row.resource = ["https://a"] ∧
        family.accessToken.scopes = [Sample.notesRead] ∧
        Inherits (Sample.code "c1" ["https://a", "https://b"]) first issued family := by
  have hfacts : (Sample.chain (Sample.ctx Sample.app none)
      (Sample.code "c1" ["https://a", "https://b"]) Sample.narrowing).map
        (fun c ↦ (c.2.1.resource, c.2.2.row.resource, c.2.2.accessToken.scopes)) =
      some (["https://a", "https://b"], ["https://a"], [Sample.notesRead]) := by decide
  obtain ⟨⟨issued, first, family⟩, hchain, hfacts⟩ := Option.map_eq_some_iff.mp hfacts
  simp only [Prod.mk.injEq] at hfacts
  obtain ⟨hissued, hfirst, hrun⟩ := Sample.of_chain hchain
  obtain ⟨code, hcode, -, hinherits⟩ := rotation_inherits hissued
  cases hcode
  exact ⟨issued, first, family, hchain, hfacts.1, hfacts.2.1, hfacts.2.2,
    (hinherits first hfirst "r1" 2000 Sample.narrowing family hrun).1⟩

end QAuth.Token
