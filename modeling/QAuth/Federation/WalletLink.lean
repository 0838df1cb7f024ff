import QAuth.Federation.SubjectResolution
import QAuth.Foundation.Sha256

/-!
# Linking a wallet

The row that links a wallet to the account of a session (`wallet-link.ts`, and
`buildWalletCredentialData` of `wallet.provider.ts`), and what derived subjects are worth in all.
-/

namespace QAuth.Federation

open Text (charsOf units)
open Audit (Sha256)

inductive SubjectResolutionStrategyId
  | assertedLookup
  | issuerScopedClaim

structure WalletCredentialData where
  credentialFormat : CredentialFormat
  credentialType : Option JsString
  issuer : JsString
  walletBinding : JsString
  subjectResolution : SubjectResolutionStrategyId
  enrolledAt : ℕ
  credentialExpiresAt : Option ℤ

/-- What is thrown. -/
inductive Thrown
  | invalidConfiguration (error : InvalidConfigurationError)
  | error (message : String)

def validityExpirySeconds (expiresAt : Option ℚ) : Option ℤ :=
  (expiresAt.filter (0 < ·)).map Rat.floor

section Link

variable {platform : Url.Platform}

def buildWalletCredentialData (credential : ValidatedCredential platform) (walletBinding : JsString)
    (subjectResolution : SubjectResolutionStrategyId) (enrolledAt : ℕ) :
    Except Thrown WalletCredentialData :=
  match credential.issuer with
  | none => .error (.error ("buildWalletCredentialData requires a ValidatedCredential carrying a " ++
      "branded ValidatedIssuer (#234). A credential-asserted `iss` must never be recorded as the " ++
      "issuer a binding is scoped to (ADR-009 §2)."))
  | some issuer => .ok
    { credentialFormat := credential.format
      credentialType := credential.credentialType
      issuer := issuer.identifier
      walletBinding
      subjectResolution
      enrolledAt
      credentialExpiresAt := validityExpirySeconds credential.expiresAt }

structure WalletLinkContext where
  realmId : String
  authenticatedUserId : Option String
  accountIdentifier : Configured
  lookup : SubjectAccountLookup

structure WalletLinkPlan where
  userId : String
  externalSub : JsString
  subjectSource : SubjectResolutionStrategyId
  credentialData : WalletCredentialData

inductive WalletLinkOutcome
  | linkable (plan : WalletLinkPlan)
  | conflict
  | rejected

def SubjectResolutionConfig.strategy : SubjectResolutionConfig → SubjectResolutionStrategyId
  | .assertedLookup _ => .assertedLookup
  | .issuerScopedClaim _ => .issuerScopedClaim

def bindingClaimsOf : SubjectResolutionConfig → Except InvalidConfigurationError (List JsString)
  | .assertedLookup config => normalizeBindingClaims "bindingClaims" config.bindingClaims
  | .issuerScopedClaim config =>
    normalizeBindingClaims "bindingClaims" (config.fallback.bind (·.bindingClaims))

/-- The stable subject of a wallet, where the configuration yields one. -/
def issuerScopedSubjectOf (sha256 : Sha256) (credential : ValidatedCredential platform) :
    SubjectResolutionConfig → Except InvalidConfigurationError (Option JsString)
  | .assertedLookup _ => .ok none
  | .issuerScopedClaim config => do
    let subjectClaim ← normalizeClaimName "subjectClaim" config.subjectClaim
    let issuers ← normalizeIssuerScopedIssuers platform "issuers" config.issuers
    return deriveOptedInIssuerScopedSubject sha256 credential subjectClaim issuers

/-- The outcome that the accounts of a subject force, if they are not all the session's. -/
def refusedBy (userId : String) : List SubjectAccountCandidate → Option WalletLinkOutcome
  | [] => none
  | candidate :: candidates =>
    match candidate.userId? with
    | none => some .rejected
    | some id => if id ≠ userId then some .conflict else refusedBy userId candidates

/-- The row of a wallet whose subject is derived, unless another account has the subject. -/
def linkIssuerScoped (context : WalletLinkContext) (userId : String) (issuerScoped : JsString)
    (credentialData : WalletCredentialData) : WalletLinkOutcome :=
  match runAccountLookup (context.lookup.byWalletSubject context.realmId issuerScoped) with
  | none => .rejected
  | some candidates =>
    (refusedBy userId candidates).getD
      (.linkable ⟨userId, issuerScoped, .issuerScopedClaim, credentialData⟩)

/-- The row of a wallet that goes by the account's own identifier. -/
def linkAsserted (toLowerCase : JsString → JsString) (context : WalletLinkContext) (userId : String)
    (credentialData : WalletCredentialData) : WalletLinkOutcome :=
  match normalizeAssertedIdentifier toLowerCase context.accountIdentifier with
  | none => .rejected
  | some externalSub => .linkable ⟨userId, externalSub, .assertedLookup, credentialData⟩

def prepareWalletLink (toLowerCase : JsString → JsString) (sha256 : Sha256) (now : ℕ)
    (credential : ValidatedCredential platform) (config : SubjectResolutionConfig)
    (context : WalletLinkContext) : Except Thrown WalletLinkOutcome := do
  let bindingClaims ← (bindingClaimsOf config).mapError .invalidConfiguration
  match sessionBindingResolve credential ⟨context.realmId, .other (units "undefined"),
      context.authenticatedUserId, context.lookup⟩ with
  | .matched userId =>
    if credential.issuer.isNone then return .rejected
    else if (credential.credentialType.filter (· ≠ [])).isNone then return .rejected
    else
      match deriveWalletBinding sha256 credential bindingClaims with
      | none => return .rejected
      | some binding =>
        let credentialData ← buildWalletCredentialData credential binding config.strategy now
        match ← (issuerScopedSubjectOf sha256 credential config).mapError .invalidConfiguration with
        | some issuerScoped => return linkIssuerScoped context userId issuerScoped credentialData
        | none => return linkAsserted toLowerCase context userId credentialData
  | _ => return .rejected

end Link

/-! ### The planned row -/

variable {platform : Url.Platform} {toLowerCase : JsString → JsString} {sha256 : Sha256} {now : ℕ}
  {credential : ValidatedCredential platform} {config : SubjectResolutionConfig}
  {context : WalletLinkContext} {plan : WalletLinkPlan} {userId : String}

theorem refusedBy_eq_none {candidates : List SubjectAccountCandidate}
    (h : refusedBy userId candidates = none) :
    ∀ candidate ∈ candidates, candidate.userId? = some userId := by
  induction candidates with
  | nil => exact nofun
  | cons candidate candidates ih =>
    rw [refusedBy] at h
    split at h
    case h_1 => cases h
    case h_2 id hid =>
      split at h
      case isTrue => cases h
      case isFalse hequal =>
        obtain rfl := not_not.mp hequal
        exact List.forall_mem_cons.mpr ⟨hid, ih h⟩

theorem refusedBy_ne_linkable (userId : String) (candidates : List SubjectAccountCandidate)
    (plan : WalletLinkPlan) : refusedBy userId candidates ≠ some (.linkable plan) := by
  induction candidates with
  | nil => exact nofun
  | cons candidate candidates ih =>
    rw [refusedBy]
    split
    · exact nofun
    · split
      · exact nofun
      · exact ih

/-- No account but the session's has the subject of a planned row. -/
theorem linkIssuerScoped_eq_linkable {issuerScoped : JsString} {data : WalletCredentialData}
    (h : linkIssuerScoped context userId issuerScoped data = .linkable plan) :
    plan.userId = userId ∧ plan.externalSub = issuerScoped ∧ ∃ candidates,
      context.lookup.byWalletSubject context.realmId issuerScoped = .candidates candidates ∧
        ∀ candidate ∈ candidates, candidate.userId? = some userId := by
  rw [linkIssuerScoped] at h
  cases hanswer : context.lookup.byWalletSubject context.realmId issuerScoped with
  | candidates found =>
    rw [hanswer] at h
    cases hrefused : refusedBy userId found with
    | none =>
      dsimp only [runAccountLookup] at h
      rw [hrefused] at h
      cases h
      exact ⟨rfl, rfl, found, rfl, refusedBy_eq_none hrefused⟩
    | some outcome =>
      dsimp only [runAccountLookup] at h
      rw [hrefused] at h
      cases h
      exact absurd hrefused (refusedBy_ne_linkable userId found plan)
  | notArray =>
    rw [hanswer] at h
    cases h
  | threw =>
    rw [hanswer] at h
    cases h

theorem sessionBindingResolve_matched {context : SubjectResolutionContext}
    (h : sessionBindingResolve credential context = .matched userId) :
    context.authenticatedUserId = some userId ∧ userId ≠ "" := by
  rw [sessionBindingResolve] at h
  split at h
  case h_1 => cases h
  case h_2 id hid =>
    cases h
    obtain ⟨hid, hne⟩ := Option.filter_eq_some_iff.mp hid
    exact ⟨hid, of_decide_eq_true hne⟩

/-- A planned row is the session's. Where the wallet has a subject, the row goes by it and no other
account has it; else the row goes by the account's identifier. -/
theorem prepareWalletLink_linkable
    (h : prepareWalletLink toLowerCase sha256 now credential config context =
      .ok (.linkable plan)) :
    (context.authenticatedUserId = some plan.userId ∧ plan.userId ≠ "") ∧
      ∃ derived, issuerScopedSubjectOf sha256 credential config = .ok derived ∧
        match derived with
        | some subject => plan.externalSub = subject ∧ ∃ candidates,
          context.lookup.byWalletSubject context.realmId subject = .candidates candidates ∧
            ∀ candidate ∈ candidates, candidate.userId? = some plan.userId
        | none => normalizeAssertedIdentifier toLowerCase context.accountIdentifier =
            some plan.externalSub := by
  rw [prepareWalletLink] at h
  cases hclaims : bindingClaimsOf config with
  | error error =>
    rw [hclaims] at h
    cases h
  | ok bindingClaims =>
    rw [hclaims] at h
    dsimp only [Except.mapError, bind, Except.bind] at h
    split at h
    case h_2 => cases h
    case h_1 userId hsession =>
      have huser := sessionBindingResolve_matched hsession
      split at h
      case isTrue => cases h
      case isFalse =>
        split at h
        case isTrue => cases h
        case isFalse =>
          split at h
          case h_1 => cases h
          case h_2 binding hbinding =>
            split at h
            case h_1 => cases h
            case h_2 data hdata =>
              cases hderived : issuerScopedSubjectOf sha256 credential config with
              | error error =>
                rw [hderived] at h
                cases h
              | ok derived =>
                rw [hderived] at h
                cases derived with
                | some subject =>
                  obtain ⟨rfl, hsub, hcandidates⟩ := linkIssuerScoped_eq_linkable (Except.ok.inj h)
                  exact ⟨huser, some subject, rfl, hsub, hcandidates⟩
                | none =>
                  have hlink := Except.ok.inj h
                  rw [linkAsserted] at hlink
                  split at hlink
                  case h_1 => cases hlink
                  case h_2 externalSub hsub =>
                    cases hlink
                    exact ⟨huser, none, rfl, hsub⟩

/-! ### What derived subjects are worth -/

/-- **A derived value tells its holder, an account is matched only where the subject and the
identifier both name it, and a wallet is linked to the session's account alone.** -/
theorem subjects_tell_holders_apart (platform : Url.Platform) (toLowerCase : JsString → JsString)
    (sha256 : Sha256) :
    (∀ (credential credential' : ValidatedCredential platform) (claimNames claimNames' : List JsString)
        (binding : JsString),
      CollisionFree sha256 (walletBindingParts credential claimNames)
        (walletBindingParts credential' claimNames') →
      deriveWalletBinding sha256 credential claimNames = some binding →
      deriveWalletBinding sha256 credential' claimNames' = some binding →
      validatedIssuerIdentifier credential = validatedIssuerIdentifier credential' ∧
        credential.credentialType = credential'.credentialType ∧ claimNames = claimNames' ∧
        ∀ name ∈ claimNames, (readBindingClaim credential.claims name).isSome = true ∧
          readBindingClaim credential.claims name = readBindingClaim credential'.claims name) ∧
    (∀ (credential credential' : ValidatedCredential platform) (claimName claimName' : JsString)
        (subject : JsString),
      CollisionFree sha256 (issuerScopedSubjectParts credential claimName)
        (issuerScopedSubjectParts credential' claimName') →
      deriveIssuerScopedSubject sha256 credential claimName = some subject →
      deriveIssuerScopedSubject sha256 credential' claimName' = some subject →
      validatedIssuerIdentifier credential = validatedIssuerIdentifier credential' ∧
        claimName = claimName' ∧
        readBindingClaim credential.claims claimName =
          readBindingClaim credential'.claims claimName') ∧
    (∀ (credential credential' : ValidatedCredential platform) (claimNames : List JsString)
        (claimName binding subject : JsString),
      deriveWalletBinding sha256 credential claimNames = some binding →
      deriveIssuerScopedSubject sha256 credential' claimName = some subject → binding ≠ subject) ∧
    (∀ (raw : Configured) (identifier : JsString),
      normalizeAssertedIdentifier toLowerCase raw = some identifier →
      ∀ credential : ValidatedCredential platform,
        (∀ claimNames, deriveWalletBinding sha256 credential claimNames ≠ some identifier) ∧
          ∀ claimName, deriveIssuerScopedSubject sha256 credential claimName ≠ some identifier) ∧
    (∀ (strategy : IssuerScopedClaimStrategy) (credential : ValidatedCredential platform)
        (context : SubjectResolutionContext) (subject : JsString) (userId : String),
      strategy.issuerScopedSubject sha256 credential = some subject →
      strategy.resolve toLowerCase sha256 credential context = .matched userId →
      (∃ candidates,
        context.lookup.byWalletSubject context.realmId subject = .candidates candidates ∧
          candidates ≠ [] ∧ ∀ candidate ∈ candidates, candidate.userId? = some userId) ∧
      ∃ identifier named,
        normalizeAssertedIdentifier toLowerCase context.assertedIdentifier = some identifier ∧
          context.lookup.byAssertedIdentifier context.realmId identifier = .candidates named ∧
            ∃ candidate ∈ named, candidate.userId? = some userId) ∧
    ∀ (now : ℕ) (credential : ValidatedCredential platform) (config : SubjectResolutionConfig)
        (context : WalletLinkContext) (plan : WalletLinkPlan),
      prepareWalletLink toLowerCase sha256 now credential config context = .ok (.linkable plan) →
      context.authenticatedUserId = some plan.userId ∧
        ∀ subject, issuerScopedSubjectOf sha256 credential config = .ok (some subject) →
          plan.externalSub = subject ∧ ∃ candidates,
            context.lookup.byWalletSubject context.realmId subject = .candidates candidates ∧
              ∀ candidate ∈ candidates, candidate.userId? = some plan.userId := by
  refine ⟨fun _ _ _ _ _ ↦ deriveWalletBinding_injective,
    fun _ _ _ _ _ ↦ deriveIssuerScopedSubject_injective,
    fun _ _ _ _ _ _ ↦ deriveWalletBinding_ne_subject, ?_, fun _ _ _ _ _ ↦ resolve_matched, ?_⟩
  · intro raw identifier hidentifier credential
    have hne := not_isDerived_of_normalizeAssertedIdentifier hidentifier
    refine ⟨fun claimNames h ↦ hne ⟨WALLET_BINDING_PREFIX, ?_, prefix_of_deriveWalletBinding h⟩,
      fun claimName h ↦ hne ⟨ISSUER_SCOPED_SUBJECT_PREFIX, ?_,
        prefix_of_deriveIssuerScopedSubject h⟩⟩
    · exact List.mem_cons_of_mem _ List.mem_cons_self
    · exact List.mem_cons_self
  · intro now credential config context plan h
    obtain ⟨huser, derived, hderived, hplan⟩ := prepareWalletLink_linkable h
    refine ⟨huser.1, fun subject hsubject ↦ ?_⟩
    obtain rfl : derived = some subject := Except.ok.inj (hderived.symm.trans hsubject)
    exact hplan

section Samples

/-- The identifier of an issuer that goes by a plain name. -/
def issuerOf (name : List Char) : JsString :=
  ("https".toList ++ "://".toList ++ name).flatMap Text.unitsOf

/-- Such an identifier is canonical. -/
theorem canonicalizeIssuerIdentifier_issuerOf {name : List Char} (hne : name ≠ [])
    (hplain : ∀ c ∈ name, Url.isPlain c = true) (hlabel : Url.hasEncodedLabel name = false)
    (hends : Url.endsInNumber name = false) (htrim : trim (issuerOf name) = issuerOf name)
    (hpos : (issuerOf name).length ≠ 0)
    (hlength : (issuerOf name).length ≤ MAX_ISSUER_IDENTIFIER_LENGTH) :
    canonicalizeIssuerIdentifier platform (.text (issuerOf name)) = some (issuerOf name) := by
  have hdefault : Url.defaultPort "https".toList = some 443 := by decide
  have hscheme : ∀ text,
      Url.readScheme ("https".toList ++ ':' :: text) = some ("https".toList, text) := fun _ ↦ rfl
  have hend : ∀ c ∈ ([] : List Char).head?, Url.isEnd c = true := nofun
  have hparse := Url.parse_named platform hscheme (by decide) hdefault hne hplain hlabel hends hend
  have htext : charsOf (issuerOf name) = "https".toList ++ "://".toList ++ name :=
    Text.charsOf_flatMap_unitsOf _
  rw [List.append_nil] at hparse
  -- the parts of the address, read off one by one
  obtain ⟨url, hurl⟩ : ∃ url, url = Url.Web.named "https".toList name
    (Url.readPlace (Url.cleanEnd [])) := ⟨_, rfl⟩
  have hprotocol : url.protocol = "https:".toList := hurl ▸ rfl
  have huser : url.username = [] ∧ url.password = [] := hurl ▸ ⟨rfl, rfl⟩
  have hquery : url.search = [] ∧ url.hash = [] := hurl ▸ ⟨rfl, rfl⟩
  have hhostname : url.hostname = name := hurl ▸ rfl
  have hhost : hostOf url = name := by
    have hport : url.port = none := hurl ▸ rfl
    rw [hostOf, hhostname, hport, List.append_nil]
  have hpath : url.pathname.rdropWhile (· = '/') = [] := hurl ▸ rfl
  rw [← hurl] at hparse
  rw [canonicalizeIssuerIdentifier]
  simp only [htrim]
  rw [if_neg (by omega), htext, hparse]
  dsimp only
  rw [if_neg (not_not.mpr hprotocol), if_neg (by simp [huser]), if_neg (by simp [hquery]),
    if_neg (hhostname ▸ hne), hhost, hpath, List.append_nil]
  rfl

theorem sampleIssuer_canonical :
    canonicalizeIssuerIdentifier .ascii (.text (issuerOf "employer.example".toList)) =
      some (issuerOf "employer.example".toList) := by
  refine canonicalizeIssuerIdentifier_issuerOf ?_ ?_ ?_ ?_ ?_ ?_ ?_ <;> decide

def sampleIssuer : ValidatedIssuer .ascii where
  identifier := issuerOf "employer.example".toList
  keyResolution := .x5c
  canonical := ⟨_, sampleIssuer_canonical⟩

/-- `createHash('sha256')`. -/
def sha256Of : Sha256 := fun bytes ↦ ⟨Sha256.hash bytes, Sha256.length_hash bytes⟩

def sampleCredential : ValidatedCredential .ascii where
  format := .dcSdJwt
  credentialType := some (units "badge")
  issuer := some sampleIssuer
  claims := some [(units "number", .integer 17)]
  expiresAt := none

def sampleStrategy : IssuerScopedClaimStrategy where
  subjectClaim := units "number"
  issuers := [sampleIssuer.identifier]
  fallback := ⟨[units "number"]⟩

/-- A store where one account has every key. -/
def sampleContext : SubjectResolutionContext where
  realmId := "main"
  assertedIdentifier := .text (units "ada@employer.example")
  authenticatedUserId := none
  lookup :=
    { byAssertedIdentifier _ _ := .candidates [.account (some "u-1") (some none)]
      byWalletSubject _ _ := .candidates [.account (some "u-1") (some none)] }

theorem sampleCredential_issuer :
    validatedIssuerIdentifier sampleCredential = some sampleIssuer.identifier := by
  have hissuer : sampleCredential.issuer = some sampleIssuer := rfl
  have hidentifier : sampleIssuer.identifier = issuerOf "employer.example".toList := rfl
  rw [validatedIssuerIdentifier, hissuer, Option.bind_some, hidentifier]
  exact sampleIssuer_canonical

theorem sampleCredential_claim :
    readBindingClaim sampleCredential.claims (units "number") = some (.number 17) := by
  decide

theorem issuerScopedSubjectParts_sample :
    issuerScopedSubjectParts sampleCredential (units "number") =
      some [.str (units "qauth.issuer-scoped-subject.v1"), .str sampleIssuer.identifier,
        .str (units "number"), .num 17] :=
  issuerScopedSubjectParts_eq_some_iff.mpr
    ⟨_, .number 17, sampleCredential_issuer, sampleCredential_claim, rfl⟩

theorem issuerScopedSubject_sample :
    sampleStrategy.issuerScopedSubject sha256Of sampleCredential =
      deriveIssuerScopedSubject sha256Of sampleCredential (units "number") := by
  have hmem : ¬sampleIssuer.identifier ∉ sampleStrategy.issuers :=
    not_not.mpr List.mem_cons_self
  rw [IssuerScopedClaimStrategy.issuerScopedSubject, deriveOptedInIssuerScopedSubject]
  exact if_neg hmem

theorem resolve_sample {subject : JsString}
    (hsubject : sampleStrategy.issuerScopedSubject sha256Of sampleCredential = some subject) :
    sampleStrategy.resolve id sha256Of sampleCredential sampleContext = .matched "u-1" := by
  have hidentifier : normalizeAssertedIdentifier id sampleContext.assertedIdentifier =
      some (units "ada@employer.example") := by decide
  rw [IssuerScopedClaimStrategy.resolve, hsubject]
  dsimp only
  rw [hidentifier]
  rfl

theorem subjects_tell_holders_apart_sample :
    ∃ subject, sampleStrategy.issuerScopedSubject sha256Of sampleCredential = some subject ∧
      ∃ candidates, sampleContext.lookup.byWalletSubject "main" subject = .candidates candidates ∧
        candidates ≠ [] ∧ ∀ candidate ∈ candidates, candidate.userId? = some "u-1" := by
  have hsubject := issuerScopedSubject_sample
  rw [deriveIssuerScopedSubject, issuerScopedSubjectParts_sample, Option.map_some] at hsubject
  exact ⟨_, hsubject, ((subjects_tell_holders_apart .ascii id sha256Of).2.2.2.2.1 sampleStrategy
    sampleCredential sampleContext _ "u-1" hsubject (resolve_sample hsubject)).1⟩

end Samples

end QAuth.Federation
