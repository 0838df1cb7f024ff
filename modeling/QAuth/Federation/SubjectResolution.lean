import QAuth.Federation.SubjectBinding
import Mathlib.Data.List.Sort

/-!
# From a credential to an account

The configuration, the reading of what the account store answers, and the strategies
(`subject-resolution-config.ts`, `subject-candidates.ts`, `asserted-lookup.strategy.ts`,
`issuer-scoped-claim.strategy.ts`, `session-binding.strategy.ts`).
-/

namespace QAuth.Federation

open Text (units units_injective)
open Audit (Sha256)

/-! ### Configuration -/

def MAX_CLAIM_NAME_LENGTH : ℕ := 256

def MAX_ISSUER_SCOPED_ISSUERS : ℕ := 64

structure AssertedLookupConfig where
  /-- `none` where it is no array -/
  bindingClaims : Option (List Configured)

structure IssuerScopedClaimConfig where
  subjectClaim : Configured
  /-- `none` where it is no array -/
  issuers : Option (List Configured)
  fallback : Option AssertedLookupConfig

inductive SubjectResolutionConfig
  | assertedLookup (config : AssertedLookupConfig)
  | issuerScopedClaim (config : IssuerScopedClaimConfig)

/-- `/\s/.test(name)`. -/
def hasWhitespace (name : JsString) : Bool := name.any fun u ↦ Text.isSpace (Char.ofNat u.toNat)

def claimNameError (field : String) (saying : JsString) (value : JsString) :
    InvalidConfigurationError :=
  ⟨units field ++ saying, [("field", .text (units field)), ("value", .text value)]⟩

def normalizeClaimName (field : String) (name : Configured) :
    Except InvalidConfigurationError JsString :=
  match name with
  | .other _ => .error (claimNameError field (units
      " must be a non-empty claim name (#300). See this error's \"details\" for the value.")
      (summarizeConfiguredValue name))
  | .text text =>
    if text.length = 0 ∨ MAX_CLAIM_NAME_LENGTH < text.length then
      .error (claimNameError field (units
        " must be a non-empty claim name (#300). See this error's \"details\" for the value.")
        (summarizeConfiguredValue name))
    else if hasWhitespace text then
      .error (claimNameError field (units
        " must not contain whitespace (#300). See this error's \"details\" for the value.")
        (summarizeConfiguredValue name))
    else if (FORBIDDEN_BINDING_CLAIMS.map units).contains text then
      .error (claimNameError field (units " may not be '" ++ text ++ units ("'. ADR-009 §2 " ++
        "forbids keying an account on a self-asserted issuer, and OID4VP 1.0 §15.5–§15.6 forbid " ++
        "keying it on holder key material; presentation validation strips all of " ++
        ", ".intercalate FORBIDDEN_BINDING_CLAIMS ++ " from the claim set, so configuring one " ++
        "would silently never match (#300).")) text)
    else .ok text

/-- `[...claims].sort()`, by code units. -/
def sortNames (names : List JsString) : List JsString :=
  names.insertionSort fun a b ↦ a.map UInt16.toNat ≤ b.map UInt16.toNat

def normalizeBindingClaims (field : String) (claims : Option (List Configured)) :
    Except InvalidConfigurationError (List JsString) :=
  match claims with
  | none | some [] => .error ⟨units (field ++ " must list at least one credential claim. " ++
      "'asserted-lookup' verifies that the presented credential matches the binding stored for " ++
      "the asserted account (ADR-009 §1); with no binding claims there is nothing to match, and " ++
      "any valid credential would authenticate any account (#300)."),
      [("field", .text (units field))]⟩
  | some claims =>
    if MAX_BINDING_CLAIMS < claims.length then
      .error ⟨units (field ++ " may name at most " ++ toString MAX_BINDING_CLAIMS ++
        " claims (#300)."), [("field", .text (units field)), ("count", .count claims.length)]⟩
    else do
      let normalized ← claims.mapM (normalizeClaimName field)
      return sortNames normalized.eraseDups

/-- The issuers from a position on, in order up to the first that is unusable. -/
def canonicalIssuersFrom (platform : Url.Platform) (field : String) :
    ℕ → List Configured → Except InvalidConfigurationError (List JsString)
  | _, [] => .ok []
  | index, entry :: entries =>
    match canonicalizeIssuerIdentifier platform entry with
    | none => .error ⟨units ("An " ++ field ++ " entry is not a usable issuer identity (#300). " ++
        "Entries must be absolute https:// URLs with no userinfo, query string or fragment. See " ++
        "this error's \"details\" for the position and the value."),
        [("field", .text (units field)), ("index", .count index),
          ("entry", .text (summarizeConfiguredValue entry))]⟩
    | some identifier =>
      (canonicalIssuersFrom platform field (index + 1) entries).map (identifier :: ·)

def normalizeIssuerScopedIssuers (platform : Url.Platform) (field : String)
    (issuers : Option (List Configured)) : Except InvalidConfigurationError (List JsString) :=
  match issuers with
  | none | some [] => .error ⟨units (field ++ " must name at least one issuer. ADR-009 §2 permits " ++
      "'issuer-scoped-claim' only for a specific, named issuer that contractually guarantees a " ++
      "stable, disclosed claim — a guarantee QAuth cannot verify in code (#300)."),
      [("field", .text (units field))]⟩
  | some issuers =>
    if MAX_ISSUER_SCOPED_ISSUERS < issuers.length then
      .error ⟨units (field ++ " may name at most " ++ toString MAX_ISSUER_SCOPED_ISSUERS ++
        " issuers (#300)."), [("field", .text (units field)), ("count", .count issuers.length)]⟩
    else (canonicalIssuersFrom platform field 0 issuers).map List.eraseDups

/-! ### Accounts -/

/-- What a lookup returns for an account. -/
inductive SubjectAccountCandidate
  /-- the `users.id`, `none` where it is no string; and the binding, `none` where it is neither a
  string nor `null` -/
  | account (userId : Option String) (walletBinding : Option (Option JsString))
  /-- no object -/
  | other

/-- The account of a candidate that names one. -/
def SubjectAccountCandidate.userId? : SubjectAccountCandidate → Option String
  | .account userId _ => userId.filter (· ≠ "")
  | .other => none

/-- How a call to the account store ends. -/
inductive LookupAnswer
  | candidates (found : List SubjectAccountCandidate)
  /-- the promise holds no array -/
  | notArray
  | threw

structure SubjectAccountLookup where
  byAssertedIdentifier : String → JsString → LookupAnswer
  byWalletSubject : String → JsString → LookupAnswer

structure SubjectResolutionContext where
  realmId : String
  assertedIdentifier : Configured
  authenticatedUserId : Option String
  lookup : SubjectAccountLookup

inductive SubjectResolutionOutcome
  | matched (userId : String)
  | noMatch
  | ambiguous
  | rejected

def runAccountLookup : LookupAnswer → Option (List SubjectAccountCandidate)
  | .candidates found => some found
  | .notArray | .threw => none

inductive CandidateSelection
  | sole (userId : String) (bindings : List JsString)
  | none
  | ambiguous
  | invalid
  deriving DecidableEq

/-- The map with further bindings of an account. -/
def addBindings (userId : String) (added : List JsString) :
    List (String × List JsString) → List (String × List JsString)
  | [] => [(userId, added)]
  | (user, bindings) :: rest =>
    if user = userId then (user, bindings ++ added) :: rest
    else (user, bindings) :: addBindings userId added rest

/-- The candidates' bindings by account; `none` where a candidate is unusable. -/
def bindingsByUser : List (String × List JsString) → List SubjectAccountCandidate →
    Option (List (String × List JsString))
  | byUser, [] => some byUser
  | _, .other :: _ => none
  | byUser, .account userId walletBinding :: candidates =>
    match userId.filter (· ≠ ""), walletBinding with
    | some userId, some binding =>
      bindingsByUser (addBindings userId (binding.toList.filter (· ≠ [])) byUser) candidates
    | _, _ => none

def selectSoleAccount (candidates : List SubjectAccountCandidate) : CandidateSelection :=
  match bindingsByUser [] candidates with
  | Option.none => .invalid
  | some [] => .none
  | some [(userId, bindings)] => .sole userId bindings
  | some _ => .ambiguous

/-- Both texts have the same bytes. -/
def constantTimeEquals (left right : JsString) : Bool := Text.utf8Of left = Text.utf8Of right

/-! ### Strategies -/

section Strategies

variable {platform : Url.Platform} (toLowerCase : JsString → JsString) (sha256 : Sha256)

structure AssertedLookupStrategy where
  bindingClaims : List JsString

def createAssertedLookupStrategy (config : AssertedLookupConfig) :
    Except InvalidConfigurationError AssertedLookupStrategy :=
  (normalizeBindingClaims "bindingClaims" config.bindingClaims).map .mk

/-- A candidate that has a wallet binding. -/
def SubjectAccountCandidate.isBound : SubjectAccountCandidate → Bool
  | .account _ (some (some binding)) => binding ≠ []
  | _ => false

def AssertedLookupStrategy.deriveExternalSub (_strategy : AssertedLookupStrategy)
    (_credential : ValidatedCredential platform) (context : SubjectResolutionContext) :
    Option JsString :=
  normalizeAssertedIdentifier toLowerCase context.assertedIdentifier

def AssertedLookupStrategy.resolve (strategy : AssertedLookupStrategy)
    (credential : ValidatedCredential platform) (context : SubjectResolutionContext) :
    SubjectResolutionOutcome :=
  match normalizeAssertedIdentifier toLowerCase context.assertedIdentifier with
  | none => .rejected
  | some identifier =>
    match deriveWalletBinding sha256 credential strategy.bindingClaims with
    | none => .rejected
    | some presented =>
      match runAccountLookup (context.lookup.byAssertedIdentifier context.realmId identifier) with
      | none => .rejected
      | some candidates =>
        let everyAccount := selectSoleAccount candidates
        if everyAccount = .invalid then .rejected
        else if everyAccount = .none then .noMatch
        else
          let selection :=
            if everyAccount = .ambiguous then selectSoleAccount (candidates.filter (·.isBound))
            else everyAccount
          match selection with
          | .sole userId bindings =>
            if bindings.foldl (fun found stored ↦ constantTimeEquals stored presented || found)
                false then .matched userId
            else .rejected
          | _ => .ambiguous

def deriveOptedInIssuerScopedSubject (credential : ValidatedCredential platform)
    (subjectClaim : JsString) (issuers : List JsString) : Option JsString :=
  match credential.issuer with
  | none => none
  | some issuer =>
    if issuer.identifier ∉ issuers then none
    else deriveIssuerScopedSubject sha256 credential subjectClaim

structure IssuerScopedClaimStrategy where
  subjectClaim : JsString
  issuers : List JsString
  fallback : AssertedLookupStrategy

def createIssuerScopedClaimStrategy (platform : Url.Platform) (config : IssuerScopedClaimConfig) :
    Except InvalidConfigurationError IssuerScopedClaimStrategy := do
  let subjectClaim ← normalizeClaimName "subjectClaim" config.subjectClaim
  let issuers ← normalizeIssuerScopedIssuers platform "issuers" config.issuers
  let fallback ← createAssertedLookupStrategy (config.fallback.getD ⟨some []⟩)
  return ⟨subjectClaim, issuers, fallback⟩

/-- The accounts of an identifier, every one usable, include the one of a subject. -/
def identifierNamesAccount (named : List SubjectAccountCandidate) (userId : String) : Bool :=
  go named false
where
  go : List SubjectAccountCandidate → Bool → Bool
    | [], found => found
    | candidate :: rest, found =>
      match candidate.userId? with
      | none => false
      | some id => go rest (constantTimeEquals (units id) (units userId) || found)

namespace IssuerScopedClaimStrategy

variable (strategy : IssuerScopedClaimStrategy)

def issuerScopedSubject (credential : ValidatedCredential platform) : Option JsString :=
  deriveOptedInIssuerScopedSubject sha256 credential strategy.subjectClaim strategy.issuers

def deriveExternalSub (credential : ValidatedCredential platform)
    (context : SubjectResolutionContext) : Option JsString :=
  (strategy.issuerScopedSubject sha256 credential).or
    (strategy.fallback.deriveExternalSub toLowerCase credential context)

def resolve (credential : ValidatedCredential platform) (context : SubjectResolutionContext) :
    SubjectResolutionOutcome :=
  match strategy.issuerScopedSubject sha256 credential with
  | none => strategy.fallback.resolve toLowerCase sha256 credential context
  | some subject =>
    match normalizeAssertedIdentifier toLowerCase context.assertedIdentifier with
    | none => .rejected
    | some identifier =>
      match runAccountLookup (context.lookup.byWalletSubject context.realmId subject),
        runAccountLookup (context.lookup.byAssertedIdentifier context.realmId identifier) with
      | some candidates, some named =>
        match selectSoleAccount candidates with
        | .invalid => .rejected
        | .ambiguous => .ambiguous
        | .none => .noMatch
        | .sole userId _ =>
          if identifierNamesAccount named userId then .matched userId else .rejected
      | _, _ => .rejected

end IssuerScopedClaimStrategy

/-- The `resolve` of the `session-binding` strategy. -/
def sessionBindingResolve (_credential : ValidatedCredential platform)
    (context : SubjectResolutionContext) : SubjectResolutionOutcome :=
  match context.authenticatedUserId.filter (· ≠ "") with
  | none => .rejected
  | some userId => .matched userId

end Strategies

/-! ### Sole accounts -/

variable {userId : String} {bindings : List JsString} {byUser : List (String × List JsString)}
  {candidates named : List SubjectAccountCandidate}

theorem mem_keys_addBindings {user : String} {added : List JsString} :
    user ∈ (addBindings userId added byUser).map Prod.fst ↔
      user = userId ∨ user ∈ byUser.map Prod.fst := by
  induction byUser with
  | nil => simp [addBindings]
  | cons entry rest ih =>
    obtain ⟨first, bindings⟩ := entry
    rw [addBindings]
    split
    case isTrue heq =>
      subst heq
      simp
    case isFalse hne =>
      rw [List.map_cons, List.mem_cons, ih, List.map_cons, List.mem_cons]
      tauto

/-- The map's accounts are those that it had and those of the candidates, each of which is
usable. -/
theorem bindingsByUser_keys {result : List (String × List JsString)}
    (h : bindingsByUser byUser candidates = some result) :
    (∀ user ∈ byUser.map Prod.fst, user ∈ result.map Prod.fst) ∧
      ∀ candidate ∈ candidates, ∃ user ∈ result.map Prod.fst, candidate.userId? = some user := by
  induction candidates generalizing byUser with
  | nil =>
    cases h
    exact ⟨fun _ ↦ id, nofun⟩
  | cons candidate candidates ih =>
    cases candidate with
    | other => cases h
    | account id walletBinding =>
      rw [bindingsByUser.eq_def] at h
      dsimp only at h
      split at h
      case h_1 user binding huser =>
        obtain ⟨hkeys, hcandidates⟩ := ih h
        refine ⟨fun u hu ↦ hkeys u (mem_keys_addBindings.mpr (.inr hu)), ?_⟩
        refine List.forall_mem_cons.mpr ⟨?_, hcandidates⟩
        exact ⟨user, hkeys user (mem_keys_addBindings.mpr (.inl rfl)), huser⟩
      case h_2 => cases h

theorem selectSoleAccount_eq_sole (h : selectSoleAccount candidates = .sole userId bindings) :
    candidates ≠ [] ∧ ∀ candidate ∈ candidates, candidate.userId? = some userId := by
  rw [selectSoleAccount] at h
  split at h
  case h_3 user found hfound =>
    cases h
    constructor
    · rintro rfl
      cases hfound
    · intro candidate hcandidate
      obtain ⟨user, huser, hid⟩ := (bindingsByUser_keys hfound).2 candidate hcandidate
      rw [hid, List.mem_singleton.mp huser]
  all_goals cases h

theorem constantTimeEquals_units {s t : String} :
    constantTimeEquals (units s) (units t) = true ↔ s = t := by
  rw [constantTimeEquals, decide_eq_true_iff]
  constructor
  · intro h
    exact units_injective (Text.eq_of_utf8Of_eq (Text.isWellFormed_flatMap_unitsOf _)
      (Text.isWellFormed_flatMap_unitsOf _) h)
  · rintro rfl
    rfl

theorem identifierNamesAccount.go_eq_true {found : Bool} (h : go userId named found = true) :
    found = true ∨ ∃ candidate ∈ named, candidate.userId? = some userId := by
  induction named generalizing found with
  | nil => exact .inl h
  | cons candidate rest ih =>
    rw [go] at h
    split at h
    case h_1 => cases h
    case h_2 id hid =>
      rcases ih h with hfound | ⟨named, hnamed, heq⟩
      · rcases Bool.or_eq_true_iff.mp hfound with hequal | hfound
        · obtain rfl := constantTimeEquals_units.mp hequal
          exact .inr ⟨candidate, List.mem_cons_self, hid⟩
        · exact .inl hfound
      · exact .inr ⟨named, List.mem_cons_of_mem _ hnamed, heq⟩

theorem resolve_matched {platform : Url.Platform} {toLowerCase : JsString → JsString}
    {sha256 : Sha256} {strategy : IssuerScopedClaimStrategy}
    {credential : ValidatedCredential platform} {context : SubjectResolutionContext}
    {subject : JsString} (hsubject : strategy.issuerScopedSubject sha256 credential = some subject)
    (h : strategy.resolve toLowerCase sha256 credential context = .matched userId) :
    (∃ candidates, context.lookup.byWalletSubject context.realmId subject = .candidates candidates ∧
      candidates ≠ [] ∧ ∀ candidate ∈ candidates, candidate.userId? = some userId) ∧
    ∃ identifier named,
      normalizeAssertedIdentifier toLowerCase context.assertedIdentifier = some identifier ∧
      context.lookup.byAssertedIdentifier context.realmId identifier = .candidates named ∧
      ∃ candidate ∈ named, candidate.userId? = some userId := by
  have hanswer : ∀ {answer : LookupAnswer} {found : List SubjectAccountCandidate},
      runAccountLookup answer = some found → answer = .candidates found := by
    rintro (found | _ | _) found' ⟨⟩
    rfl
  rw [IssuerScopedClaimStrategy.resolve, hsubject] at h
  split at h
  case h_1 heq => cases heq
  case h_2 subject' heq =>
    cases heq
    split at h
    case h_1 => cases h
    case h_2 identifier hidentifier =>
      split at h
      case h_2 => cases h
      case h_1 candidates named hcandidates hnamed =>
        split at h
        case h_4 user bindings hsole =>
          split at h
          case isFalse => cases h
          case isTrue hnames =>
            cases h
            refine ⟨⟨candidates, hanswer hcandidates, selectSoleAccount_eq_sole hsole⟩,
              identifier, named, hidentifier, hanswer hnamed, ?_⟩
            rcases identifierNamesAccount.go_eq_true hnames with hfalse | hmember
            · cases hfalse
            · exact hmember
        all_goals cases h

end QAuth.Federation
