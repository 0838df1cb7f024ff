import QAuth.Federation.SubjectText
import QAuth.Foundation.Double
import QAuth.Foundation.Url

/-!
# Wallet bindings and issuer-scoped subjects

The values that a validated credential is compared by, and the identifiers that a user may assert
(`issuer-identity.ts`, `subject-binding.ts`).
-/

namespace QAuth.Federation

open Text (charsOf units unitsOf units_append units_injective)
open Audit (Bytes Sha256)

/-! ### Issuers -/

def MAX_ISSUER_IDENTIFIER_LENGTH : ℕ := 2048

/-- The `host` of an address: its name, and a port that is not the default one. -/
def hostOf (url : Url.Web) : List Char :=
  url.hostname ++ match url.port with
    | some port => ':' :: Nat.toDigits 10 port
    | none => []

def canonicalizeIssuerIdentifier (platform : Url.Platform) : Configured → Option JsString
  | .other _ => none
  | .text raw =>
    let trimmed := trim raw
    if trimmed.length = 0 ∨ MAX_ISSUER_IDENTIFIER_LENGTH < trimmed.length then none
    else
      match Url.parse platform (charsOf trimmed) with
      | some (.web url) =>
        if url.protocol ≠ "https:".toList then none
        else if url.username ≠ [] ∨ url.password ≠ [] then none
        else if url.search ≠ [] ∨ url.hash ≠ [] then none
        else if url.hostname = [] then none
        else
          some (("https://".toList ++ hostOf url ++ url.pathname.rdropWhile (· = '/')).flatMap
            unitsOf)
      | _ => none

inductive IssuerKeyResolutionMethod
  | x5c
  | issuerMetadata

/-- An issuer that the validation of a presentation established. -/
structure ValidatedIssuer (platform : Url.Platform) where
  identifier : JsString
  keyResolution : IssuerKeyResolutionMethod
  canonical : ∃ raw, canonicalizeIssuerIdentifier platform raw = some identifier

/-- The one constructor; `none` is the refusal. -/
def ValidatedIssuer.fromValidatedPresentation (platform : Url.Platform) (identifier : Configured)
    (keyResolution : Option IssuerKeyResolutionMethod) : Option (ValidatedIssuer platform) :=
  match h : canonicalizeIssuerIdentifier platform identifier, keyResolution with
  | some canonical, some keyResolution => some ⟨canonical, keyResolution, identifier, h⟩
  | _, _ => none

/-! ### Credentials -/

/-- A claim's value. -/
inductive Claim
  | text (value : JsString)
  | integer (value : ℤ)
  /-- a fraction, an infinity, or no number at all -/
  | otherNumber
  | boolean (value : Bool)
  /-- `null`, an object or an array -/
  | other

inductive CredentialFormat
  | dcSdJwt
  | msoMdoc

/-- What of a validated credential resolution reads. -/
structure ValidatedCredential (platform : Url.Platform) where
  format : CredentialFormat
  /-- `none` where it is no string -/
  credentialType : Option JsString
  /-- `none` where it does not carry the brand -/
  issuer : Option (ValidatedIssuer platform)
  /-- the own properties; `none` where there is no object -/
  claims : Option (List (JsString × Claim))
  /-- `exp`, where it is a finite number -/
  expiresAt : Option ℚ

def WALLET_BINDING_PREFIX : String := "wb1:"

def ISSUER_SCOPED_SUBJECT_PREFIX : String := "isc1:"

def RESERVED_DERIVED_VALUE_PREFIXES : List String :=
  [ISSUER_SCOPED_SUBJECT_PREFIX, WALLET_BINDING_PREFIX]

def MAX_ASSERTED_IDENTIFIER_LENGTH : ℕ := 320

def MAX_BINDING_CLAIMS : ℕ := 16

def MAX_BINDING_CLAIM_VALUE_LENGTH : ℕ := 512

def FORBIDDEN_BINDING_CLAIMS : List String := ["_sd", "_sd_alg", "cnf", "iss"]

/-- A claim's value that may take part in a derivation. -/
inductive BindingClaimValue
  | text (value : JsString)
  | number (value : ℤ)
  | boolean (value : Bool)
  deriving DecidableEq

def BindingClaimValue.part : BindingClaimValue → Part
  | .text value => .str value
  | .number value => .num value
  | .boolean value => .bool value

def readBindingClaim (claims : Option (List (JsString × Claim))) (name : JsString) :
    Option BindingClaimValue :=
  (claims.bind (List.lookup name)).bind fun
    | .text value =>
      if value.length = 0 ∨ MAX_BINDING_CLAIM_VALUE_LENGTH < value.length then none
      else some (.text value)
    | .integer value => if value.natAbs ≤ Double.maxSafe then some (.number value) else none
    | .boolean value => some (.boolean value)
    | .otherNumber | .other => none

/-- The configured claims with their values, if every one can be read. -/
def readBindingClaims (claims : Option (List (JsString × Claim))) (claimNames : List JsString) :
    Option (List (JsString × BindingClaimValue)) :=
  claimNames.mapM fun name ↦ (readBindingClaim claims name).map (name, ·)

/-! ### The derived values -/

/-- `JSON.stringify(parts)`, as the bytes that are hashed. -/
def hashed (parts : List Part) : Bytes := Audit.utf8 (Part.arr parts).text

def digest (sha256 : Sha256) (parts : List Part) : String := Audit.hex (sha256 (hashed parts)).val

section Derivations

variable {platform : Url.Platform} (sha256 : Sha256) (credential : ValidatedCredential platform)

def validatedIssuerIdentifier : Option JsString :=
  credential.issuer.bind fun issuer ↦
    canonicalizeIssuerIdentifier platform (.text issuer.identifier)

/-- The values that a wallet binding is the digest of. -/
def walletBindingParts (claimNames : List JsString) : Option (List Part) :=
  if claimNames = [] then none
  else do
    let issuer ← validatedIssuerIdentifier credential
    let credentialType ← credential.credentialType.filter (· ≠ [])
    let claims ← readBindingClaims credential.claims claimNames
    return [.str (units "qauth.wallet-binding.v1"), .str issuer, .str credentialType,
      .arr (claims.map fun claim ↦ .arr [.str claim.1, claim.2.part])]

def deriveWalletBinding (claimNames : List JsString) : Option JsString :=
  (walletBindingParts credential claimNames).map fun parts ↦
    units (WALLET_BINDING_PREFIX ++ digest sha256 parts)

def issuerScopedSubjectParts (claimName : JsString) : Option (List Part) := do
  let issuer ← validatedIssuerIdentifier credential
  let value ← readBindingClaim credential.claims claimName
  return [.str (units "qauth.issuer-scoped-subject.v1"), .str issuer, .str claimName, value.part]

def deriveIssuerScopedSubject (claimName : JsString) : Option JsString :=
  (issuerScopedSubjectParts credential claimName).map fun parts ↦
    units (ISSUER_SCOPED_SUBJECT_PREFIX ++ digest sha256 parts)

end Derivations

/-- `normalizeEmail`. -/
def normalizeEmail (toLowerCase : JsString → JsString) (email : JsString) : JsString :=
  trim (toLowerCase email)

def normalizeAssertedIdentifier (toLowerCase : JsString → JsString) :
    Configured → Option JsString
  | .other _ => none
  | .text raw =>
    if MAX_ASSERTED_IDENTIFIER_LENGTH < raw.length then none
    else
      let normalized := normalizeEmail toLowerCase raw
      if normalized.length = 0 then none
      else if RESERVED_DERIVED_VALUE_PREFIXES.any fun reserved ↦
          (units reserved).isPrefixOf normalized then none
      else some normalized

/-! ### What a derived value tells -/

/-- Two derivations are not hashed alike unless the same is hashed. -/
def CollisionFree (sha256 : Sha256) (parts parts' : Option (List Part)) : Prop :=
  ∀ p ∈ parts, ∀ p' ∈ parts', sha256 (hashed p) = sha256 (hashed p') → hashed p = hashed p'

theorem BindingClaimValue.part_injective {v w : BindingClaimValue} (h : v.part = w.part) : v = w := by
  cases v <;> cases w <;> cases h <;> rfl

theorem hashed_injective {parts parts' : List Part} (h : hashed parts = hashed parts') :
    parts = parts' :=
  Part.arr.inj (Part.text_injective (Audit.utf8_injective h))

variable {platform : Url.Platform} {sha256 : Sha256}
  {credential credential' : ValidatedCredential platform}
  {claimName claimName' value : JsString} {claimNames claimNames' : List JsString}

/-- A derived value tells the values that it is the digest of. -/
theorem digest_injective {before : String} {parts parts' : Option (List Part)}
    (hfree : CollisionFree sha256 parts parts')
    (h : parts.map (fun p ↦ units (before ++ digest sha256 p)) = some value)
    (h' : parts'.map (fun p ↦ units (before ++ digest sha256 p)) = some value) : parts = parts' := by
  obtain ⟨p, rfl, hp⟩ := Option.map_eq_some_iff.mp h
  obtain ⟨p', rfl, hp'⟩ := Option.map_eq_some_iff.mp h'
  have hunits : units (before ++ digest sha256 p) = units (before ++ digest sha256 p') :=
    hp.trans hp'.symm
  rw [units_append, units_append] at hunits
  have hhash := Audit.hex_injective (units_injective (List.append_cancel_left hunits))
  rw [hashed_injective (hfree p rfl p' rfl (Subtype.ext hhash))]

/-- The claims that are read are the configured ones, each with the value that it has. -/
theorem readBindingClaims_eq_some_iff {claims : Option (List (JsString × Claim))}
    {read : List (JsString × BindingClaimValue)} :
    readBindingClaims claims claimNames = some read ↔
      read.map Prod.fst = claimNames ∧
        ∀ claim ∈ read, readBindingClaim claims claim.1 = some claim.2 := by
  induction claimNames generalizing read with
  | nil =>
    rw [readBindingClaims, List.mapM_nil]
    constructor
    · rintro ⟨⟩
      exact ⟨rfl, nofun⟩
    · rintro ⟨hnames, -⟩
      rw [List.map_eq_nil_iff.mp hnames]
      rfl
  | cons name names ih =>
    rw [readBindingClaims, List.mapM_cons]
    constructor
    · intro h
      obtain ⟨first, hfirst, h⟩ := Option.bind_eq_some_iff.mp h
      obtain ⟨rest, hrest, h⟩ := Option.bind_eq_some_iff.mp h
      obtain ⟨v, hv, rfl⟩ := Option.map_eq_some_iff.mp hfirst
      cases h
      obtain ⟨hnames, hread⟩ := ih.mp hrest
      exact ⟨by rw [List.map_cons, hnames], List.forall_mem_cons.mpr ⟨hv, hread⟩⟩
    · rintro ⟨hnames, hread⟩
      obtain ⟨⟨_, v⟩, rest, rfl, rfl, hrest⟩ := List.map_eq_cons_iff.mp hnames
      obtain ⟨hfirst, hread⟩ := List.forall_mem_cons.mp hread
      have htail : names.mapM (fun name ↦ (readBindingClaim claims name).map (name, ·)) =
          some rest := ih.mpr ⟨hrest, hread⟩
      rw [htail, hfirst]
      rfl

theorem walletBindingParts_eq_some_iff {parts : List Part} :
    walletBindingParts credential claimNames = some parts ↔
      claimNames ≠ [] ∧ ∃ issuer credentialType read,
        validatedIssuerIdentifier credential = some issuer ∧
        (credential.credentialType = some credentialType ∧ credentialType ≠ []) ∧
        readBindingClaims credential.claims claimNames = some read ∧
        parts = [.str (units "qauth.wallet-binding.v1"), .str issuer, .str credentialType,
          .arr (read.map fun claim ↦ .arr [.str claim.1, claim.2.part])] := by
  rw [walletBindingParts, Option.ite_none_left_eq_some]
  refine and_congr Iff.rfl ?_
  constructor
  · intro h
    obtain ⟨issuer, hissuer, h⟩ := Option.bind_eq_some_iff.mp h
    obtain ⟨credentialType, htype, h⟩ := Option.bind_eq_some_iff.mp h
    obtain ⟨read, hread, h⟩ := Option.bind_eq_some_iff.mp h
    obtain ⟨htype, hne⟩ := Option.filter_eq_some_iff.mp htype
    exact ⟨issuer, credentialType, read, hissuer, ⟨htype, of_decide_eq_true hne⟩, hread,
      (Option.some.inj h).symm⟩
  · rintro ⟨issuer, credentialType, read, hissuer, ⟨htype, hne⟩, hread, rfl⟩
    have hfilter : credential.credentialType.filter (· ≠ []) = some credentialType :=
      Option.filter_eq_some_iff.mpr ⟨htype, decide_eq_true hne⟩
    rw [hissuer, hfilter, hread]
    rfl

theorem issuerScopedSubjectParts_eq_some_iff {parts : List Part} :
    issuerScopedSubjectParts credential claimName = some parts ↔
      ∃ issuer v, validatedIssuerIdentifier credential = some issuer ∧
        readBindingClaim credential.claims claimName = some v ∧
        parts = [.str (units "qauth.issuer-scoped-subject.v1"), .str issuer, .str claimName,
          v.part] := by
  constructor
  · intro h
    obtain ⟨issuer, hissuer, h⟩ := Option.bind_eq_some_iff.mp h
    obtain ⟨v, hv, h⟩ := Option.bind_eq_some_iff.mp h
    exact ⟨issuer, v, hissuer, hv, (Option.some.inj h).symm⟩
  · rintro ⟨issuer, v, hissuer, hv, rfl⟩
    rw [issuerScopedSubjectParts, hissuer, hv]
    rfl

/-- Two credentials that are bound alike have the issuer, the type and every configured claim in
common, and the same claims were configured. -/
theorem deriveWalletBinding_injective
    (hfree : CollisionFree sha256 (walletBindingParts credential claimNames)
      (walletBindingParts credential' claimNames'))
    (h : deriveWalletBinding sha256 credential claimNames = some value)
    (h' : deriveWalletBinding sha256 credential' claimNames' = some value) :
    validatedIssuerIdentifier credential = validatedIssuerIdentifier credential' ∧
      credential.credentialType = credential'.credentialType ∧ claimNames = claimNames' ∧
      ∀ name ∈ claimNames, (readBindingClaim credential.claims name).isSome = true ∧
        readBindingClaim credential.claims name = readBindingClaim credential'.claims name := by
  have hparts := digest_injective hfree h h'
  obtain ⟨parts, hsome, -⟩ := Option.map_eq_some_iff.mp h
  obtain ⟨-, issuer, credentialType, read, hissuer, ⟨htype, -⟩, hread, rfl⟩ :=
    walletBindingParts_eq_some_iff.mp hsome
  rw [hparts] at hsome
  obtain ⟨-, issuer', credentialType', read', hissuer', ⟨htype', -⟩, hread', heq⟩ :=
    walletBindingParts_eq_some_iff.mp hsome
  simp only [List.cons.injEq, Part.str.injEq, Part.arr.injEq, true_and, and_true] at heq
  obtain ⟨rfl, rfl, hclaims⟩ := heq
  have hinjective : Function.Injective
      fun claim : JsString × BindingClaimValue ↦ Part.arr [.str claim.1, claim.2.part] := by
    rintro ⟨name, v⟩ ⟨name', v'⟩ heq
    simp only [List.cons.injEq, Part.str.injEq, Part.arr.injEq, and_true] at heq
    rw [heq.1, BindingClaimValue.part_injective heq.2]
  obtain rfl := List.map_injective_iff.mpr hinjective hclaims
  obtain ⟨rfl, hvalues⟩ := readBindingClaims_eq_some_iff.mp hread
  obtain ⟨rfl, hvalues'⟩ := readBindingClaims_eq_some_iff.mp hread'
  refine ⟨hissuer.trans hissuer'.symm, htype.trans htype'.symm, rfl, fun name hname ↦ ?_⟩
  obtain ⟨claim, hclaim, rfl⟩ := List.mem_map.mp hname
  rw [hvalues claim hclaim, hvalues' claim hclaim]
  exact ⟨rfl, rfl⟩

theorem deriveIssuerScopedSubject_injective
    (hfree : CollisionFree sha256 (issuerScopedSubjectParts credential claimName)
      (issuerScopedSubjectParts credential' claimName'))
    (h : deriveIssuerScopedSubject sha256 credential claimName = some value)
    (h' : deriveIssuerScopedSubject sha256 credential' claimName' = some value) :
    validatedIssuerIdentifier credential = validatedIssuerIdentifier credential' ∧
      claimName = claimName' ∧
      readBindingClaim credential.claims claimName =
        readBindingClaim credential'.claims claimName' := by
  have hparts := digest_injective hfree h h'
  obtain ⟨parts, hsome, -⟩ := Option.map_eq_some_iff.mp h
  obtain ⟨issuer, v, hissuer, hv, rfl⟩ := issuerScopedSubjectParts_eq_some_iff.mp hsome
  rw [hparts] at hsome
  obtain ⟨issuer', v', hissuer', hv', heq⟩ := issuerScopedSubjectParts_eq_some_iff.mp hsome
  simp only [List.cons.injEq, Part.str.injEq, true_and, and_true] at heq
  obtain ⟨rfl, rfl, hpart⟩ := heq
  rw [← BindingClaimValue.part_injective hpart] at hv'
  exact ⟨hissuer.trans hissuer'.symm, rfl, hv.trans hv'.symm⟩

/-! ### Three kinds of values -/

/-- The value is one that the server derives. -/
def IsDerived (value : JsString) : Prop :=
  ∃ reserved ∈ RESERVED_DERIVED_VALUE_PREFIXES, units reserved <+: value

theorem prefix_of_deriveWalletBinding
    (h : deriveWalletBinding sha256 credential claimNames = some value) :
    units WALLET_BINDING_PREFIX <+: value := by
  obtain ⟨parts, -, rfl⟩ := Option.map_eq_some_iff.mp h
  rw [units_append]
  exact List.prefix_append _ _

theorem prefix_of_deriveIssuerScopedSubject
    (h : deriveIssuerScopedSubject sha256 credential claimName = some value) :
    units ISSUER_SCOPED_SUBJECT_PREFIX <+: value := by
  obtain ⟨parts, -, rfl⟩ := Option.map_eq_some_iff.mp h
  rw [units_append]
  exact List.prefix_append _ _

theorem deriveWalletBinding_ne_subject {value' : JsString}
    (h : deriveWalletBinding sha256 credential claimNames = some value)
    (h' : deriveIssuerScopedSubject sha256 credential' claimName = some value') :
    value ≠ value' := by
  rintro rfl
  obtain ⟨rest, hrest⟩ := prefix_of_deriveWalletBinding h
  obtain ⟨rest', hrest'⟩ := prefix_of_deriveIssuerScopedSubject h'
  have hwallet : units WALLET_BINDING_PREFIX = [119, 98, 49, 58] := by decide
  have hsubject : units ISSUER_SCOPED_SUBJECT_PREFIX = [105, 115, 99, 49, 58] := by decide
  rw [← hrest', hwallet, hsubject] at hrest
  exact absurd (List.cons.inj hrest).1 (by decide)

/-- An identifier that a user may assert has none of the server's forms. -/
theorem not_isDerived_of_normalizeAssertedIdentifier {toLowerCase : JsString → JsString}
    {raw : Configured} (h : normalizeAssertedIdentifier toLowerCase raw = some value) :
    ¬ IsDerived value := by
  rintro ⟨reserved, hmem, hstarts⟩
  cases raw with
  | other shown => cases h
  | text raw =>
    rw [normalizeAssertedIdentifier] at h
    obtain ⟨-, h⟩ := Option.ite_none_left_eq_some.mp h
    obtain ⟨-, h⟩ := Option.ite_none_left_eq_some.mp h
    obtain ⟨hreserved, h⟩ := Option.ite_none_left_eq_some.mp h
    cases h
    exact hreserved (List.any_eq_true.mpr ⟨reserved, hmem, List.isPrefixOf_iff_prefix.mpr hstarts⟩)

end QAuth.Federation
