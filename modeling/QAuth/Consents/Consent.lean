import Mathlib.Data.List.Lex
import QAuth.Events.Store
import QAuth.Foundation.Json
import QAuth.Foundation.Table
import QAuth.Foundation.Text

/-!
# Consents

A row of `oauth_consents` holds the scopes that a user has granted to a client, and for each
resource the scopes that were granted for it. A later grant is united with the row, scopes with
scopes and each resource with itself; the consent screen is skipped for what the row covers.
-/

namespace QAuth.Consents

open Events (Uuid)

/-! ### Rows -/

/-- The realm, the user and the client of a consent. -/
structure ConsentOwner where
  realmId : Uuid
  userId : Uuid
  oauthClientId : Uuid
  deriving DecidableEq

/-- What the index on active consents tells apart. -/
def ConsentOwner.pair (owner : ConsentOwner) : Uuid × Uuid := (owner.userId, owner.oauthClientId)

structure OAuthConsent where
  id : Uuid
  owner : ConsentOwner
  scopes : List String
  resourceScopes : List (String × List String)
  grantedAt : ℕ
  revokedAt : Option ℕ

namespace OAuthConsent

def isActive (row : OAuthConsent) : Bool := row.revokedAt.isNone

/-- `activeConsentOf`. -/
def isActiveOf (row : OAuthConsent) (owner : ConsentOwner) : Bool :=
  row.owner = owner && row.isActive

end OAuthConsent

/-- The scopes that a user approves at once, and the resources they approve them for. -/
structure Grant where
  scopes : List String
  resources : List String

/-! ### Grants -/

/-- `texts.sort()`. -/
def sortTexts (texts : List String) : List String :=
  Table.orderBy (fun text ↦ (Text.units text).map UInt16.toNat) texts

/-- `Array.from(new Set([...prior, ...scopes])).sort()`. -/
def unionOf (prior scopes : List String) : List String := sortTexts (prior ++ scopes).eraseDups

@[simp] theorem mem_sortTexts {texts : List String} {text : String} :
    text ∈ sortTexts texts ↔ text ∈ texts :=
  Table.mem_orderBy

@[simp] theorem mem_unionOf {prior scopes : List String} {scope : String} :
    scope ∈ unionOf prior scopes ↔ scope ∈ prior ∨ scope ∈ scopes := by
  simp [unionOf, List.mem_eraseDups]

/-- One resource's scopes, with those of a grant that names it. -/
def mergeResource (scopes : List String) (merged : List (String × List String))
    (resource : String) : List (String × List String) :=
  Table.upsert merged resource (unionOf ((merged.lookup resource).getD []) scopes)

namespace OAuthConsent

/-- The row once a grant is united with it. -/
def merge (existing : OAuthConsent) (grant : Grant) (now : ℕ) : OAuthConsent :=
  { existing with
    scopes := unionOf existing.scopes grant.scopes
    resourceScopes := grant.resources.foldl (mergeResource grant.scopes) existing.resourceScopes
    grantedAt := now }

/-- The row of a first grant. -/
def created (id : Uuid) (owner : ConsentOwner) (grant : Grant) (now : ℕ) : OAuthConsent :=
  ⟨id, owner, sortTexts grant.scopes,
    grant.resources.foldl (fun m resource ↦ Table.upsert m resource (sortTexts grant.scopes)) [],
    now, none⟩

/-- The row once it is revoked. -/
def revoked (row : OAuthConsent) (now : ℕ) : OAuthConsent := { row with revokedAt := some now }

end OAuthConsent

/-! ### The decision to skip -/

/-- `FIRST_PARTY_FLOWS`. -/
inductive FirstPartyFlow
  | login | register | reset
  deriving DecidableEq

def FirstPartyFlow.parse? : String → Option FirstPartyFlow
  | "login" => some .login
  | "register" => some .register
  | "reset" => some .reset
  | _ => none

structure FirstPartyPolicy where
  flows : List FirstPartyFlow
  emailCodeAfterPassword : Bool
  pkceRequired : Bool

section Policy

variable {ν : Type}

/-- A member that is a boolean, with what stands for it where it is left out. -/
def booleanMember (members : List (String × Json.Value ν)) (name : String) (fallback : Bool) :
    Option Bool :=
  match members.lookup name with
  | none => some fallback
  | some (.bool b) => some b
  | some _ => none

def flowOf : Json.Value ν → Option FirstPartyFlow
  | .str s => FirstPartyFlow.parse? s
  | _ => none

def flowsMember (members : List (String × Json.Value ν)) : Option (List FirstPartyFlow) :=
  match members.lookup "flows" with
  | none => some [.login]
  | some (.arr items) =>
    (items.mapM flowOf).filter fun flows ↦ flows ≠ [] ∧ flows.Nodup
  | some _ => none

/-- `firstPartyPolicySchema.safeParse`. -/
def parseFirstPartyPolicy : Json.Value ν → Option FirstPartyPolicy
  | .obj members =>
    if members.all fun m ↦ ["flows", "email_code_after_password", "pkce_required"].contains m.1 then
      (flowsMember members).bind fun flows ↦
        (booleanMember members "email_code_after_password" false).bind fun emailCode ↦
          (booleanMember members "pkce_required" true).map fun pkceRequired ↦
            ⟨flows, emailCode, pkceRequired⟩
    else none
  | _ => none

/-- The fields of a client that the consent screen reads; `none` is `null`. -/
structure OAuthClientLike (ν : Type) where
  firstPartyProfile : Option String
  firstPartyPolicy : Option (Json.Value ν)
  tokenEndpointAuthMethod : String
  grantTypes : List String
  developerId : Option Uuid
  isAgent : Bool
  dynamicRegisteredAt : Option ℕ
  metadata : Option (List (String × Json.Value ν))

inductive ResolvedFirstPartyProfile
  | webRedirect
  | nativeBackend (policy : FirstPartyPolicy)

def registersItself (client : OAuthClientLike ν) : Bool :=
  match (client.metadata.getD []).lookup "registrationType" with
  | some (.str s) => s = "dynamic" ∨ s = "cimd"
  | _ => false

def resolveFirstPartyProfile (client : OAuthClientLike ν) : Option ResolvedFirstPartyProfile :=
  if client.tokenEndpointAuthMethod ≠ "private_key_jwt" ∨ client.developerId ≠ none ∨
      client.isAgent ∨ client.dynamicRegisteredAt ≠ none ∨ registersItself client then none
  else
    match client.firstPartyProfile with
    | some "web_redirect" => if client.firstPartyPolicy.isNone then some .webRedirect else none
    | some "native_backend" =>
      if client.grantTypes.contains "authorization_code" then
        (client.firstPartyPolicy.bind parseFirstPartyPolicy).map .nativeBackend
      else none
    | _ => none

def isDangerousScope (scope : String) : Bool :=
  ["agent:admin", "agent:exec"].contains scope || "write:".toList.isPrefixOf scope.toList

/-- Whether the operator's profile of the client stands for the user's consent
(`administrativeConsentFor`). -/
def administrativeConsentFor (client : OAuthClientLike ν) (requestedScopes : List String) :
    Option (ResolvedFirstPartyProfile × List String) :=
  match resolveFirstPartyProfile client with
  | none => none
  | some profile =>
    if requestedScopes.any isDangerousScope then none else some (profile, requestedScopes)

/-- The client was registered within the last `DYNAMIC_CLIENT_BADGE_DAYS` days. -/
def isDynamicClientWithinBadgeWindow (badgeDays : ℤ) (now : ℕ) (client : OAuthClientLike ν) : Bool :=
  match client.dynamicRegisteredAt with
  | none | some 0 => false
  | some registeredAt =>
    0 < badgeDays && (now : ℤ) - registeredAt < badgeDays * 24 * 60 * 60 * 1000

def isScopeSubset (requested granted : List String) : Bool := requested.all granted.contains

def consentCovers (consent : OAuthConsent) (scopes resources : List String) : Bool :=
  isScopeSubset scopes consent.scopes && resources.all fun resource ↦
    match consent.resourceScopes.lookup resource with
    | some granted => isScopeSubset scopes granted
    | none => false

/-- Whether the consent screen is skipped. -/
def canSkipConsent (badgeDays : ℤ) (now : ℕ) (consent : Option OAuthConsent)
    (client : OAuthClientLike ν) (scopes resources : List String) : Bool :=
  if client.isAgent then false
  else if (resolveFirstPartyProfile client).isSome && scopes.any isDangerousScope then false
  else if (administrativeConsentFor client scopes).isSome then true
  else
    match consent with
    | none => false
    | some consent =>
      if !consent.isActive then false
      else if isDynamicClientWithinBadgeWindow badgeDays now client then false
      else consentCovers consent scopes resources

end Policy

/-! ### The union of grants -/

/-- The row holds the union of the grants, and for each resource that of the grants naming it. -/
structure Holds (row : OAuthConsent) (grants : List Grant) : Prop where
  scopes : ∀ scope, scope ∈ row.scopes ↔ ∃ grant ∈ grants, scope ∈ grant.scopes
  resources : ∀ resource, (row.resourceScopes.lookup resource).isSome ↔
    ∃ grant ∈ grants, resource ∈ grant.resources
  resourceScopes : ∀ resource scopes, row.resourceScopes.lookup resource = some scopes →
    ∀ scope, scope ∈ scopes ↔ ∃ grant ∈ grants, resource ∈ grant.resources ∧ scope ∈ grant.scopes

def Approved (grants : List Grant) (scopes resources : List String) : Prop :=
  (∀ scope ∈ scopes, ∃ grant ∈ grants, scope ∈ grant.scopes) ∧
    ∀ resource ∈ resources, (∃ grant ∈ grants, resource ∈ grant.resources) ∧
      ∀ scope ∈ scopes, ∃ grant ∈ grants, resource ∈ grant.resources ∧ scope ∈ grant.scopes

section Union

variable {row : OAuthConsent} {grants : List Grant} {grant : Grant} {now : ℕ} {id : Uuid}
  {owner : ConsentOwner} {scopes resources : List String} {m : List (String × List String)}
  {resource : String}

/-- What a grant makes of the scopes of each resource. -/
theorem lookup_mergeResource_foldl (scopes : List String) (resource : String)
    (resources : List String) (m : List (String × List String)) :
    ((resources.foldl (mergeResource scopes) m).lookup resource).isSome =
        ((m.lookup resource).isSome || resources.contains resource) ∧
      ∀ merged, (resources.foldl (mergeResource scopes) m).lookup resource = some merged →
        ∀ scope, scope ∈ merged ↔ scope ∈ (m.lookup resource).getD [] ∨
          resource ∈ resources ∧ scope ∈ scopes := by
  induction resources generalizing m with
  | nil =>
    refine ⟨by simp, fun merged hmerged scope ↦ ?_⟩
    rw [List.foldl_nil] at hmerged
    simp [hmerged]
  | cons r resources ih =>
    obtain ⟨hsome, hmem⟩ := ih (mergeResource scopes m r)
    rw [List.foldl_cons]
    by_cases hr : resource = r
    · subst hr
      have hlookup : (mergeResource scopes m resource).lookup resource =
          some (unionOf ((m.lookup resource).getD []) scopes) := Table.lookup_upsert_self
      rw [hlookup] at hsome hmem
      refine ⟨by simp [hsome], fun merged hmerged scope ↦ ?_⟩
      rw [hmem merged hmerged scope, Option.getD_some, mem_unionOf]
      simp only [List.mem_cons, true_or, true_and]
      tauto
    · have hlookup : (mergeResource scopes m r).lookup resource = m.lookup resource :=
        Table.lookup_upsert_ne hr
      rw [hlookup] at hsome hmem
      refine ⟨by simp [hsome, hr], fun merged hmerged scope ↦ ?_⟩
      rw [hmem merged hmerged scope]
      simp [hr]

/-- The row of a first grant holds it. -/
theorem holds_created : Holds (.created id owner grant now) [grant] := by
  have hentry : ∀ (resources : List String) (m : List (String × List String)),
      (∀ r scopes, m.lookup r = some scopes → scopes = sortTexts grant.scopes) →
      ∀ r, ((resources.foldl (fun m r ↦ Table.upsert m r (sortTexts grant.scopes)) m).lookup
          r).isSome = ((m.lookup r).isSome || resources.contains r) ∧
        ∀ scopes, (resources.foldl (fun m r ↦ Table.upsert m r (sortTexts grant.scopes)) m).lookup
          r = some scopes → scopes = sortTexts grant.scopes := by
    intro resources
    induction resources with
    | nil => exact fun m hm r ↦ ⟨by simp, hm r⟩
    | cons r' resources ih =>
      intro m hm r
      rw [List.foldl_cons]
      have hstep : ∀ r, (Table.upsert m r' (sortTexts grant.scopes)).lookup r =
          if r = r' then some (sortTexts grant.scopes) else m.lookup r := by
        intro r
        split
        case isTrue h => rw [h, Table.lookup_upsert_self]
        case isFalse h => exact Table.lookup_upsert_ne h
      obtain ⟨hsome, hscopes⟩ := ih (Table.upsert m r' (sortTexts grant.scopes)) (by
        intro r scopes hlookup
        rw [hstep] at hlookup
        split at hlookup
        · exact (Option.some.inj hlookup).symm
        · exact hm r scopes hlookup) r
      refine ⟨?_, hscopes⟩
      rw [hsome, hstep]
      by_cases hr : r = r' <;> simp [hr]
  have hfold := hentry grant.resources [] nofun
  refine ⟨fun scope ↦ by simp [OAuthConsent.created], fun resource ↦ ?_,
    fun resource scopes hlookup scope ↦ ?_⟩
  · rw [OAuthConsent.created, (hfold resource).1]
    simp
  · have hsome : resource ∈ grant.resources := by
      have hsome := (hfold resource).1
      rw [show (List.foldl _ [] grant.resources).lookup resource = some scopes from hlookup] at hsome
      simpa using hsome.symm
    rw [(hfold resource).2 scopes hlookup]
    simp [hsome]

/-- A grant that is united with the row joins the union. -/
theorem holds_merge (h : Holds row grants) : Holds (row.merge grant now) (grant :: grants) := by
  refine ⟨fun scope ↦ ?_, fun resource ↦ ?_, fun resource scopes hlookup scope ↦ ?_⟩
  · rw [OAuthConsent.merge]
    simp only [mem_unionOf, h.scopes, List.exists_mem_cons_iff]
    exact or_comm
  · obtain ⟨hsome, -⟩ := lookup_mergeResource_foldl grant.scopes resource grant.resources
      row.resourceScopes
    rw [OAuthConsent.merge, hsome]
    simp only [Bool.or_eq_true, List.contains_iff_mem, h.resources, List.exists_mem_cons_iff]
    exact or_comm
  · obtain ⟨-, hmem⟩ := lookup_mergeResource_foldl grant.scopes resource grant.resources
      row.resourceScopes
    rw [hmem scopes hlookup scope, List.exists_mem_cons_iff, or_comm]
    refine or_congr_right ?_
    cases hprior : row.resourceScopes.lookup resource with
    | some prior => exact h.resourceScopes resource prior hprior scope
    | none =>
      have hnone : ¬∃ grant ∈ grants, resource ∈ grant.resources := by
        rw [← h.resources, hprior]
        simp
      constructor
      · exact fun hmem ↦ absurd hmem List.not_mem_nil
      · rintro ⟨g, hg, hr, -⟩
        exact absurd ⟨g, hg, hr⟩ hnone

theorem isScopeSubset_iff {requested granted : List String} :
    isScopeSubset requested granted = true ↔ ∀ scope ∈ requested, scope ∈ granted := by
  simp [isScopeSubset]

/-- Where no administrative consent applies, the screen is skipped only for what an active row
covers. -/
theorem covers_of_canSkipConsent {ν : Type} {badgeDays : ℤ} {consent : Option OAuthConsent}
    {client : OAuthClientLike ν} (hadmin : administrativeConsentFor client scopes = none)
    (hskip : canSkipConsent badgeDays now consent client scopes resources = true) :
    ∃ row, consent = some row ∧ row.isActive = true ∧ consentCovers row scopes resources = true := by
  simp only [canSkipConsent, hadmin, Option.isSome_none, Bool.false_eq_true, if_false] at hskip
  cases consent with
  | none =>
    split_ifs at hskip
  | some row =>
    dsimp only at hskip
    split_ifs at hskip with hagent hdangerous hinactive
    exact ⟨row, rfl, by simpa using hinactive, hskip⟩

theorem approved_of_consentCovers (h : Holds row grants)
    (hcovers : consentCovers row scopes resources = true) : Approved grants scopes resources := by
  rw [consentCovers, Bool.and_eq_true, isScopeSubset_iff, List.all_eq_true] at hcovers
  obtain ⟨hscopes, hresources⟩ := hcovers
  refine ⟨fun scope hscope ↦ (h.scopes scope).mp (hscopes scope hscope),
    fun resource hresource ↦ ?_⟩
  have hcovered := hresources resource hresource
  cases hlookup : row.resourceScopes.lookup resource with
  | none =>
    rw [hlookup] at hcovered
    cases hcovered
  | some granted =>
    rw [hlookup] at hcovered
    refine ⟨(h.resources resource).mp (by rw [hlookup]; rfl), fun scope hscope ↦ ?_⟩
    exact (h.resourceScopes resource granted hlookup scope).mp
      (isScopeSubset_iff.mp hcovered scope hscope)

end Union

end QAuth.Consents
