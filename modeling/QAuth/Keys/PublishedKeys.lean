import Mathlib.Algebra.Order.Ring.Rat
import Mathlib.Data.List.Sort
import QAuth.Foundation.Json

/-!
# A realm's keys and its published keys

The key purposes of `key-purposes.ts`, a row of `realm_keys` with its row of `realm_public_keys`, and
what `published-keys.ts` makes of the published rows. The foreign key between the two tables carries
a key's status over, so the two rows are one here. Of the key material only the public half is kept.
-/

namespace QAuth.Keys

/-! ### Keys -/

inductive KeyPurpose
  | token_signing | event_signing | federation_entity | trust_anchor | oid4vp_request_signing
  | oid4vp_response_encryption | data_at_rest | cookie_hmac | webhook_signing
  | upstream_client_assertion | agent_upstream_identity | agent_wrap
deriving DecidableEq

inductive KeyAlgorithm
  | EdDSA | RS256 | ES256 | ML_DSA_65 | ECDH_ES | HS256 | A256GCM
deriving DecidableEq

inductive StoredKeyStatus
  | next | active | retired | compromised
deriving DecidableEq

/-- The members of a JWK. -/
abbrev Jwk : Type := List (String × Json.Value ℚ)

/-- The private members of every JWK key type. -/
def PRIVATE_JWK_MEMBERS : List String := ["d", "p", "q", "dp", "dq", "qi", "oth", "k", "priv"]

/-- A JWK without a private member, which the `realm_public_keys` CHECK asks for. -/
structure PublicJwk where
  members : Jwk
  isPublic : ∀ m ∈ members, m.1 ∉ PRIVATE_JWK_MEMBERS

/-- What is published of a key. -/
structure Publication where
  publicJwk : PublicJwk
  /-- in epoch ms; the key appears in the JWKS from this moment -/
  publishAt : ℕ

/-- A stored key: its row of `realm_keys`, and that of `realm_public_keys` where it is published. -/
structure KeyRow where
  kid : String
  purpose : KeyPurpose
  /-- the owner inside the realm, for the purposes that have one -/
  scopeId : Option String
  algorithm : KeyAlgorithm
  status : StoredKeyStatus
  /-- shared by both keys of a hybrid pair -/
  pairId : Option String
  createdAt : ℕ
  /-- when the key stopped signing -/
  retireAt : Option ℕ
  /-- when the key leaves the JWKS -/
  unpublishAt : Option ℕ
  publication : Option Publication

/-! ### Published keys -/

/-- A `realm_public_keys` row. -/
structure PublicKeyRecord where
  kid : String
  purpose : KeyPurpose
  algorithm : KeyAlgorithm
  status : StoredKeyStatus
  publicJwk : PublicJwk
  publishAt : ℕ
  unpublishAt : Option ℕ

def KeyRow.publicRecord (row : KeyRow) : Option PublicKeyRecord :=
  row.publication.map fun p ↦
    ⟨row.kid, row.purpose, row.algorithm, row.status, p.publicJwk, p.publishAt, row.unpublishAt⟩

/-- Whether a published key is inside its publication window. -/
def isPublishedAt (record : PublicKeyRecord) (at' : ℕ) : Bool :=
  if at' < record.publishAt then false
  else match record.unpublishAt with
    | none => record.status ≠ .retired
    | some unpublishAt => at' < unpublishAt

def REALM_JWKS_PURPOSES : List KeyPurpose := [.token_signing]

/-- Purpose, then publication, then `kid`. -/
def publishedBefore (a b : PublicKeyRecord) : Bool :=
  let rank (purpose : KeyPurpose) := REALM_JWKS_PURPOSES.idxOf purpose
  rank a.purpose < rank b.purpose || (rank a.purpose = rank b.purpose &&
    (a.publishAt < b.publishAt || (a.publishAt = b.publishAt && a.kid ≤ b.kid)))

/-- A fixed order, so every node serves the same JWKS. -/
def sortForPublication (records : List PublicKeyRecord) : List PublicKeyRecord :=
  records.mergeSort publishedBefore

/-- A published key's JWK, carrying the row's `kid`. -/
def publicJwkOf (record : PublicKeyRecord) : Jwk :=
  record.publicJwk.members.filter (·.1 ≠ "kid") ++ [("kid", .str record.kid)]

structure VerificationKey where
  kid : String
  algorithm : KeyAlgorithm
  status : StoredKeyStatus
  publicJwk : Jwk

/-- The keys of `purpose` that may verify at a moment, in publication order. -/
def verificationKeysOf (records : List PublicKeyRecord) (purpose : KeyPurpose) (at' : ℕ) :
    List VerificationKey :=
  ((sortForPublication records).filter fun record ↦
    record.purpose = purpose && isPublishedAt record at' &&
      (record.status = .active || record.status = .retired)).map fun record ↦
        ⟨record.kid, record.algorithm, record.status, publicJwkOf record⟩

/-- The realm's JWKS at a moment. -/
def realmJwksOf (records : List PublicKeyRecord) (at' : ℕ) : List Jwk :=
  ((sortForPublication records).filter fun record ↦
    REALM_JWKS_PURPOSES.contains record.purpose && record.status ≠ .compromised &&
      isPublishedAt record at').map publicJwkOf

theorem mem_verificationKeysOf {records : List PublicKeyRecord} {purpose : KeyPurpose} {at' : ℕ}
    {key : VerificationKey} : key ∈ verificationKeysOf records purpose at' ↔
      ∃ record ∈ records, record.purpose = purpose ∧ isPublishedAt record at' = true ∧
        (record.status = .active ∨ record.status = .retired) ∧
          key = ⟨record.kid, record.algorithm, record.status, publicJwkOf record⟩ := by
  simp only [verificationKeysOf, sortForPublication, List.mem_map, List.mem_filter,
    List.mem_mergeSort, Bool.and_eq_true, Bool.or_eq_true, decide_eq_true_eq]
  constructor
  · rintro ⟨record, ⟨hmem, ⟨hpurpose, hwindow⟩, hstatus⟩, rfl⟩
    exact ⟨record, hmem, hpurpose, hwindow, hstatus, rfl⟩
  · rintro ⟨record, hmem, hpurpose, hwindow, hstatus, rfl⟩
    exact ⟨record, ⟨hmem, ⟨hpurpose, hwindow⟩, hstatus⟩, rfl⟩

theorem not_mem_private_of_mem_publicJwkOf {record : PublicKeyRecord} {m : String × Json.Value ℚ}
    (h : m ∈ publicJwkOf record) : m.1 ∉ PRIVATE_JWK_MEMBERS := by
  rcases List.mem_append.mp h with hmem | hmem
  · exact record.publicJwk.isPublic m (List.mem_of_mem_filter hmem)
  · have hkid : "kid" ∉ PRIVATE_JWK_MEMBERS := by decide
    rw [List.mem_singleton.mp hmem]
    exact hkid

end QAuth.Keys
