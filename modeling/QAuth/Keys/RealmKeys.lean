import QAuth.Foundation.Guards
import QAuth.Foundation.Program
import QAuth.Foundation.Table
import QAuth.Foundation.Text
import QAuth.Foundation.UuidText
import QAuth.Keys.PublishedKeys

/-!
# The rows of `realm_keys`

A row of the table of `schema/keys.ts` with all that the key factory reads of it, the purposes of
`key-purposes.ts` with their rules, and the calls that the key factory and the key boot step make.
-/

namespace QAuth.Keys

/-! ### Purposes -/

/-- The rules of one key purpose. -/
structure KeyPurposeDefinition where
  algorithms : List KeyAlgorithm
  defaultAlgorithm : KeyAlgorithm
  isScoped : Bool
  published : Bool
  hybridCompanion : Option KeyAlgorithm
  federationOperatorOnly : Bool
  secretShownOnce : Bool

def KEY_PURPOSES : KeyPurpose → KeyPurposeDefinition
  | .token_signing =>
    ⟨[.EdDSA, .RS256, .ML_DSA_65], .EdDSA, false, true, some .ML_DSA_65, false, false⟩
  | .event_signing => ⟨[.EdDSA, .RS256], .EdDSA, false, true, none, false, false⟩
  | .federation_entity => ⟨[.RS256, .ES256, .EdDSA], .RS256, false, true, none, false, false⟩
  | .trust_anchor => ⟨[.RS256, .ES256, .EdDSA], .RS256, false, true, none, true, false⟩
  | .oid4vp_request_signing => ⟨[.ES256], .ES256, false, true, none, false, false⟩
  | .oid4vp_response_encryption => ⟨[.ECDH_ES], .ECDH_ES, false, true, none, false, false⟩
  | .data_at_rest => ⟨[.A256GCM], .A256GCM, false, false, none, false, false⟩
  | .cookie_hmac => ⟨[.HS256], .HS256, false, false, none, false, false⟩
  | .webhook_signing => ⟨[.HS256], .HS256, true, false, none, false, true⟩
  | .upstream_client_assertion => ⟨[.RS256, .ES256, .EdDSA], .RS256, true, true, none, false, false⟩
  | .agent_upstream_identity => ⟨[.RS256, .ES256, .EdDSA], .RS256, true, false, none, false, false⟩
  | .agent_wrap => ⟨[.A256GCM], .A256GCM, false, false, none, false, false⟩

/-- The keys every realm gets when it is created. -/
def STANDARD_REALM_KEY_PURPOSES : List KeyPurpose :=
  [.token_signing, .event_signing, .cookie_hmac, .data_at_rest]

/-- The name of a purpose, as it is stored. -/
def KeyPurpose.name : KeyPurpose → String
  | .token_signing => "token_signing"
  | .event_signing => "event_signing"
  | .federation_entity => "federation_entity"
  | .trust_anchor => "trust_anchor"
  | .oid4vp_request_signing => "oid4vp_request_signing"
  | .oid4vp_response_encryption => "oid4vp_response_encryption"
  | .data_at_rest => "data_at_rest"
  | .cookie_hmac => "cookie_hmac"
  | .webhook_signing => "webhook_signing"
  | .upstream_client_assertion => "upstream_client_assertion"
  | .agent_upstream_identity => "agent_upstream_identity"
  | .agent_wrap => "agent_wrap"

/-- The name of an algorithm, as it is stored. -/
def KeyAlgorithm.name : KeyAlgorithm → String
  | .EdDSA => "EdDSA"
  | .RS256 => "RS256"
  | .ES256 => "ES256"
  | .ML_DSA_65 => "ML-DSA-65"
  | .ECDH_ES => "ECDH-ES"
  | .HS256 => "HS256"
  | .A256GCM => "A256GCM"

/-! ### Rows -/

/-- The realm, purpose, scope and algorithm of a key. -/
structure KeySlot where
  realmId : String
  purpose : KeyPurpose
  scopeId : Option String
  algorithm : KeyAlgorithm
deriving DecidableEq

/-- A row of `realm_keys`, with the row of `realm_public_keys` where the key is published. -/
structure RealmKey extends KeyRow where
  realmId : String
  /-- when the key started to sign -/
  activateAt : Option ℕ
  /-- which KEK wrapped the key's data key -/
  kekRef : String
  /-- the sealed material, as whoever holds that KEK opens it -/
  material : List UInt8

namespace RealmKey

/-- The realm and the `kid`. -/
def key (row : RealmKey) : String × String := (row.realmId, row.kid)

def slot (row : RealmKey) : KeySlot := ⟨row.realmId, row.purpose, row.scopeId, row.algorithm⟩

/-- When the key appears in its JWKS; `none` for a purpose that is never published. -/
def publishAt (row : RealmKey) : Option ℕ := row.publication.map (·.publishAt)

/-- When a `next` key reached its outside party: its publication, or its creation when
unpublished. -/
def shownAt (row : RealmKey) : ℕ := row.publishAt.getD row.createdAt

def activate (row : RealmKey) (activateAt : ℕ) : RealmKey :=
  { row with status := .active, activateAt := some activateAt }

def retire (row : RealmKey) (retireAt : ℕ) (unpublishAt : Option ℕ) : RealmKey :=
  { row with status := .retired, retireAt := some retireAt, unpublishAt := unpublishAt }

@[simp] theorem key_activate (row : RealmKey) (n : ℕ) : (row.activate n).key = row.key := rfl

@[simp] theorem slot_activate (row : RealmKey) (n : ℕ) : (row.activate n).slot = row.slot := rfl

@[simp] theorem status_activate (row : RealmKey) (n : ℕ) : (row.activate n).status = .active := rfl

@[simp] theorem shownAt_activate (row : RealmKey) (n : ℕ) :
    (row.activate n).shownAt = row.shownAt := rfl

@[simp] theorem key_retire (row : RealmKey) (n : ℕ) (u : Option ℕ) :
    (row.retire n u).key = row.key := rfl

@[simp] theorem slot_retire (row : RealmKey) (n : ℕ) (u : Option ℕ) :
    (row.retire n u).slot = row.slot := rfl

@[simp] theorem status_retire (row : RealmKey) (n : ℕ) (u : Option ℕ) :
    (row.retire n u).status = .retired := rfl

@[simp] theorem shownAt_retire (row : RealmKey) (n : ℕ) (u : Option ℕ) :
    (row.retire n u).shownAt = row.shownAt := rfl

end RealmKey

/-! ### Calls -/

/-- Which keys `listByRealm` returns. A caller that keeps those of one algorithm of its answer names
it here. -/
structure StoredKeyFilter where
  purpose : KeyPurpose
  scopeId : Option String
  status : Option StoredKeyStatus
  algorithm : Option KeyAlgorithm

def StoredKeyFilter.admits (filter : StoredKeyFilter) (row : RealmKey) : Bool :=
  row.purpose = filter.purpose && row.scopeId = filter.scopeId &&
    filter.status.all (row.status = ·) && filter.algorithm.all (row.algorithm = ·)

/-- A rotation step. -/
inductive StoredKeyStatusChange
  | active (activateAt : ℕ)
  | retired (retireAt : ℕ) (unpublishAt : Option ℕ)

/-- The status a rotation step starts from. -/
def StoredKeyStatusChange.startsAt : StoredKeyStatusChange → StoredKeyStatus
  | .active _ => .next
  | .retired _ _ => .active

def StoredKeyStatusChange.apply (row : RealmKey) : StoredKeyStatusChange → RealmKey
  | .active activateAt => row.activate activateAt
  | .retired retireAt unpublishAt => row.retire retireAt unpublishAt

/-- A freshly generated key. -/
structure GeneratedKeyMaterial where
  kid : String
  /-- for an asymmetric key -/
  publicJwk : Option PublicJwk
  material : List UInt8

/-- What the key factory and the key boot step call. A `DELETE` of several rows is the read of the
rows it finds and, for each of them, `deleteRow`. -/
inductive StoreCall
  | now
  | randomUUID
  | generateKeyMaterial (algorithm : KeyAlgorithm)
  | sealKeyMaterial
  | findByKid (realmId kid : String)
  | listByRealm (realmId : String) (filter : StoredKeyFilter)
  | create (row : RealmKey)
  | updateStatus (realmId kid : String) (change : StoredKeyStatusChange)
  | deleteRow (realmId : String) (purpose : KeyPurpose) (scopeId kid : String)
  | lockRealm (realmId : String)
  | listPublicKeys (realmId : String)
  | getWrappedKey (realmId kid : String)
  | anotherRealmPublishes (realmId : String) (identity : Jwk)

/-- The rows that violate a constraint are refused with its name. -/
abbrev Constraint : Type := String

abbrev StoreCall.Answer : StoreCall → Type
  | .now => ℕ
  | .randomUUID => String
  | .generateKeyMaterial _ => GeneratedKeyMaterial
  /- the KEK's reference; a KEK provider that does not answer throws -/
  | .sealKeyMaterial => Option String
  | .findByKid _ _ => Option RealmKey
  | .listByRealm _ _ => List RealmKey
  | .create _ => Except Constraint Unit
  | .updateStatus _ _ _ => Except Constraint (Option RealmKey)
  | .deleteRow _ _ _ _ => Bool
  | .lockRealm _ => Unit
  | .listPublicKeys _ => List PublicKeyRecord
  | .getWrappedKey _ _ => Option RealmKey
  | .anotherRealmPublishes _ _ => Bool

/-- The ports of the key factory and the key boot step. -/
abbrev StorePorts : Effect.Ports := ⟨StoreCall, StoreCall.Answer⟩

end QAuth.Keys
