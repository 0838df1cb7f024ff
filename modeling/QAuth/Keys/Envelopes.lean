import QAuth.Foundation.Aead
import QAuth.Foundation.Guards
import QAuth.Foundation.Words
import QAuth.Keys.AssociatedData
import QAuth.Keys.SignerNode

/-!
# Sealed keys and sealed data

`envelope.ts`, `data-at-rest.ts` and the signer's `encrypt` and `decrypt`, over an ideal authenticated
cipher. What a call draws at random and what the cipher makes of it are given to the call, and a call
that seals returns its seal beside its answer; a call that opens is given all seals.
-/

namespace QAuth.Keys

open Aead Guards Text

/-! ### The material of a key -/

/-- A data key is 256 bits. -/
def DATA_KEY_BYTES : ℕ := 32

def IV_BYTES : ℕ := 12

def TAG_BYTES : ℕ := Aead.tagLength

inductive KeyCustodyError
  | keyDecryptionFailed (detail : String)
  | unknownKekRef (kekRef : JsString)
  | kekUnavailable
  | kekAccessDenied
deriving DecidableEq

/-- Where the key-encryption key lives: the answers of its two calls. -/
structure KekProvider where
  wrap : List UInt8 → KeyAad → Except KeyCustodyError (List UInt8 × JsString)
  unwrap : List UInt8 → KeyAad → JsString → Except KeyCustodyError (List UInt8)

/-- A data key is unwrapped as it was wrapped, for the same associated data. -/
def KekProvider.RoundTrips (provider : KekProvider) : Prop :=
  ∀ dek aad wrapped kekRef, provider.wrap dek aad = .ok (wrapped, kekRef) →
    provider.unwrap wrapped aad kekRef = .ok dek

/-- Sealed key material, as `realm_keys` stores it. -/
structure SealedKeyMaterial where
  /-- the ciphertext, then its tag -/
  ciphertext : List UInt8
  iv : List UInt8
  /-- the data key, wrapped -/
  wrappedDek : List UInt8
  kekRef : JsString
  aadVersion : ℕ
deriving DecidableEq

/-- What a call that seals some bytes draws, and what the cipher makes of them. -/
structure CipherDraw (plaintext : List UInt8) where
  iv : List UInt8
  body : List UInt8
  length_iv : iv.length = IV_BYTES
  tagged : body.length = plaintext.length + Aead.tagLength

/-- A fresh data key. -/
abbrev DataKey : Type := {dek : List UInt8 // dek.length = DATA_KEY_BYTES}

inductive SealingError
  | encoding (error : EncodingError)
  | custody (error : KeyCustodyError)
deriving DecidableEq

/-- Encrypt key material for one stored key. -/
def sealKeyMaterial (provider : KekProvider) (material : List UInt8) (dek : DataKey)
    (drawn : CipherDraw material) (identity : KeyIdentity) :
    Except SealingError (SealedKeyMaterial × Seal) := do
  let aad := keyAad identity KEY_AAD_VERSION
  let aadBytes ← (encodeKeyAad aad).mapError .encoding
  let (wrapped, kekRef) ← (provider.wrap dek.val aad).mapError .custody
  return (⟨drawn.body, drawn.iv, wrapped, kekRef, KEY_AAD_VERSION⟩,
    ⟨dek.val, drawn.iv, aadBytes, material, drawn.body, drawn.tagged⟩)

/-- Decrypt the material of one stored key. -/
def openKeyMaterial (ledger : Ledger) (provider : KekProvider) (material : SealedKeyMaterial)
    (identity : KeyIdentity) : Except KeyCustodyError (List UInt8) := do
  let aad := keyAad identity material.aadVersion
  let aadBytes ←
    (encodeKeyAad aad).mapError fun _ ↦ .keyDecryptionFailed "unusable associated data"
  refuseIf (material.iv.length ≠ IV_BYTES ∨ material.ciphertext.length < TAG_BYTES)
    (.keyDecryptionFailed "malformed sealed material")
  let dek ← provider.unwrap material.wrappedDek aad material.kekRef
  refuseIf (dek.length ≠ DATA_KEY_BYTES)
    (.keyDecryptionFailed "unwrapped data key has the wrong length")
  let body := material.ciphertext.take (material.ciphertext.length - TAG_BYTES)
  let tag := material.ciphertext.drop (material.ciphertext.length - TAG_BYTES)
  require (ledger.open? dek material.iv aadBytes (body ++ tag))
    (.keyDecryptionFailed "material did not authenticate")

/-! ### The text of stored data -/

def DATA_AT_REST_VERSION : JsString := units "v1"

/-- `.` -/
def SEPARATOR : UInt16 := 0x2E

/-- `^[A-Za-z0-9_-]*$`. -/
def isBase64Url (text : JsString) : Bool := (charsOf text).all Base64Url.isDigit

/-- A `kid` that can be written into a ciphertext. -/
def isDataKid (kid : JsString) : Bool :=
  isBase64Url kid && 1 ≤ kid.length && kid.length ≤ 255

structure DataEnvelope where
  kid : JsString
  iv : List UInt8
  body : List UInt8
deriving DecidableEq

inductive SignerRefusalReason
  | INVALID_REALM_ID
  | INVALID_CONTEXT
deriving DecidableEq

inductive SignerCaller
  | «local» | web | api | delivery | admin
deriving DecidableEq

/-- The operations that seal and open data. -/
inductive DataOperation
  | encrypt | decrypt
deriving DecidableEq

inductive SignerError
  | accessDenied (caller : SignerCaller) (operation : DataOperation)
  | requestRefused (reason : SignerRefusalReason)
  | keyNotFound (kid : Option JsString)
  | dataDecryption (detail : String)
  | custody (error : KeyCustodyError)
  /-- a length is not written in four bytes -/
  | outOfRange
  /-- the store does not answer -/
  | store
deriving DecidableEq

def base64url (bytes : List UInt8) : JsString := (Base64Url.encode bytes).flatMap unitsOf

/-- The parts of a ciphertext, joined. -/
def dataText (kid : JsString) (iv body : List UInt8) : JsString :=
  Words.join SEPARATOR [DATA_AT_REST_VERSION, kid, base64url iv, base64url body]

/-- Encrypt a plaintext under the key of a `kid`. -/
def sealData (key : List UInt8) (kid realmId context : JsString) (plaintext : List UInt8)
    (drawn : CipherDraw plaintext) : Except SignerError (JsString × Seal) := do
  let aad ← require (dataAad realmId kid context) .outOfRange
  return (dataText kid drawn.iv drawn.body,
    ⟨key, drawn.iv, aad, plaintext, drawn.body, drawn.tagged⟩)

/-- Split a ciphertext into its parts. -/
def parseDataEnvelope (ciphertext : JsString) : Except SignerError DataEnvelope :=
  match ciphertext.splitOn SEPARATOR with
  | [version, kid, ivText, bodyText] => do
    refuseIf (version ≠ DATA_AT_REST_VERSION)
      (.dataDecryption "not a v1 data-at-rest ciphertext")
    refuseIf (isDataKid kid = false ∨ isBase64Url ivText = false ∨ isBase64Url bodyText = false)
      (.dataDecryption "malformed ciphertext")
    let iv := Base64Url.decode (charsOf ivText)
    let body := Base64Url.decode (charsOf bodyText)
    refuseIf (iv.length ≠ IV_BYTES ∨ body.length < TAG_BYTES)
      (.dataDecryption "malformed ciphertext")
    return ⟨kid, iv, body⟩
  | _ => .error (.dataDecryption "not a v1 data-at-rest ciphertext")

/-- Decrypt a parsed ciphertext. -/
def openData (ledger : Ledger) (key : List UInt8) (envelope : DataEnvelope)
    (realmId context : JsString) : Except SignerError (List UInt8) :=
  require ((dataAad realmId envelope.kid context).bind fun aad ↦
    ledger.open? key envelope.iv aad envelope.body) (.dataDecryption "ciphertext did not authenticate")

/-! ### The signer -/

/-- The contexts that a role may name: any, or those that start with one of some texts. -/
inductive ContextGrant
  | any
  | startingWith (prefixes : List String)

def DELIVERY_SECRET_CONTEXT_PREFIX : String := "delivery:"

def REALM_MAIL_SECRET_CONTEXT_PREFIX : String := "realm_secrets:mail."

def UPSTREAM_CLIENT_SECRET_CONTEXT_PREFIX : String := "upstream-oidc:client-secret:"

def AUTH_METHOD_PLUGIN_SECRET_CONTEXT_PREFIX : String := "auth-method-plugin:"

def OID4VP_RESPONSE_KEY_CONTEXT_PREFIX : String := "oid4vp-response-key:"

def TOTP_SECRET_CONTEXT_PREFIX : String := "totp-secret:"

/-- The rows of the policy table for the two operations. -/
def SIGNER_POLICY : SignerCaller → DataOperation → ContextGrant
  | .local, _ => .any
  | .web, .encrypt => .startingWith [OID4VP_RESPONSE_KEY_CONTEXT_PREFIX]
  | .web, .decrypt => .startingWith []
  | .api, .encrypt => .any
  | .api, .decrypt => .startingWith [REALM_MAIL_SECRET_CONTEXT_PREFIX,
      UPSTREAM_CLIENT_SECRET_CONTEXT_PREFIX, AUTH_METHOD_PLUGIN_SECRET_CONTEXT_PREFIX,
      OID4VP_RESPONSE_KEY_CONTEXT_PREFIX, TOTP_SECRET_CONTEXT_PREFIX]
  | .delivery, .encrypt => .startingWith []
  | .delivery, .decrypt => .startingWith [DELIVERY_SECRET_CONTEXT_PREFIX]
  | .admin, _ => .startingWith []

def isSignerCallAllowed (caller : SignerCaller) (operation : DataOperation) (context : JsString) :
    Bool :=
  match SIGNER_POLICY caller operation with
  | .any => true
  | .startingWith prefixes => prefixes.any fun start ↦ (units start).isPrefixOf context

/-- The realm id that a caller named, lower-cased. -/
def SignerNow.resolveRealmId (realmId : JsString) : Except SignerError JsString :=
  let lowered := (charsOf realmId).map Char.toLower
  if UuidText.IsUuid lowered then .ok (lowered.flatMap unitsOf)
  else .error (.requestRefused .INVALID_REALM_ID)

def KeyPurpose.text : KeyPurpose → String
  | token_signing => "token_signing"
  | event_signing => "event_signing"
  | federation_entity => "federation_entity"
  | trust_anchor => "trust_anchor"
  | oid4vp_request_signing => "oid4vp_request_signing"
  | oid4vp_response_encryption => "oid4vp_response_encryption"
  | data_at_rest => "data_at_rest"
  | cookie_hmac => "cookie_hmac"
  | webhook_signing => "webhook_signing"
  | upstream_client_assertion => "upstream_client_assertion"
  | agent_upstream_identity => "agent_upstream_identity"
  | agent_wrap => "agent_wrap"

def KeyAlgorithm.text : KeyAlgorithm → String
  | EdDSA => "EdDSA"
  | RS256 => "RS256"
  | ES256 => "ES256"
  | ML_DSA_65 => "ML-DSA-65"
  | ECDH_ES => "ECDH-ES"
  | HS256 => "HS256"
  | A256GCM => "A256GCM"

def identityOf (realmId : JsString) (purpose : KeyPurpose) (record : SignerKeyRecord)
    (scopeId : Option JsString) : KeyIdentity where
  realmId
  purpose := units purpose.text
  scopeId
  kid := units record.kid
  algorithm := units record.algorithm.text

/-- The signer at a call: what its reads and its caches answer for the realms' `data_at_rest` keys. -/
structure SignerNow where
  provider : KekProvider
  /-- the key list of a realm, and that of a forced read -/
  listKeys : JsString → Bool → Except SignerError (List SignerKeyRecord)
  getWrappedKey : JsString → JsString → Except SignerError (Option SealedKeyMaterial)
  /-- the keys in memory -/
  cached : KeyIdentity → Option (List UInt8)

/-- The `A256GCM` case of `importMaterial`. -/
def importMaterial (material : List UInt8) : Except SignerError (List UInt8) :=
  if material.length = 16 ∨ material.length = 24 ∨ material.length = 32 then .ok material
  else .error (.custody (.keyDecryptionFailed "key material did not import"))

namespace SignerNow

/-- Read one key and unwrap it under the identity that the signer expects. -/
def unwrapKey (signer : SignerNow) (ledger : Ledger) (identity : KeyIdentity) :
    Except SignerError (List UInt8) := do
  let row ← require (← signer.getWrappedKey identity.realmId identity.kid)
    (.keyNotFound (some identity.kid))
  let material ← (openKeyMaterial ledger signer.provider row identity).mapError .custody
  importMaterial material

def loadKey (signer : SignerNow) (ledger : Ledger) (identity : KeyIdentity) :
    Except SignerError (List UInt8) :=
  match signer.cached identity with
  | some key => .ok key
  | none => signer.unwrapKey ledger identity

def aesKey (signer : SignerNow) (ledger : Ledger) (realmId : JsString) (record : SignerKeyRecord) :
    Except SignerError (List UInt8) :=
  signer.loadKey ledger (identityOf realmId .data_at_rest record none)

/-- A key that opens what names it. -/
def usable (kid : JsString) (key : SignerKeyRecord) : Bool :=
  units key.kid = kid && key.algorithm = .A256GCM && (key.status = .active || key.status = .retired)

/-- The key that a ciphertext names. A miss reads the list once more. -/
def usableKey (signer : SignerNow) (realmId kid : JsString) : Except SignerError SignerKeyRecord := do
  match (← signer.listKeys realmId false).find? (usable kid) with
  | some record => return record
  | none => require ((← signer.listKeys realmId true).find? (usable kid)) (.keyNotFound (some kid))

end SignerNow

structure EncryptRequest where
  realmId : JsString
  plaintext : List UInt8
  context : Option JsString

structure DecryptRequest where
  realmId : JsString
  ciphertext : JsString
  context : Option JsString

def encrypt (signer : SignerNow) (ledger : Ledger) (caller : SignerCaller) (request : EncryptRequest)
    (drawn : CipherDraw request.plaintext) : Except SignerError (JsString × Seal) := do
  let context ← require (resolveDataContext request.context) (.requestRefused .INVALID_CONTEXT)
  refuseIf (isSignerCallAllowed caller .encrypt context = false) (.accessDenied caller .encrypt)
  let realmId ← SignerNow.resolveRealmId request.realmId
  let record ← require (activeKey (← signer.listKeys realmId false) .A256GCM) (.keyNotFound none)
  refuseIf (isDataKid (units record.kid) = false) (.keyNotFound none)
  let key ← signer.aesKey ledger realmId record
  sealData key (units record.kid) realmId context request.plaintext drawn

def decrypt (signer : SignerNow) (ledger : Ledger) (caller : SignerCaller)
    (request : DecryptRequest) : Except SignerError (List UInt8) := do
  let context ← require (resolveDataContext request.context) (.requestRefused .INVALID_CONTEXT)
  refuseIf (isSignerCallAllowed caller .decrypt context = false) (.accessDenied caller .decrypt)
  let realmId ← SignerNow.resolveRealmId request.realmId
  let envelope ← parseDataEnvelope request.ciphertext
  let record ← signer.usableKey realmId envelope.kid
  let key ← signer.aesKey ledger realmId record
  openData ledger key envelope realmId context

/-! ### The material of a key opens -/

variable {ledger : Ledger} {provider : KekProvider} {material plaintext : List UInt8} {dek : DataKey}
  {identity identity' : KeyIdentity} {stored : SealedKeyMaterial} {made : Seal}

theorem keyAad_inj {version version' : ℕ} (h : keyAad identity version = keyAad identity' version') :
    identity = identity' :=
  congrArg KeyAad.toKeyIdentity h

theorem sealKeyMaterial_eq_ok {drawn : CipherDraw material}
    (h : sealKeyMaterial provider material dek drawn identity = .ok (stored, made)) :
    stored.iv = made.nonce ∧ stored.ciphertext = made.body ∧ stored.aadVersion = KEY_AAD_VERSION ∧
      stored.iv.length = IV_BYTES ∧ made.key = dek.val ∧ made.plaintext = material ∧
      encodeKeyAad (keyAad identity KEY_AAD_VERSION) = .ok made.associated ∧
      provider.wrap dek.val (keyAad identity KEY_AAD_VERSION) =
        .ok (stored.wrappedDek, stored.kekRef) := by
  rw [sealKeyMaterial] at h
  obtain ⟨aadBytes, haad, h⟩ := bind_eq_ok_iff.mp h
  obtain ⟨⟨wrapped, kekRef⟩, hwrap, h⟩ := bind_eq_ok_iff.mp h
  cases h
  exact ⟨rfl, rfl, rfl, drawn.length_iv, rfl, rfl, mapError_eq_ok_iff.mp haad,
    mapError_eq_ok_iff.mp hwrap⟩

/-- What opens is a seal of the same associated data. -/
theorem openKeyMaterial_eq_ok
    (h : openKeyMaterial ledger provider stored identity = .ok plaintext) :
    ∃ aadBytes dek, encodeKeyAad (keyAad identity stored.aadVersion) = .ok aadBytes ∧
      ledger.open? dek stored.iv aadBytes stored.ciphertext = some plaintext := by
  rw [openKeyMaterial] at h
  obtain ⟨aadBytes, haad, h⟩ := bind_eq_ok_iff.mp h
  obtain ⟨_, -, h⟩ := bind_eq_ok_iff.mp h
  obtain ⟨dek, -, h⟩ := bind_eq_ok_iff.mp h
  obtain ⟨_, -, h⟩ := bind_eq_ok_iff.mp h
  rw [require_eq_ok_iff, List.take_append_drop] at h
  exact ⟨aadBytes, dek, mapError_eq_ok_iff.mp haad, h⟩

theorem openKeyMaterial_of_sealed {drawn : CipherDraw material} (hprovider : provider.RoundTrips)
    (h : sealKeyMaterial provider material dek drawn identity = .ok (stored, made))
    (hmade : made ∈ ledger.seals) :
    openKeyMaterial ledger provider stored identity = .ok material := by
  obtain ⟨hiv, hbody, hversion, hlength, hkey, rfl, haad, hwrap⟩ := sealKeyMaterial_eq_ok h
  have hopen : ledger.open? dek.val stored.iv made.associated stored.ciphertext =
      some made.plaintext := by
    rw [hiv, hbody, ← hkey]
    exact Ledger.open?_of_mem hmade
  have htagged : TAG_BYTES ≤ stored.ciphertext.length := by
    rw [hbody, made.tagged]
    exact Nat.le_add_left _ _
  rw [openKeyMaterial, hversion]
  refine bind_eq_ok_iff.mpr ⟨made.associated, mapError_eq_ok_iff.mpr haad, ?_⟩
  refine bind_eq_ok_iff.mpr ⟨(), refuseIf_eq_ok_iff.mpr (by rw [hlength]; omega), ?_⟩
  refine bind_eq_ok_iff.mpr ⟨dek.val, hprovider _ _ _ _ hwrap, ?_⟩
  refine bind_eq_ok_iff.mpr ⟨(), refuseIf_eq_ok_iff.mpr (not_not.mpr dek.property), ?_⟩
  rw [require_eq_ok_iff, List.take_append_drop]
  exact hopen

/-- Sealed material opens under no other identity, whatever a provider unwraps. -/
theorem eq_of_openKeyMaterial {provider' : KekProvider} {drawn : CipherDraw material}
    (h : sealKeyMaterial provider material dek drawn identity = .ok (stored, made))
    (hmade : made ∈ ledger.seals)
    (hopen : openKeyMaterial ledger provider' stored identity' = .ok plaintext) :
    identity' = identity ∧ plaintext = material := by
  obtain ⟨hiv, hbody, hversion, -, -, rfl, haad, -⟩ := sealKeyMaterial_eq_ok h
  obtain ⟨aadBytes, dek', haad', hopen⟩ := openKeyMaterial_eq_ok hopen
  rw [hiv, hbody] at hopen
  obtain ⟨-, rfl, hplaintext⟩ := Ledger.eq_of_open? hmade hopen
  exact ⟨keyAad_inj (encodeKeyAad_injective haad' haad), hplaintext⟩

/-! ### The parser undoes the writer -/

theorem not_isDigit_replacement : Base64Url.isDigit '\uFFFD' = false := by rfl

theorem isWellFormed_of_isBase64Url {text : JsString} (h : isBase64Url text = true) :
    isWellFormed text = true := by
  refine isWellFormed_of_not_mem fun hmem ↦ ?_
  have hdigit := List.all_eq_true.mp h _ hmem
  rw [not_isDigit_replacement] at hdigit
  cases hdigit

/-- No character of the alphabet is written with the separator. -/
theorem separator_not_mem {text : JsString} (h : isBase64Url text = true) : SEPARATOR ∉ text := by
  have halphabet : ∀ c ∈ Base64Url.alphabet, SEPARATOR ∉ unitsOf c := by decide
  intro hmem
  rw [← of_decide_eq_true (isWellFormed_of_isBase64Url h)] at hmem
  obtain ⟨c, hc, hunit⟩ := List.mem_flatMap.mp hmem
  exact halphabet c (List.contains_iff_mem.mp (List.all_eq_true.mp h c hc)) hunit

theorem charsOf_base64url (bytes : List UInt8) :
    charsOf (base64url bytes) = Base64Url.encode bytes :=
  charsOf_flatMap_unitsOf _

theorem isBase64Url_base64url (bytes : List UInt8) : isBase64Url (base64url bytes) = true := by
  rw [isBase64Url, charsOf_base64url, List.all_eq_true]
  exact fun c hc ↦ Base64Url.isDigit_of_mem_encode hc

/-- The parser undoes the writer. -/
theorem parseDataEnvelope_dataText {kid : JsString} {iv body : List UInt8}
    (hkid : isDataKid kid = true) (hiv : iv.length = IV_BYTES) (hbody : TAG_BYTES ≤ body.length) :
    parseDataEnvelope (dataText kid iv body) = .ok ⟨kid, iv, body⟩ := by
  have hkidText : isBase64Url kid = true := by
    simp only [isDataKid, Bool.and_eq_true] at hkid
    exact hkid.1.1
  have hsplit : (dataText kid iv body).splitOn SEPARATOR =
      [DATA_AT_REST_VERSION, kid, base64url iv, base64url body] := by
    refine Words.splitOn_join (by simp) ?_
    simp only [List.forall_mem_cons]
    exact ⟨by decide, separator_not_mem hkidText,
      separator_not_mem (isBase64Url_base64url iv), separator_not_mem (isBase64Url_base64url body),
      nofun⟩
  rw [parseDataEnvelope, hsplit]
  simp only [charsOf_base64url, Base64Url.decode_encode, isBase64Url_base64url, hkid, hiv, refuseIf]
  rw [if_neg (by simp), if_neg (by simp), if_neg (by omega)]
  rfl

/-- What is parsed names a `kid` that can be written. -/
theorem isDataKid_of_parseDataEnvelope {text : JsString} {envelope : DataEnvelope}
    (h : parseDataEnvelope text = .ok envelope) : isDataKid envelope.kid = true := by
  rw [parseDataEnvelope.eq_def] at h
  split at h
  · obtain ⟨_, -, h⟩ := bind_eq_ok_iff.mp h
    obtain ⟨_, hformed, h⟩ := bind_eq_ok_iff.mp h
    obtain ⟨_, -, h⟩ := bind_eq_ok_iff.mp h
    cases h
    simp only [refuseIf_eq_ok_iff, not_or, Bool.not_eq_false] at hformed
    exact hformed.1
  · cases h

/-! ### Stored data opens -/

variable {signer signer' : SignerNow} {ledger' : Ledger} {caller caller' : SignerCaller}

/-- The identity of a realm's key for stored data. -/
def dataKeyIdentity (realmId kid : JsString) : KeyIdentity where
  realmId
  purpose := units KeyPurpose.data_at_rest.text
  scopeId := none
  kid
  algorithm := units KeyAlgorithm.A256GCM.text

theorem identityOf_eq {realmId : JsString} {record : SignerKeyRecord}
    (h : record.algorithm = .A256GCM) :
    identityOf realmId .data_at_rest record none = dataKeyIdentity realmId (units record.kid) := by
  rw [identityOf, h]
  rfl

/-- What a ciphertext names is a key of the algorithm. -/
theorem usableKey_eq_ok {realmId kid : JsString} {record : SignerKeyRecord}
    (h : signer.usableKey realmId kid = .ok record) :
    units record.kid = kid ∧ record.algorithm = .A256GCM := by
  have husable : SignerNow.usable kid record = true := by
    rw [SignerNow.usableKey] at h
    obtain ⟨list, -, h⟩ := bind_eq_ok_iff.mp h
    cases hfind : list.find? (SignerNow.usable kid) with
    | some found =>
      rw [hfind] at h
      cases h
      exact List.find?_some hfind
    | none =>
      rw [hfind] at h
      obtain ⟨again, -, h⟩ := bind_eq_ok_iff.mp h
      exact List.find?_some (require_eq_ok_iff.mp h)
  simp only [SignerNow.usable, Bool.and_eq_true, decide_eq_true_eq] at husable
  exact husable.1

theorem algorithm_of_activeKey {list : List SignerKeyRecord} {algorithm : KeyAlgorithm}
    {record : SignerKeyRecord} (h : activeKey list algorithm = some record) :
    record.algorithm = algorithm := by
  rw [activeKey] at h
  split at h
  · rename_i key hfilter
    cases h
    have hmem : record ∈ list.filter fun key ↦ key.status = .active && key.algorithm = algorithm := by
      rw [hfilter]
      exact List.mem_singleton_self record
    simpa using ((Bool.and_eq_true _ _).mp (List.mem_filter.mp hmem).2).2
  · cases h

theorem isWellFormed_of_resolveRealmId {realmId resolved : JsString}
    (h : SignerNow.resolveRealmId realmId = .ok resolved) : isWellFormed resolved = true := by
  rw [SignerNow.resolveRealmId] at h
  split_ifs at h
  cases h
  exact isWellFormed_flatMap_unitsOf _

theorem encrypt_eq_ok {request : EncryptRequest} {drawn : CipherDraw request.plaintext}
    {text : JsString} (h : encrypt signer ledger caller request drawn = .ok (text, made)) :
    ∃ realmId context kid, SignerNow.resolveRealmId request.realmId = .ok realmId ∧
      resolveDataContext request.context = some context ∧ isDataKid kid = true ∧
      text = dataText kid drawn.iv drawn.body ∧ made.nonce = drawn.iv ∧ made.body = drawn.body ∧
      made.plaintext = request.plaintext ∧ dataAad realmId kid context = some made.associated ∧
      signer.loadKey ledger (dataKeyIdentity realmId kid) = .ok made.key := by
  rw [encrypt] at h
  obtain ⟨context, hcontext, h⟩ := bind_eq_ok_iff.mp h
  obtain ⟨_, -, h⟩ := bind_eq_ok_iff.mp h
  obtain ⟨realmId, hrealm, h⟩ := bind_eq_ok_iff.mp h
  obtain ⟨list, -, h⟩ := bind_eq_ok_iff.mp h
  obtain ⟨record, hrecord, h⟩ := bind_eq_ok_iff.mp h
  obtain ⟨_, hkid, h⟩ := bind_eq_ok_iff.mp h
  obtain ⟨key, hkey, h⟩ := bind_eq_ok_iff.mp h
  rw [SignerNow.aesKey, identityOf_eq (algorithm_of_activeKey (require_eq_ok_iff.mp hrecord))] at hkey
  rw [sealData] at h
  obtain ⟨aad, haad, h⟩ := bind_eq_ok_iff.mp h
  cases h
  exact ⟨realmId, context, units record.kid, hrealm, require_eq_ok_iff.mp hcontext,
    by simpa using hkid, rfl, rfl, rfl, rfl, require_eq_ok_iff.mp haad, hkey⟩

theorem decrypt_eq_ok_iff {request : DecryptRequest} :
    decrypt signer ledger caller request = .ok plaintext ↔
      ∃ context realmId envelope key aad, resolveDataContext request.context = some context ∧
        isSignerCallAllowed caller .decrypt context = true ∧
        SignerNow.resolveRealmId request.realmId = .ok realmId ∧
        parseDataEnvelope request.ciphertext = .ok envelope ∧
        (∃ record, signer.usableKey realmId envelope.kid = .ok record) ∧
        signer.loadKey ledger (dataKeyIdentity realmId envelope.kid) = .ok key ∧
        dataAad realmId envelope.kid context = some aad ∧
        ledger.open? key envelope.iv aad envelope.body = some plaintext := by
  have hidentity : ∀ {realmId kid : JsString} {record : SignerKeyRecord},
      signer.usableKey realmId kid = .ok record → signer.aesKey ledger realmId record =
        signer.loadKey ledger (dataKeyIdentity realmId kid) := by
    intro realmId kid record hrecord
    obtain ⟨rfl, halgorithm⟩ := usableKey_eq_ok hrecord
    rw [SignerNow.aesKey, identityOf_eq halgorithm]
  simp only [decrypt, openData, bind_eq_ok_iff, require_eq_ok_iff, refuseIf_eq_ok_iff,
    Bool.not_eq_false, Option.bind_eq_some_iff]
  constructor
  · rintro ⟨context, hcontext, -, hallowed, realmId, hrealm, envelope, hparse, record, hrecord, key,
      hkey, aad, haad, hopen⟩
    rw [hidentity hrecord] at hkey
    exact ⟨context, realmId, envelope, key, aad, hcontext, hallowed, hrealm, hparse,
      ⟨record, hrecord⟩, hkey, haad, hopen⟩
  · rintro ⟨context, realmId, envelope, key, aad, hcontext, hallowed, hrealm, hparse,
      ⟨record, hrecord⟩, hkey, haad, hopen⟩
    rw [← hidentity hrecord] at hkey
    exact ⟨context, hcontext, (), hallowed, realmId, hrealm, envelope, hparse, record, hrecord, key,
      hkey, aad, haad, hopen⟩

theorem eq_of_decrypt {request : EncryptRequest} {drawn : CipherDraw request.plaintext}
    {realmId context kid kid' : JsString} {request' : DecryptRequest}
    (hrealm : SignerNow.resolveRealmId request.realmId = .ok realmId)
    (hcontext : resolveDataContext request.context = some context) (hkid : isDataKid kid = true)
    (hnonce : made.nonce = drawn.iv) (hbody : made.body = drawn.body)
    (hplaintext : made.plaintext = request.plaintext)
    (haad : dataAad realmId kid context = some made.associated) (hmade : made ∈ ledger'.seals)
    (hparse : parseDataEnvelope request'.ciphertext = .ok ⟨kid', drawn.iv, drawn.body⟩)
    (hopen : decrypt signer' ledger' caller' request' = .ok plaintext) :
    SignerNow.resolveRealmId request'.realmId = .ok realmId ∧
      resolveDataContext request'.context = some context ∧ kid' = kid ∧
      plaintext = request.plaintext := by
  obtain ⟨context', realmId', envelope, key, aad, hcontext', -, hrealm', hparse', -, -, haad',
    hopen⟩ := decrypt_eq_ok_iff.mp hopen
  have hkid' := isDataKid_of_parseDataEnvelope hparse
  cases hparse.symm.trans hparse'
  dsimp only at haad' hopen
  rw [← hnonce, ← hbody] at hopen
  obtain ⟨-, rfl, hsame⟩ := Ledger.eq_of_open? hmade hopen
  have hkidText : ∀ {kid : JsString}, isDataKid kid = true → isWellFormed kid = true := by
    intro kid h
    simp only [isDataKid, Bool.and_eq_true] at h
    exact isWellFormed_of_isBase64Url h.1.1
  obtain ⟨rfl, rfl, rfl⟩ := dataAad_injective (isWellFormed_of_resolveRealmId hrealm')
    (hkidText hkid') (isWellFormed_of_resolveDataContext hcontext')
    (isWellFormed_of_resolveRealmId hrealm) (hkidText hkid)
    (isWellFormed_of_resolveDataContext hcontext) haad' haad
  exact ⟨hrealm', hcontext', rfl, hsame.trans hplaintext⟩

theorem loadKey_of_sealed {realmId kid : JsString} {drawn : CipherDraw material}
    (hprovider : signer.provider.RoundTrips)
    (hsealed : sealKeyMaterial signer.provider material dek drawn (dataKeyIdentity realmId kid) =
      .ok (stored, made))
    (hmade : made ∈ ledger.seals) (hrow : signer.getWrappedKey realmId kid = .ok (some stored))
    (hcached : ∀ key ∈ signer.cached (dataKeyIdentity realmId kid), key = material)
    (himport : importMaterial material = .ok material) :
    signer.loadKey ledger (dataKeyIdentity realmId kid) = .ok material := by
  rw [SignerNow.loadKey]
  cases hkey : signer.cached (dataKeyIdentity realmId kid) with
  | some key => exact congrArg Except.ok (hcached key hkey)
  | none =>
    refine bind_eq_ok_iff.mpr ⟨some stored, hrow, bind_eq_ok_iff.mpr ⟨stored, rfl, ?_⟩⟩
    refine bind_eq_ok_iff.mpr ⟨material, mapError_eq_ok_iff.mpr ?_, himport⟩
    exact openKeyMaterial_of_sealed hprovider hsealed hmade

/-- Material of a key opens under the identity that it was sealed for, and under no other; so the
signer loads it while its row is there. What `encrypt` returned opens in the same realm with the same
context, while the key is listed and loaded, and it opens in no other realm, for no other context and
under no other `kid`. No associated data is of both kinds. -/
theorem sealed_opens_alone :
    (∀ (provider : KekProvider) material dek (drawn : CipherDraw material) identity stored made
        (ledger : Ledger),
      sealKeyMaterial provider material dek drawn identity = .ok (stored, made) →
      made ∈ ledger.seals →
      (provider.RoundTrips → openKeyMaterial ledger provider stored identity = .ok material) ∧
      ∀ provider' identity', identity' ≠ identity →
        ∃ e, openKeyMaterial ledger provider' stored identity' = .error e) ∧
    (∀ (signer : SignerNow) material dek (drawn : CipherDraw material) realmId kid stored made
        (ledger : Ledger),
      sealKeyMaterial signer.provider material dek drawn (dataKeyIdentity realmId kid) =
        .ok (stored, made) →
      made ∈ ledger.seals → signer.provider.RoundTrips →
      signer.getWrappedKey realmId kid = .ok (some stored) →
      (∀ key ∈ signer.cached (dataKeyIdentity realmId kid), key = material) →
      importMaterial material = .ok material →
      signer.loadKey ledger (dataKeyIdentity realmId kid) = .ok material) ∧
    (∀ signer ledger caller request drawn text made,
      encrypt signer ledger caller request drawn = .ok (text, made) →
      ∃ realmId context kid, SignerNow.resolveRealmId request.realmId = .ok realmId ∧
        resolveDataContext request.context = some context ∧
        parseDataEnvelope text = .ok ⟨kid, drawn.iv, drawn.body⟩ ∧
        ∀ (signer' : SignerNow) (ledger' : Ledger) caller' (request' : DecryptRequest),
          made ∈ ledger'.seals →
          (isSignerCallAllowed caller' .decrypt context = true →
            SignerNow.resolveRealmId request'.realmId = .ok realmId →
            resolveDataContext request'.context = some context → request'.ciphertext = text →
            (∃ record, signer'.usableKey realmId kid = .ok record) →
            signer'.loadKey ledger' (dataKeyIdentity realmId kid) =
              signer.loadKey ledger (dataKeyIdentity realmId kid) →
            decrypt signer' ledger' caller' request' = .ok request.plaintext) ∧
          ∀ kid', parseDataEnvelope request'.ciphertext = .ok ⟨kid', drawn.iv, drawn.body⟩ →
            SignerNow.resolveRealmId request'.realmId ≠ .ok realmId ∨
              resolveDataContext request'.context ≠ some context ∨ kid' ≠ kid →
            ∃ e, decrypt signer' ledger' caller' request' = .error e) ∧
    ∀ aad bytes realmId kid context, encodeKeyAad aad = .ok bytes →
      dataAad realmId kid context ≠ some bytes := by
  refine ⟨?_, ?_, ?_, fun aad bytes realmId kid context ↦ encodeKeyAad_ne_dataAad⟩
  · intro provider material dek drawn identity stored made ledger hsealed hmade
    refine ⟨fun hprovider ↦ openKeyMaterial_of_sealed hprovider hsealed hmade, ?_⟩
    intro provider' identity' hne
    cases hopen : openKeyMaterial ledger provider' stored identity' with
    | error e => exact ⟨e, rfl⟩
    | ok plaintext => exact absurd (eq_of_openKeyMaterial hsealed hmade hopen).1 hne
  · intro signer material dek drawn realmId kid stored made ledger hsealed hmade hprovider hrow hcached
    exact loadKey_of_sealed hprovider hsealed hmade hrow hcached
  · intro signer ledger caller request drawn text made h
    obtain ⟨realmId, context, kid, hrealm, hcontext, hkid, rfl, hnonce, hbody, hplaintext, haad,
      hkey⟩ := encrypt_eq_ok h
    have hlength : TAG_BYTES ≤ drawn.body.length := by
      rw [drawn.tagged]
      exact Nat.le_add_left _ _
    have hparse := parseDataEnvelope_dataText hkid drawn.length_iv hlength
    refine ⟨realmId, context, kid, hrealm, hcontext, hparse, ?_⟩
    intro signer' ledger' caller' request' hmade
    constructor
    · intro hallowed hrealm' hcontext' htext hlisted hsame
      refine decrypt_eq_ok_iff.mpr ⟨context, realmId, ⟨kid, drawn.iv, drawn.body⟩, made.key,
        made.associated, hcontext', hallowed, hrealm', by rw [htext, hparse], hlisted,
        hsame.trans hkey, haad, ?_⟩
      rw [← hnonce, ← hbody, ← hplaintext]
      exact Ledger.open?_of_mem hmade
    · intro kid' hparse' hother
      cases hopen : decrypt signer' ledger' caller' request' with
      | error e => exact ⟨e, rfl⟩
      | ok plaintext =>
        obtain ⟨hrealm', hcontext', hkid', -⟩ := eq_of_decrypt hrealm hcontext hkid hnonce hbody
          hplaintext haad hmade hparse' hopen
        rcases hother with hne | hne | hne
        · exact absurd hrealm' hne
        · exact absurd hcontext' hne
        · exact absurd hkid' hne

/-! ### A run -/

def sealedRealm : JsString := units "00000000-0000-4000-8000-00000000000a"

def sealedKid : String := "key-1"

def sealedMaterial : List UInt8 := List.replicate 32 7

def sealedDek : DataKey := ⟨List.replicate 32 9, by decide⟩

def sealedProvider : KekProvider where
  wrap dek aad :=
    if dek = sealedDek.val ∧ aad = keyAad (dataKeyIdentity sealedRealm (units sealedKid)) 1 then
      .ok (List.replicate 61 1, units "kek-1")
    else .error .kekUnavailable
  unwrap wrapped aad kekRef :=
    if kekRef ≠ units "kek-1" then .error (.unknownKekRef kekRef)
    else if wrapped = List.replicate 61 1 ∧
        aad = keyAad (dataKeyIdentity sealedRealm (units sealedKid)) 1 then .ok sealedDek.val
    else .error (.keyDecryptionFailed "data key did not authenticate")

theorem roundTrips_sealedProvider : sealedProvider.RoundTrips := by
  intro dek aad wrapped kekRef h
  simp only [sealedProvider] at h ⊢
  split_ifs at h with hwrapped
  obtain ⟨rfl, rfl⟩ := hwrapped
  cases h
  simp

/-- The cipher's answer for the material of the key. -/
def sealedKeyDraw : CipherDraw sealedMaterial :=
  ⟨List.replicate 12 2, List.replicate 48 3, by decide, by decide⟩

def sealedStored : SealedKeyMaterial :=
  ⟨List.replicate 48 3, List.replicate 12 2, List.replicate 61 1, units "kek-1", 1⟩

def sealedSigner : SignerNow where
  provider := sealedProvider
  listKeys realmId _ := .ok (if realmId = sealedRealm then
    [⟨sealedKid, .A256GCM, .active, none, none, 0⟩] else [])
  getWrappedKey realmId kid :=
    .ok (if realmId = sealedRealm ∧ kid = units sealedKid then some sealedStored else none)
  cached _ := none

def sealedRequest : EncryptRequest := ⟨sealedRealm, [1, 2, 3], some (units "totp-secret:u")⟩

def sealedDataDraw : CipherDraw sealedRequest.plaintext :=
  ⟨List.replicate 12 4, List.replicate 19 5, by decide, by decide⟩

/-- The seal of the key's material. -/
def sealedKeySeal : Seal where
  key := sealedDek.val
  nonce := sealedKeyDraw.iv
  associated :=
    match encodeKeyAad (keyAad (dataKeyIdentity sealedRealm (units sealedKid)) 1) with
    | .ok bytes => bytes
    | .error _ => []
  plaintext := sealedMaterial
  body := sealedKeyDraw.body
  tagged := sealedKeyDraw.tagged

def sealedDataSeal : Seal where
  key := sealedMaterial
  nonce := sealedDataDraw.iv
  associated := (dataAad sealedRealm (units sealedKid) (units "totp-secret:u")).getD []
  plaintext := sealedRequest.plaintext
  body := sealedDataDraw.body
  tagged := sealedDataDraw.tagged

def sealedLedger : Ledger := ⟨[sealedKeySeal, sealedDataSeal], by decide⟩

def sealedText : JsString := dataText (units sealedKid) sealedDataDraw.iv sealedDataDraw.body

/-- What is encrypted under a stored key is decrypted for its context, and not without it. -/
theorem sealed_opens_alone_sample :
    openKeyMaterial sealedLedger sealedProvider sealedStored
        (dataKeyIdentity sealedRealm (units sealedKid)) = .ok sealedMaterial ∧
      decrypt sealedSigner sealedLedger .api
        ⟨sealedRealm, sealedText, some (units "totp-secret:u")⟩ = .ok [1, 2, 3] ∧
      ∃ e, decrypt sealedSigner sealedLedger .local ⟨sealedRealm, sealedText, none⟩ = .error e := by
  obtain ⟨hmaterial, -, hdata, -⟩ := sealed_opens_alone
  have hsealed : sealKeyMaterial sealedProvider sealedMaterial sealedDek sealedKeyDraw
      (dataKeyIdentity sealedRealm (units sealedKid)) = .ok (sealedStored, sealedKeySeal) := by
    decide +kernel
  have hencrypted : encrypt sealedSigner sealedLedger .api sealedRequest sealedDataDraw =
      .ok (sealedText, sealedDataSeal) := by
    decide +kernel
  obtain ⟨realmId, context, kid, hrealm, hcontext, hparse, hopens⟩ :=
    hdata _ _ _ _ _ _ _ hencrypted
  have hrealm' : SignerNow.resolveRealmId sealedRealm = .ok sealedRealm := by decide +kernel
  have hcontext' : resolveDataContext (some (units "totp-secret:u")) =
      some (units "totp-secret:u") := by
    decide +kernel
  have hparse' : parseDataEnvelope sealedText =
      .ok ⟨units sealedKid, sealedDataDraw.iv, sealedDataDraw.body⟩ := by
    decide +kernel
  cases hrealm'.symm.trans hrealm
  cases hcontext'.symm.trans hcontext
  cases hparse'.symm.trans hparse
  have hmem : sealedDataSeal ∈ sealedLedger.seals := by simp [sealedLedger]
  refine ⟨(hmaterial _ _ _ _ _ _ _ sealedLedger hsealed (by simp [sealedLedger])).1
    roundTrips_sealedProvider, ?_, ?_⟩
  · exact (hopens sealedSigner sealedLedger .api ⟨sealedRealm, sealedText, _⟩ hmem).1
      (by decide +kernel) hrealm' hcontext' rfl
      ⟨⟨sealedKid, .A256GCM, .active, none, none, 0⟩, by decide +kernel⟩ rfl
  · exact (hopens sealedSigner sealedLedger .local ⟨sealedRealm, sealedText, none⟩ hmem).2 _ hparse'
      (.inr (.inl (by decide +kernel)))

end QAuth.Keys
