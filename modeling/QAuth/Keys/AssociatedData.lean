import QAuth.Foundation.Base64Url
import QAuth.Foundation.Bytes
import QAuth.Foundation.Guards
import QAuth.Foundation.Text
import QAuth.Foundation.UuidText

/-!
# Associated data

The two encodings that bind a ciphertext to what it is for: that of `aad.ts`, for the material of a
stored key, and that of `data-at-rest.ts`, for data that a realm stores. A string is a list of UTF-16
code units, and a surrogate on its own is written as U+FFFD.
-/

namespace QAuth.Keys

open Guards Text

abbrev JsString : Type := List UInt16

/-! ### The material of a key -/

/-- The columns of a stored key that name it. -/
structure KeyIdentity where
  realmId : JsString
  purpose : JsString
  /-- the scope inside the purpose -/
  scopeId : Option JsString
  kid : JsString
  algorithm : JsString
deriving DecidableEq

structure KeyAad extends KeyIdentity where
  version : ℕ
deriving DecidableEq

def KEY_AAD_VERSION : ℕ := 1

def SUPPORTED_KEY_AAD_VERSIONS : List ℕ := [KEY_AAD_VERSION]

/-- What the encoding throws. -/
inductive EncodingError
  | typeError (message : String)
  | rangeError (message : String)
deriving DecidableEq

def KEY_LABEL : List UInt8 := utf8Bytes "qauth/key-aad".toList

def ABSENT : UInt8 := 0x00

def PRESENT : UInt8 := 0x01

def field (name : String) (value : Option JsString) (nullable : Bool) :
    Except EncodingError (List UInt8) :=
  match value with
  | none =>
    if nullable then .ok [ABSENT]
    else .error (.typeError s!"Key associated data: {name} must be a string")
  | some value =>
    if value = [] then
      .error (.typeError s!"Key associated data: {name} must be a non-empty string")
    -- a lone surrogate would be encoded as U+FFFD
    else if !isWellFormed value then
      .error (.typeError s!"Key associated data: {name} must be well-formed Unicode")
    else match Bytes.withLength (utf8Of value) with
      | none => .error (.rangeError "The value of \"value\" is out of range.")
      | some bytes => .ok (PRESENT :: bytes)

/-- The bytes that are authenticated for one stored key. -/
def encodeKeyAad (aad : KeyAad) : Except EncodingError (List UInt8) := do
  refuseIf (aad.version ∉ SUPPORTED_KEY_AAD_VERSIONS)
    (.rangeError "Key associated data: unsupported version")
  let realmId ← field "realmId" (some aad.realmId) false
  let purpose ← field "purpose" (some aad.purpose) false
  let scopeId ← field "scopeId" aad.scopeId true
  let kid ← field "kid" (some aad.kid) false
  let algorithm ← field "algorithm" (some aad.algorithm) false
  return KEY_LABEL ++ [UInt8.ofNat aad.version] ++ realmId ++ purpose ++ scopeId ++ kid ++ algorithm

def keyAad (identity : KeyIdentity) (version : ℕ) : KeyAad := { identity with version }

/-! ### Stored data -/

/-- The longest context, in code units. -/
def MAX_DATA_CONTEXT_LENGTH : ℕ := 1024

def DATA_LABEL : List UInt8 := utf8Bytes "qauth/data-at-rest".toList

def VERSION_BYTE : UInt8 := 0x01

/-- The caller's context, the empty one when it is absent, where it is well-formed. -/
def resolveDataContext (context : Option JsString) : Option JsString :=
  match context with
  | none => some []
  | some context =>
    if context.length > MAX_DATA_CONTEXT_LENGTH || !isWellFormed context then none
    else some context

def lengthPrefixed (value : JsString) : Option (List UInt8) := Bytes.withLength (utf8Of value)

/-- The associated data of one ciphertext. -/
def dataAad (realmId kid context : JsString) : Option (List UInt8) := do
  let realmId ← lengthPrefixed realmId
  let kid ← lengthPrefixed kid
  let context ← lengthPrefixed context
  return DATA_LABEL ++ [VERSION_BYTE] ++ realmId ++ kid ++ context

/-! ### What the encodings tell -/

variable {name : String} {value value' : Option JsString} {nullable : Bool}
  {bytes bytes' rest rest' : List UInt8}

/-- What a field is written as. -/
theorem field_eq_ok (h : field name value nullable = .ok bytes) :
    (value = none ∧ bytes = [ABSENT]) ∨
      ∃ text prefixed, value = some text ∧ isWellFormed text = true ∧
        Bytes.withLength (utf8Of text) = some prefixed ∧ bytes = PRESENT :: prefixed := by
  rw [field.eq_def] at h
  cases value with
  | none =>
    cases nullable with
    | false => cases h
    | true =>
      cases h
      exact .inl ⟨rfl, rfl⟩
  | some text =>
    dsimp only at h
    split_ifs at h with hempty hwell
    cases hprefixed : Bytes.withLength (utf8Of text) with
    | none =>
      rw [hprefixed] at h
      cases h
    | some prefixed =>
      rw [hprefixed] at h
      cases h
      exact .inr ⟨text, prefixed, rfl, by simpa using hwell, hprefixed, rfl⟩

/-- A field is read up to its end, and absence is no text. -/
theorem field_append_inj {name' : String} {nullable' : Bool} (h : field name value nullable = .ok bytes)
    (h' : field name' value' nullable' = .ok bytes') (heq : bytes ++ rest = bytes' ++ rest') :
    value = value' ∧ rest = rest' := by
  obtain ⟨rfl, rfl⟩ | ⟨text, prefixed, rfl, hwell, hprefixed, rfl⟩ := field_eq_ok h
  · obtain ⟨rfl, rfl⟩ | ⟨text', prefixed', rfl, -, -, rfl⟩ := field_eq_ok h'
    · exact ⟨rfl, List.append_cancel_left heq⟩
    · cases heq
  · obtain ⟨rfl, rfl⟩ | ⟨text', prefixed', rfl, hwell', hprefixed', rfl⟩ := field_eq_ok h'
    · cases heq
    · obtain ⟨htext, hrest⟩ :=
        Bytes.withLength_append_inj hprefixed hprefixed' (List.cons.inj heq).2
      exact ⟨congrArg some (eq_of_utf8Of_eq hwell hwell' htext), hrest⟩

/-- What an encoding is made of. -/
theorem encodeKeyAad_eq_ok {aad : KeyAad} (h : encodeKeyAad aad = .ok bytes) :
    aad.version = KEY_AAD_VERSION ∧ ∃ realmId purpose scopeId kid algorithm,
      field "realmId" (some aad.realmId) false = .ok realmId ∧
      field "purpose" (some aad.purpose) false = .ok purpose ∧
      field "scopeId" aad.scopeId true = .ok scopeId ∧
      field "kid" (some aad.kid) false = .ok kid ∧
      field "algorithm" (some aad.algorithm) false = .ok algorithm ∧
      bytes = KEY_LABEL ++ (UInt8.ofNat aad.version ::
        (realmId ++ (purpose ++ (scopeId ++ (kid ++ algorithm))))) := by
  rw [encodeKeyAad] at h
  obtain ⟨_, hversion, h⟩ := bind_eq_ok_iff.mp h
  obtain ⟨realmId, hrealm, h⟩ := bind_eq_ok_iff.mp h
  obtain ⟨purpose, hpurpose, h⟩ := bind_eq_ok_iff.mp h
  obtain ⟨scopeId, hscope, h⟩ := bind_eq_ok_iff.mp h
  obtain ⟨kid, hkid, h⟩ := bind_eq_ok_iff.mp h
  obtain ⟨algorithm, halgorithm, h⟩ := bind_eq_ok_iff.mp h
  have hversion : aad.version ∈ SUPPORTED_KEY_AAD_VERSIONS :=
    not_not.mp (refuseIf_eq_ok_iff.mp hversion)
  refine ⟨List.mem_singleton.mp hversion, realmId, purpose, scopeId, kid, algorithm, hrealm,
    hpurpose, hscope, hkid, halgorithm, ?_⟩
  rw [← pure_eq_ok_iff.mp h]
  simp only [List.append_assoc, List.cons_append, List.nil_append]

/-- One encoding is that of one identity. -/
theorem encodeKeyAad_injective {aad aad' : KeyAad} (h : encodeKeyAad aad = .ok bytes)
    (h' : encodeKeyAad aad' = .ok bytes) : aad = aad' := by
  obtain ⟨hversion, r, p, s, k, a, hr, hp, hs, hk, ha, rfl⟩ := encodeKeyAad_eq_ok h
  obtain ⟨hversion', r', p', s', k', a', hr', hp', hs', hk', ha', heq⟩ := encodeKeyAad_eq_ok h'
  have heq := (List.cons.inj (List.append_cancel_left heq)).2
  obtain ⟨hrealm, heq⟩ := field_append_inj hr hr' heq
  obtain ⟨hpurpose, heq⟩ := field_append_inj hp hp' heq
  obtain ⟨hscope, heq⟩ := field_append_inj hs hs' heq
  obtain ⟨hkid, heq⟩ := field_append_inj hk hk' heq
  obtain ⟨halgorithm, -⟩ := field_append_inj ha ha' (congrArg (· ++ []) heq)
  obtain ⟨⟨realmId, purpose, scopeId, kid, algorithm⟩, version⟩ := aad
  obtain ⟨⟨realmId', purpose', scopeId', kid', algorithm'⟩, version'⟩ := aad'
  cases hrealm
  cases hpurpose
  cases hscope
  cases hkid
  cases halgorithm
  cases hversion.trans hversion'.symm
  rfl

/-- What stored data is bound to. -/
theorem dataAad_eq_some {realmId kid context : JsString} (h : dataAad realmId kid context = some bytes) :
    ∃ r k c, lengthPrefixed realmId = some r ∧ lengthPrefixed kid = some k ∧
      lengthPrefixed context = some c ∧ bytes = DATA_LABEL ++ (VERSION_BYTE :: (r ++ (k ++ c))) := by
  rw [dataAad] at h
  obtain ⟨r, hr, h⟩ := Option.bind_eq_some_iff.mp h
  obtain ⟨k, hk, h⟩ := Option.bind_eq_some_iff.mp h
  obtain ⟨c, hc, h⟩ := Option.bind_eq_some_iff.mp h
  refine ⟨r, k, c, hr, hk, hc, ?_⟩
  rw [← Option.some.inj h]
  simp only [List.append_assoc, List.cons_append, List.nil_append]

/-- One encoding of well-formed texts is that of one realm, one key and one context. -/
theorem dataAad_injective {realmId kid context realmId' kid' context' : JsString}
    (hrealm : isWellFormed realmId = true) (hkid : isWellFormed kid = true)
    (hcontext : isWellFormed context = true) (hrealm' : isWellFormed realmId' = true)
    (hkid' : isWellFormed kid' = true) (hcontext' : isWellFormed context' = true)
    (h : dataAad realmId kid context = some bytes)
    (h' : dataAad realmId' kid' context' = some bytes) :
    realmId = realmId' ∧ kid = kid' ∧ context = context' := by
  obtain ⟨r, k, c, hr, hk, hc, rfl⟩ := dataAad_eq_some h
  obtain ⟨r', k', c', hr', hk', hc', heq⟩ := dataAad_eq_some h'
  have heq := (List.cons.inj (List.append_cancel_left heq)).2
  obtain ⟨hr, heq⟩ := Bytes.withLength_append_inj hr hr' heq
  obtain ⟨hk, heq⟩ := Bytes.withLength_append_inj hk hk' heq
  obtain ⟨hc, -⟩ := Bytes.withLength_append_inj hc hc' (congrArg (· ++ []) heq)
  exact ⟨eq_of_utf8Of_eq hrealm hrealm' hr, eq_of_utf8Of_eq hkid hkid' hk,
    eq_of_utf8Of_eq hcontext hcontext' hc⟩

/-- The two labels part at their seventh byte, so no encoding is of both kinds. -/
theorem encodeKeyAad_ne_dataAad {aad : KeyAad} {realmId kid context : JsString}
    (h : encodeKeyAad aad = .ok bytes) : dataAad realmId kid context ≠ some bytes := by
  intro h'
  obtain ⟨-, r, p, s, k, a, -, -, -, -, -, rfl⟩ := encodeKeyAad_eq_ok h
  obtain ⟨r', k', c', -, -, -, heq⟩ := dataAad_eq_some h'
  have htake := congrArg (List.take 7) heq
  rw [List.take_append_of_le_length (by decide),
    List.take_append_of_le_length (by decide)] at htake
  revert htake
  decide

theorem isWellFormed_of_resolveDataContext {context : Option JsString} {resolved : JsString}
    (h : resolveDataContext context = some resolved) : isWellFormed resolved = true := by
  cases context with
  | none =>
    cases h
    rfl
  | some context =>
    obtain ⟨hrefused, hresolved⟩ := Option.ite_none_left_eq_some.mp h
    rw [← Option.some.inj hresolved]
    simp only [Bool.or_eq_true, not_or] at hrefused
    simpa using hrefused.2

end QAuth.Keys
