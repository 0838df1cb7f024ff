import Mathlib.Algebra.Order.Field.Rat
import Mathlib.Algebra.Order.Group.Abs
import QAuth.Foundation.Base64Url
import QAuth.Foundation.Guards
import QAuth.Foundation.Json
import QAuth.Foundation.Text

/-!
# Checks of a DPoP proof

What `verify` asks of one request's proof before it turns to the replay store: one compact JWS, its
header, the key in it, the signature, the claims against the request, and the clock.
-/

namespace QAuth.Dpop

open Guards

/-- A number as `JSON.parse` returns it; `none` is an infinite one. -/
abbrev Value := Json.Value (Option ℚ)

/-! ### Algorithms -/

inductive DpopAlgorithm
  | ES256 | ES384 | ES512 | EdDSA | Ed25519 | PS256 | PS384 | PS512 | RS256 | RS384 | RS512
  deriving DecidableEq

namespace DpopAlgorithm

/-- `isDpopAlgorithm`. -/
def parse? : Value → Option DpopAlgorithm
  | .str "ES256" => some ES256
  | .str "ES384" => some ES384
  | .str "ES512" => some ES512
  | .str "EdDSA" => some EdDSA
  | .str "Ed25519" => some Ed25519
  | .str "PS256" => some PS256
  | .str "PS384" => some PS384
  | .str "PS512" => some PS512
  | .str "RS256" => some RS256
  | .str "RS384" => some RS384
  | .str "RS512" => some RS512
  | _ => none

/-- `KEY_TYPES`: the `kty`, and for EC and OKP the `crv`. -/
def keyType : DpopAlgorithm → String × Option String
  | ES256 => ("EC", some "P-256")
  | ES384 => ("EC", some "P-384")
  | ES512 => ("EC", some "P-521")
  | EdDSA | Ed25519 => ("OKP", some "Ed25519")
  | PS256 | PS384 | PS512 | RS256 | RS384 | RS512 => ("RSA", none)

def keyFitsAlgorithm (alg : DpopAlgorithm) (jwk : Value) : Bool :=
  jwk.member? "kty" = some (.str alg.keyType.1) &&
    match alg.keyType.2 with
    | none => true
    | some crv => jwk.member? "crv" = some (.str crv)

end DpopAlgorithm

/-! ### Refusals -/

inductive DpopRejectionReason
  | missingProof | multipleProofs | malformed | typ | alg | jwk | privateKey | signature | htm | htu
  | iat | jti | ath | claimsNotAllowed | keyMismatch | nonceRequired | nonceInvalid | replayed
  | replayStoreUnavailable
  deriving DecidableEq

/-- How a verification fails: the caller passed what it must not, or the proof is refused, with a
nonce for the next one where the failure is about a nonce. -/
inductive VerifyError
  | typeError (message : String)
  | refused (reason : DpopRejectionReason) (nonce : Option String)
  deriving DecidableEq

/-- `refuse(reason)`. -/
def refusal (reason : DpopRejectionReason) : VerifyError := .refused reason none

/-! ### The key -/

/-- The members that the thumbprint of a key hashes. -/
inductive PublicKeyMembers
  | EC (crv x y : String)
  | OKP (crv x : String)
  | RSA (e n : String)
  deriving DecidableEq

def PRIVATE_KEY_MEMBERS : List String := ["d", "p", "q", "dp", "dq", "qi", "oth", "k", "priv"]

def MAX_DPOP_RSA_MODULUS_BITS : ℕ := 4096

def MAX_RSA_EXPONENT_BYTES : ℕ := 4

/-- A text of base64url characters in its one canonical form, and its bytes. -/
def canonicalBytes : Option Value → Option (String × List UInt8)
  | some (.str value) =>
    let bytes := Base64Url.decode value.toList
    if value ≠ "" ∧ value.toList.all Base64Url.isDigit ∧ Base64Url.encode bytes = value.toList then
      some (value, bytes)
    else none
  | _ => none

def textMember (v : Value) (name : String) : Option String :=
  match v.member? name with
  | some (.str s) => some s
  | _ => none

/-- A modulus that is not zero and not too long. -/
def isModulus (modulus : List UInt8) : Bool :=
  let significant := modulus.dropWhile (· = 0)
  !significant.isEmpty && significant.length ≤ MAX_DPOP_RSA_MODULUS_BITS / 8

def publicKeyMembers (jwk : Value) : Option PublicKeyMembers :=
  match textMember jwk "kty" with
  | some "EC" => do
    let crv ← textMember jwk "crv"
    let x ← canonicalBytes (jwk.member? "x")
    let y ← canonicalBytes (jwk.member? "y")
    pure (.EC crv x.1 y.1)
  | some "OKP" => do
    let crv ← textMember jwk "crv"
    let x ← canonicalBytes (jwk.member? "x")
    pure (.OKP crv x.1)
  | some "RSA" => do
    let n ← canonicalBytes (jwk.member? "n")
    let e ← canonicalBytes (jwk.member? "e")
    if isModulus n.2 ∧ e.2.length ≤ MAX_RSA_EXPONENT_BYTES then pure (.RSA e.1 n.1) else none
  | _ => none

/-! ### The libraries -/

/-- What `new URL` reads of a text. -/
structure ParsedUrl where
  protocol : String
  username : String
  password : String
  host : String
  pathname : String

/-- Why `compactVerify` throws. -/
inductive JoseFailure
  | signatureVerificationFailed | typeError | other

/-- What `importJWK` makes of a key. -/
inductive ImportedKey
  | publicKey | otherKey
  deriving DecidableEq

/-- The JOSE library, the URL parser and the hash function. -/
structure Jose where
  decodeProtectedHeader : String → Option Value
  importJWK : PublicKeyMembers → DpopAlgorithm → Option ImportedKey
  /-- the payload's bytes, under the key -/
  compactVerify : String → PublicKeyMembers → DpopAlgorithm → Except JoseFailure (List UInt8)
  /-- the UTF-8 JSON that some bytes are -/
  parsePayload : List UInt8 → Option Value
  calculateJwkThumbprint : PublicKeyMembers → String
  /-- `createHash('sha256')` of a text, in base64url -/
  sha256 : String → String
  parseUrl : String → Option ParsedUrl

/-! ### The URL -/

/-- `[A-Za-z0-9\-._~]`. -/
def isUnreserved (c : Char) : Bool := c.isAlphanum || ['-', '.', '_', '~'].contains c

def hexDigits : List Char := "0123456789abcdef".toList

/-- `[0-9A-Fa-f]`. -/
def isHexDigit (c : Char) : Bool := hexDigits.contains c.toLower

/-- A percent-encoded character that needs no encoding is decoded, and every other encoding is
written in upper case. -/
def normalizePath : List Char → List Char
  | '%' :: a :: b :: rest =>
    if isHexDigit a && isHexDigit b then
      let c := Char.ofNat (16 * hexDigits.idxOf a.toLower + hexDigits.idxOf b.toLower)
      (if isUnreserved c then [c] else ['%', a.toUpper, b.toUpper]) ++ normalizePath rest
    else '%' :: normalizePath (a :: b :: rest)
  | c :: rest => c :: normalizePath rest
  | [] => []

def normalizeHtu (parseUrl : String → Option ParsedUrl) (value : String) : Option String :=
  match parseUrl value with
  | none => none
  | some url =>
    if url.protocol ≠ "https:" ∧ url.protocol ≠ "http:" then none
    else if url.username ≠ "" ∨ url.password ≠ "" then none
    else some (url.protocol ++ "//" ++ url.host ++ String.ofList (normalizePath url.pathname.toList))

/-- What follows the first `://`. -/
def afterScheme : List Char → Option (List Char)
  | ':' :: '/' :: '/' :: rest => some rest
  | _ :: rest => afterScheme rest
  | [] => none

/-- `segment.replace(/%2e/gi, '.')`. -/
def decodeDots : List Char → List Char
  | '%' :: '2' :: e :: rest =>
    if e = 'e' ∨ e = 'E' then '.' :: decodeDots rest else '%' :: '2' :: decodeDots (e :: rest)
  | c :: rest => c :: decodeDots rest
  | [] => []

def isDotSegment (segment : List Char) : Bool :=
  decodeDots segment = ['.'] || decodeDots segment = ['.', '.']

def hasPlainPath (url : String) : Bool :=
  match afterScheme url.toList with
  | none => false
  | some rest =>
    !rest.contains '\\' &&
      let path := (rest.dropWhile (· ≠ '/')).takeWhile fun c ↦ c ≠ '?' ∧ c ≠ '#'
      !(path.splitOn '/').any isDotSegment

/-! ### The checks -/

def DPOP_PROOF_TYP : String := "dpop+jwt"

def MAX_DPOP_PROOF_LENGTH : ℕ := 8192

def MAX_DPOP_JTI_LENGTH : ℕ := 256

def CLAIMS_NOT_ALLOWED : List String := ["sub", "cnf", "events"]

/-- One request's proof, and what it must match. -/
structure DpopProofCheck where
  /-- The values of the header. -/
  proof : List String
  method : String
  url : String
  accessToken : Option String
  expectedThumbprint : Option String
  requireNonce : Bool

/-- What a nonce source answers at the time of a request. -/
structure DpopNonceSource where
  current : String
  accepts : String → Bool

/-- Three base64url parts, none empty. -/
def isCompactJws (value : List Char) : Bool :=
  let parts := value.splitOn '.'
  parts.length = 3 && parts.all fun part ↦ !part.isEmpty && part.all Base64Url.isDigit

def singleProof (proof : List String) : Except VerifyError String :=
  match proof.filter fun value ↦ Text.trim value.toList ≠ [] with
  | [] => .error (refusal .missingProof)
  | [value] =>
    let value := Text.trim value.toList
    if value.contains ',' then .error (refusal .multipleProofs)
    else if MAX_DPOP_PROOF_LENGTH < Text.utf16Length (String.ofList value) ∨ !isCompactJws value then
      .error (refusal .malformed)
    else .ok (String.ofList value)
  | _ => .error (refusal .multipleProofs)

/-- The value is an object with no member of these names. -/
def hasNone (v : Value) (names : List String) : Bool := names.all fun name ↦ (v.member? name).isNone

def isObject : Value → Bool
  | .obj _ => true
  | _ => false

/-- A verifier, as it was created. -/
structure DpopVerifier where
  jose : Jose
  algorithms : List DpopAlgorithm
  iatWindowSeconds : ℕ
  algorithms_ne_nil : algorithms ≠ []
  window_pos : 0 < iatWindowSeconds

theorem minute_pos : 0 < 60 := by decide

/-- A proof that passed every check but the one for a replay. -/
structure CheckedProof where
  algorithm : DpopAlgorithm
  jwk : PublicKeyMembers
  jti : String
  /-- In seconds. -/
  issuedAt : ℚ
  nextNonce : Option String

/-- `iat` is a number within the window of the clock, which reads milliseconds. -/
def issuedWithin (windowSeconds : ℕ) (nowMs : ℤ) : Option Value → Option ℚ
  | some (.num (some iat)) => if |(nowMs : ℚ) / 1000 - iat| ≤ windowSeconds then some iat else none
  | _ => none

def checkNonce (nonces : Option DpopNonceSource) (check : DpopProofCheck) (claims : Value) :
    Except VerifyError (Option String) :=
  match nonces with
  | none => .ok none
  | some nonces =>
    if !check.requireNonce then .ok none
    else
      match claims.member? "nonce" with
      | none => .error (.refused .nonceRequired (some nonces.current))
      | some (.str nonce) =>
        if nonces.accepts nonce then .ok (some nonces.current)
        else .error (.refused .nonceInvalid (some nonces.current))
      | some _ => .error (.refused .nonceInvalid (some nonces.current))

namespace DpopVerifier

variable (v : DpopVerifier)

/-- The refusal for a failure of `compactVerify`. -/
def verifyRefusal : JoseFailure → VerifyError
  | .signatureVerificationFailed => refusal .signature
  | .typeError => refusal .jwk
  | .other => refusal .malformed

def checkHeader (proof : String) : Except VerifyError (DpopAlgorithm × PublicKeyMembers) := do
  let header ← require (v.jose.decodeProtectedHeader proof) (refusal .malformed)
  refuseIf (!isObject header ∨ !hasNone header ["crit", "b64"]) (refusal .malformed)
  refuseIf (header.member? "typ" ≠ some (.str DPOP_PROOF_TYP)) (refusal .typ)
  let alg ← require ((header.member? "alg").bind DpopAlgorithm.parse?) (refusal .alg)
  refuseIf (alg ∉ v.algorithms) (refusal .alg)
  let jwk ← require (header.member? "jwk") (refusal .jwk)
  refuseIf (!isObject jwk) (refusal .jwk)
  refuseIf (jwk.member? "kty" = some (.str "oct") ∨ !hasNone jwk PRIVATE_KEY_MEMBERS)
    (refusal .privateKey)
  refuseIf (!alg.keyFitsAlgorithm jwk) (refusal .jwk)
  let publicJwk ← require (publicKeyMembers jwk) (refusal .jwk)
  let key ← require (v.jose.importJWK publicJwk alg) (refusal .jwk)
  refuseIf (key ≠ .publicKey) (refusal .privateKey)
  pure (alg, publicJwk)

def readClaims (proof : String) (alg : DpopAlgorithm) (jwk : PublicKeyMembers) :
    Except VerifyError Value := do
  let payload ← (v.jose.compactVerify proof jwk alg).mapError verifyRefusal
  let claims ← require (v.jose.parsePayload payload) (refusal .malformed)
  refuseIf (!isObject claims) (refusal .malformed)
  refuseIf (!hasNone claims CLAIMS_NOT_ALLOWED) (refusal .claimsNotAllowed)
  pure claims

/-- The `jti` and the `iat`, with what stands between them checked against the request. -/
def checkClaims (nowMs : ℤ) (check : DpopProofCheck) (expectedUrl : String) (claims : Value) :
    Except VerifyError (String × ℚ) := do
  let jti ← require (textMember claims "jti") (refusal .jti)
  refuseIf (jti = "" ∨ MAX_DPOP_JTI_LENGTH < Text.utf16Length jti) (refusal .jti)
  refuseIf (claims.member? "htm" ≠ some (.str check.method)) (refusal .htm)
  refuseIf (!hasPlainPath check.url ∨
    (textMember claims "htu").bind (normalizeHtu v.jose.parseUrl) ≠ some expectedUrl) (refusal .htu)
  let iat ← require (issuedWithin v.iatWindowSeconds nowMs (claims.member? "iat")) (refusal .iat)
  pure (jti, iat)

/-- What `verify` checks before it records the proof. -/
def check (nonces : Option DpopNonceSource) (nowMs : ℤ) (check : DpopProofCheck) :
    Except VerifyError CheckedProof := do
  let expectedUrl ← require (normalizeHtu v.jose.parseUrl check.url)
    (.typeError "The URL to check a DPoP proof against must be an absolute http(s) URL")
  refuseIf (check.requireNonce ∧ nonces.isNone)
    (.typeError "A DPoP verifier without a nonce source cannot require a nonce")
  let proof ← singleProof check.proof
  let (alg, jwk) ← v.checkHeader proof
  let claims ← v.readClaims proof alg jwk
  let (jti, iat) ← v.checkClaims nowMs check expectedUrl claims
  refuseIf (∃ token ∈ check.accessToken, textMember claims "ath" ≠ some (v.jose.sha256 token))
    (refusal .ath)
  refuseIf (∃ thumbprint ∈ check.expectedThumbprint, v.jose.calculateJwkThumbprint jwk ≠ thumbprint)
    (refusal .keyMismatch)
  let nextNonce ← checkNonce nonces check claims
  pure ⟨alg, jwk, jti, iat, nextNonce⟩

/-- The key under which a proof is recorded. -/
def replayKey (proof : CheckedProof) : String :=
  v.jose.sha256 (v.jose.calculateJwkThumbprint proof.jwk ++ "." ++ proof.jti)

variable {v} {nonces : Option DpopNonceSource} {nowMs : ℤ} {request : DpopProofCheck}
  {proof : CheckedProof}

end DpopVerifier

end QAuth.Dpop
