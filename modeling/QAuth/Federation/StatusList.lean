import Mathlib.Data.Rat.Floor
import QAuth.Federation.AnchoredChain
import QAuth.Foundation.Double
import QAuth.Foundation.Guards
import QAuth.Foundation.Packed

/-!
# Status lists

The reference in a credential's `status` claim, the lookup in a packed status list and the
verification of a Status List Token, of `status-list-reference.ts`, `status-list-bits.ts` and
`status-list-token.ts`.
-/

namespace QAuth.Federation

open Guards Json

/-- Why the status path refused. -/
inductive CredentialStatusRejectionReason
  | statusRequiredButAbsent
  | malformedStatusClaim
  | uriNotPermitted
  | endpointUnavailable
  | circuitOpen
  | tokenUnverifiable
  | issuerUntrusted
  | listUnreadable
  | indexOutOfRange
  | revoked
  | suspended
  | statusUnknown
deriving DecidableEq

/-- The `typ` of a Status List Token. -/
def STATUS_LIST_TOKEN_TYP : String := "statuslist+jwt"

/-- The widths of entries. -/
def STATUS_LIST_BIT_WIDTHS : List ℕ := [1, 2, 4, 8]

/-- The only accepting value of an entry. -/
def CREDENTIAL_STATUS_VALID : ℕ := 0

/-- The value of the entry of a revoked credential. -/
def CREDENTIAL_STATUS_INVALID : ℕ := 1

/-- The value of the entry of a suspended credential. -/
def CREDENTIAL_STATUS_SUSPENDED : ℕ := 2

/-- Largest `lst` accepted, in characters. -/
def MAX_ENCODED_STATUS_LIST_BYTES : ℕ := 4 * 1024 * 1024

/-- Largest decompressed status list accepted, in bytes. -/
def MAX_DECOMPRESSED_STATUS_LIST_BYTES : ℕ := 16 * 1024 * 1024

/-- Largest Status List Token accepted, in bytes. -/
def MAX_STATUS_LIST_TOKEN_BYTES : ℕ := 6 * 1024 * 1024

/-- Longest protected header accepted, in characters. -/
def MAX_PROTECTED_HEADER_LENGTH : ℕ := 32 * 1024

/-- Longest `uri` accepted, in characters. -/
def MAX_STATUS_LIST_URI_LENGTH : ℕ := 2048

/-- The only algorithm of a Status List Token. -/
def REQUIRED_STATUS_LIST_ALG : String := "ES256"

/-! ### The reference -/

/-- A usable `status_list` reference. -/
structure StatusListReference where
  idx : ℕ
  uri : String
deriving DecidableEq

section Reference

variable {ν : Type} (R : Double.Rounding ν)

/-- The number as an index, where it is a non-negative safe integer. -/
def safeIndex (x : ν) : Option ℕ := do
  let q ← R.finite x
  if q.den = 1 ∧ 0 ≤ q.num ∧ q.num < 2 ^ 53 then some q.num.toNat else none

/-- Extract the `status_list` reference from a credential's `status` claim. -/
def parseStatusListReference (status : Value ν) : Option StatusListReference := do
  let statusList ← status.member? "status_list"
  let .num idx ← statusList.member? "idx" | none
  let idx ← safeIndex R idx
  let .str uri ← statusList.member? "uri" | none
  let trimmed := String.ofList (Text.trim uri.toList)
  if Text.utf16Length trimmed = 0 ∨ MAX_STATUS_LIST_URI_LENGTH < Text.utf16Length trimmed then none
  else some ⟨idx, trimmed⟩

/-- The index and the URI that a `status` claim names, the latter without white space around it. -/
structure References (status : Value ν) (reference : StatusListReference) : Prop where
  idx : ∃ x, status.at? ["status_list", "idx"] = some (.num x) ∧ R.finite x = some reference.idx
  uri : ∃ uri, status.at? ["status_list", "uri"] = some (.str uri) ∧
    reference.uri = String.ofList (Text.trim uri.toList)

variable {R}

theorem safeIndex_eq_some {x : ν} {idx : ℕ} (h : safeIndex R x = some idx) :
    R.finite x = some (idx : ℚ) ∧ idx < 2 ^ 53 := by
  simp only [safeIndex, Option.bind_eq_bind, Option.bind_eq_some_iff] at h
  obtain ⟨q, hq, h⟩ := h
  split at h
  · next hsafe =>
    obtain ⟨hden, hpos, hlt⟩ := hsafe
    cases h
    have hnum : (q.num.toNat : ℤ) = q.num := Int.toNat_of_nonneg hpos
    refine ⟨?_, by omega⟩
    rw [hq, ← Rat.num_div_den q, hden]
    have hcast : ((q.num.toNat : ℕ) : ℚ) = (q.num : ℚ) := by exact_mod_cast congrArg Int.cast hnum
    simp [hcast]
  · cases h

theorem references_of_parse {status : Value ν} {reference : StatusListReference}
    (h : parseStatusListReference R status = some reference) : References R status reference := by
  simp only [parseStatusListReference, Option.bind_eq_bind, Option.bind_eq_some_iff] at h
  obtain ⟨statusList, hlist, idx, hidx, h⟩ := h
  split at h
  · simp only [Option.bind_eq_some_iff] at h
    obtain ⟨i, hi, uri, huri, h⟩ := h
    split at h
    · split at h
      · cases h
      · cases h
        refine ⟨⟨_, ?_, (safeIndex_eq_some hi).1⟩, ⟨_, ?_, rfl⟩⟩
        · simp [Value.at?_cons, hlist, hidx]
        · simp [Value.at?_cons, hlist, huri]
    · cases h
  · cases h

end Reference

/-! ### The lookup -/

/-- The result of a lookup. -/
inductive StatusListLookup
  | found (status : ℕ)
  | outOfRange
  | unreadable

/-- The value of a character of the URL alphabet. -/
def urlSextet? (c : Char) : Option ℕ :=
  if c = '-' then some 62
  else if c = '_' then some 63
  else if c = '+' ∨ c = '/' then none
  else sextet? c

/-- Strictly decode an unpadded base64url string. -/
def decodeBase64Url (value : String) : Option (List UInt8) :=
  if Text.utf16Length value = 0 ∨ MAX_ENCODED_STATUS_LIST_BYTES < Text.utf16Length value then none
  else if !value.toList.all fun c ↦ (urlSextet? c).isSome then none
  else if value.toList.length % 4 = 1 then none
  else some (joinSextets (value.toList.filterMap urlSextet?))

section Lookup

/-- Inflate a compressed list under a bound on the output; `inflateSync` of `zlib` is given. -/
def inflateBounded (inflateSync : ℕ → List UInt8 → Option (List UInt8)) (compressed : List UInt8) :
    Option (List UInt8) :=
  inflateSync MAX_DECOMPRESSED_STATUS_LIST_BYTES compressed

variable (inflateSync : ℕ → List UInt8 → Option (List UInt8))

/-- Read the status entry at `idx` from an encoded status list. -/
def readStatusListEntry (lst : String) (bits idx : ℕ) : StatusListLookup :=
  if bits ∉ STATUS_LIST_BIT_WIDTHS then .unreadable
  else if 2 ^ 53 ≤ idx then .unreadable
  else
    match (decodeBase64Url lst).bind (inflateBounded inflateSync) with
    | none => .unreadable
    | some decoded =>
      let entriesPerByte := 8 / bits
      match decoded[idx / entriesPerByte]? with
      | none => .outOfRange
      | some byte => .found (byte.toNat >>> (idx % entriesPerByte * bits) &&& (1 <<< bits - 1))

/-- The list is an array of entries of so many bits, and the entry at `idx` is `status`. -/
structure EntryIs (lst : String) (bits idx status : ℕ) : Prop where
  width : bits ∈ STATUS_LIST_BIT_WIDTHS
  entry : ∃ compressed bytes, decodeBase64Url lst = some compressed ∧
    inflateBounded inflateSync compressed = some bytes ∧ idx * bits + bits ≤ 8 * bytes.length ∧
    Packed.entry bits bytes idx = status

variable {inflateSync}

/-- Every width fills a byte with whole entries. -/
theorem mul_entriesPerByte {bits : ℕ} (h : bits ∈ STATUS_LIST_BIT_WIDTHS) : bits * (8 / bits) = 8 := by
  revert bits
  decide

theorem readStatusListEntry_eq_found {lst : String} {bits idx status : ℕ}
    (h : readStatusListEntry inflateSync lst bits idx = .found status) :
    EntryIs inflateSync lst bits idx status := by
  rw [readStatusListEntry] at h
  by_cases hbits : bits ∈ STATUS_LIST_BIT_WIDTHS
  · rw [if_neg (not_not.mpr hbits)] at h
    by_cases hidx : 2 ^ 53 ≤ idx
    · rw [if_pos hidx] at h
      cases h
    · rw [if_neg hidx] at h
      split at h
      · cases h
      · next decoded hdecoded =>
        obtain ⟨compressed, hcompressed, hinflated⟩ := Option.bind_eq_some_iff.mp hdecoded
        refine ⟨hbits, compressed, decoded, hcompressed, hinflated, ?_⟩
        have hper := mul_entriesPerByte hbits
        dsimp only at h
        split at h
        · cases h
        · next byte hbyte =>
          obtain ⟨hlt, rfl⟩ := List.getElem?_eq_some_iff.mp hbyte
          have hpos : 0 < 8 / bits := Nat.pos_of_ne_zero (by intro h0; rw [h0] at hper; omega)
          have hle : idx < (8 / bits) * decoded.length :=
            (Nat.div_lt_iff_lt_mul hpos).mp hlt |>.trans_eq (Nat.mul_comm _ _)
          constructor
          · calc idx * bits + bits = bits * (idx + 1) := by ring
              _ ≤ bits * ((8 / bits) * decoded.length) := Nat.mul_le_mul_left _ hle
              _ = 8 * decoded.length := by rw [← Nat.mul_assoc, hper]
          · rw [← Packed.shiftRight_and_mask hper hlt]
            simpa [Nat.one_shiftLeft] using h
  · rw [if_pos hbits] at h
    cases h

end Lookup

/-! ### The token -/

/-- The verified contents of a Status List Token. -/
structure VerifiedStatusList where
  bits : ℕ
  lst : String
  issuer : String
  ttlSeconds : Option ℤ
  expiresAtMs : Option ℚ
deriving DecidableEq

/-- What Status List Tokens are verified with: the configuration, and the libraries' answers. -/
structure StatusVerifier (Cert Key PublicKey ν : Type) where
  numbers : Double.Rounding ν
  crypto : Crypto Cert Key
  anchors : List Cert
  clockToleranceSeconds : Option ν
  /-- the JSON that some base64url is, where it is any -/
  parseSegment : List Char → Option (Value ν)
  importPublicSigningKey : String → Option PublicKey
  /-- the claims and the protected header of a token that the key signed and that is current -/
  verifyWithHeader : String → PublicKey → ℤ → Option ν →
    Option (List (String × Value ν) × List (String × Value ν))
  /-- the protocol and the host of a URL -/
  parseUrl : String → Option (String × String)
  /-- `checkHost(host, { subject: 'never' })` finds the host -/
  checkHost : Cert → String → Bool
  signersFor : String → List String
  passesIssuerRegistry : String → Bool

section Token

variable {Cert Key PublicKey ν : Type} [DecidableEq ν] (V : StatusVerifier Cert Key PublicKey ν)

/-- Whether the leaf speaks for the issuer. -/
def certificateBindsIssuer (leaf : Cert) (issuer : String) : Bool :=
  match V.parseUrl issuer with
  | none => false
  | some (protocol, host) =>
    if protocol ≠ "https:" then false
    else if host = "" then false
    else V.checkHost leaf host

/-- Whether the signing certificate speaks for the list. -/
def certificateSpeaksForList (leaf : Cert) (listUri : String) : Bool :=
  certificateBindsIssuer V leaf listUri ||
    (V.signersFor listUri).any fun signer ↦ certificateBindsIssuer V leaf signer

/-- A character of the URL alphabet. -/
def isBase64Url (c : Char) : Bool := (urlSextet? c).isSome

/-- Decode the unverified protected header of a compact JWS. -/
def decodeUnverifiedProtectedHeader (token : String) : Option (List (String × Value ν)) :=
  match token.toList.splitOn '.' with
  | [encoded, _, _] =>
    if encoded = [] then none
    else if MAX_PROTECTED_HEADER_LENGTH < Text.utf16Length (String.ofList encoded) then none
    else if !encoded.all isBase64Url then none
    else
      match V.parseSegment encoded with
      | some (.obj header) => some header
      | _ => none
  | _ => none

def bitWidth? : Option (Value ν) → Option ℕ
  | some (.num x) => do
    let bits ← safeIndex V.numbers x
    if bits ∈ STATUS_LIST_BIT_WIDTHS then some bits else none
  | _ => none

/-- Read the `status_list` claim into its validated shape. -/
def readStatusListClaim (claims : List (String × Value ν)) : Option (ℕ × String) := do
  let statusList ← claims.lookup "status_list"
  let bits ← bitWidth? V (statusList.member? "bits")
  match statusList.member? "lst" with
  | some (.str lst) => if lst = "" then none else some (bits, lst)
  | _ => none

def finiteClaim (claims : List (String × Value ν)) (name : String) : Option ℚ :=
  match claims.lookup name with
  | some (.num x) => V.numbers.finite x
  | _ => none

/-- The number of seconds of a `ttl`, where it is positive. -/
def readTtl (claims : List (String × Value ν)) : Option ℤ := do
  let ttl ← finiteClaim V claims "ttl"
  if 0 < ttl then some ⌊ttl⌋ else none

/-- The refusal of a chain. -/
def chainRejection : ChainRejectionReason → CredentialStatusRejectionReason
  | .noPathToAnchor | .anchorInChain => .issuerUntrusted
  | _ => .tokenUnverifiable

def signingCertificate (header : List (String × Value ν)) (now : ℤ) :
    Except CredentialStatusRejectionReason (Cert × String) :=
  match resolveAnchoredSigningCertificate V.crypto ((header.lookup "x5c").getD .null) V.anchors now
    with
  | .rejected reason => .error (chainRejection reason)
  | .resolved leaf publicKeyPem => .ok (leaf, publicKeyPem)

/-- Verify a Status List Token end to end. -/
def verifyStatusListToken (token expectedUri : String) (now : ℤ) :
    Except CredentialStatusRejectionReason VerifiedStatusList := do
  refuseIf (token = "") .tokenUnverifiable
  refuseIf (MAX_STATUS_LIST_TOKEN_BYTES < token.utf8ByteSize) .tokenUnverifiable
  let unverifiedHeader ← require (decodeUnverifiedProtectedHeader V token) .tokenUnverifiable
  refuseIf (unverifiedHeader.lookup "alg" ≠ some (.str REQUIRED_STATUS_LIST_ALG)) .tokenUnverifiable
  let (leaf, publicKeyPem) ← signingCertificate V unverifiedHeader now
  let key ← require (V.importPublicSigningKey publicKeyPem) .tokenUnverifiable
  let (claims, protectedHeader) ←
    require (V.verifyWithHeader token key now V.clockToleranceSeconds) .tokenUnverifiable
  -- from the header that the signature covers
  refuseIf (protectedHeader.lookup "typ" ≠ some (.str STATUS_LIST_TOKEN_TYP)) .tokenUnverifiable
  refuseIf (claims.lookup "sub" ≠ some (.str expectedUri)) .tokenUnverifiable
  refuseIf (finiteClaim V claims "iat" = none) .tokenUnverifiable
  match claims.lookup "iss" with
  | some (.str issuer) =>
    refuseIf (issuer = "") .issuerUntrusted
    refuseIf (certificateBindsIssuer V leaf issuer = false) .issuerUntrusted
    refuseIf (certificateSpeaksForList V leaf expectedUri = false) .issuerUntrusted
    refuseIf (V.passesIssuerRegistry issuer = false) .issuerUntrusted
    let (bits, lst) ← require (readStatusListClaim V claims) .listUnreadable
    .ok ⟨bits, lst, issuer, readTtl V claims,
      (finiteClaim V claims "exp").map fun exp ↦ V.numbers.nearest (exp * 1000)⟩
  | _ => .error .issuerUntrusted

/-- A Status List Token for a URI, signed by a certificate that is anchored and speaks both for the
issuer and for the list, and what it says. -/
structure TokenVerified (token uri : String) (now : ℤ) (claims : List (String × Value ν))
    (statusList : VerifiedStatusList) : Prop where
  signed : ∃ unverified leaf pem key header,
    decodeUnverifiedProtectedHeader V token = some unverified ∧
    signingCertificate V unverified now = .ok (leaf, pem) ∧
    V.importPublicSigningKey pem = some key ∧
    V.verifyWithHeader token key now V.clockToleranceSeconds = some (claims, header) ∧
    header.lookup "typ" = some (.str STATUS_LIST_TOKEN_TYP) ∧
    certificateBindsIssuer V leaf statusList.issuer = true ∧
    certificateSpeaksForList V leaf uri = true
  sub : claims.lookup "sub" = some (.str uri)
  iss : claims.lookup "iss" = some (.str statusList.issuer)
  list : readStatusListClaim V claims = some (statusList.bits, statusList.lst)
  ttl : statusList.ttlSeconds = readTtl V claims
  exp : statusList.expiresAtMs =
    (finiteClaim V claims "exp").map fun exp ↦ V.numbers.nearest (exp * 1000)

variable {V}

omit [DecidableEq ν] in
/-- The header of a token of three segments, whatever the other two are. -/
theorem decodeUnverifiedProtectedHeader_of_segments {token : String}
    {encoded claims signature : List Char} {header : List (String × Value ν)}
    (htoken : token.toList = encoded ++ '.' :: (claims ++ '.' :: signature))
    (hencoded : '.' ∉ encoded) (hclaims : '.' ∉ claims) (hsignature : '.' ∉ signature)
    (hne : encoded ≠ [])
    (hlength : Text.utf16Length (String.ofList encoded) ≤ MAX_PROTECTED_HEADER_LENGTH)
    (hall : encoded.all isBase64Url = true) (hparse : V.parseSegment encoded = some (.obj header)) :
    decodeUnverifiedProtectedHeader V token = some header := by
  have hsplit : token.toList.splitOn '.' = [encoded, claims, signature] := by
    rw [htoken, List.splitOn_append_cons_self_of_not_mem hencoded,
      List.splitOn_append_cons_self_of_not_mem hclaims, List.splitOn_eq_singleton hsignature]
  rw [decodeUnverifiedProtectedHeader, hsplit]
  simp only [if_neg hne, if_neg (not_lt.mpr hlength), hall, Bool.not_true, hparse]
  rfl

/-- What the source verifies is a verified token for the URI. -/
theorem tokenVerified_of_verifyStatusListToken {token uri : String} {now : ℤ}
    {statusList : VerifiedStatusList} (h : verifyStatusListToken V token uri now = .ok statusList) :
    ∃ claims, TokenVerified V token uri now claims statusList := by
  simp only [verifyStatusListToken, bind_eq_ok_iff, refuseIf_eq_ok_iff, require_eq_ok_iff,
    Prod.exists, ne_eq, not_not] at h
  obtain ⟨-, -, -, -, header, hheader, -, -, leaf, pem, hchain, key, hkey, claims,
    protectedHeader, hverify, -, htyp, -, hsub, -, -, h⟩ := h
  split at h
  · next issuer hiss =>
    simp only [bind_eq_ok_iff, refuseIf_eq_ok_iff, require_eq_ok_iff, Prod.exists,
      Bool.not_eq_false, Except.ok.injEq] at h
    obtain ⟨-, -, -, hbinds, -, hspeaks, -, -, bits, lst, hlist, rfl⟩ := h
    exact ⟨claims, ⟨⟨header, leaf, pem, key, protectedHeader, hheader, hchain, hkey, hverify, htyp,
      hbinds, hspeaks⟩, hsub, hiss, hlist, rfl, rfl⟩⟩
  · cases h

end Token

end QAuth.Federation
