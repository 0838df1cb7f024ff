import QAuth.Dpop.Proof
import QAuth.Foundation.Bytes
import QAuth.Foundation.Sha256
import QAuth.Foundation.Words

/-!
# One key and its thumbprint

A thumbprint hashes the members of a key as they are spelled. `publicKeyMembers` takes only the one
base64url spelling of some bytes, so no two texts of one thumbprint spell different keys. It does not
refuse a zero byte in front of a number: two headers that spell a key's numbers with different zeros
have different thumbprints.
-/

namespace QAuth.Dpop

open Guards

variable {m m' : PublicKeyMembers} {text : String} {jwk : Value}

/-! ### The key that the members spell -/

/-- A public key: its type, its curve, and its numbers. -/
structure HeldKey where
  kty : String
  crv : Option String
  numbers : List ℕ
deriving DecidableEq

namespace PublicKeyMembers

def kty : PublicKeyMembers → String
  | EC _ _ _ => "EC"
  | OKP _ _ => "OKP"
  | RSA _ _ => "RSA"

def crv? : PublicKeyMembers → Option String
  | EC crv _ _ | OKP crv _ => some crv
  | RSA _ _ => none

/-- The members that spell numbers. -/
def numbers : PublicKeyMembers → List String
  | EC _ x y => [x, y]
  | OKP _ x => [x]
  | RSA e n => [e, n]

/-- The bytes that a member spells. -/
def bytesOf (text : String) : List UInt8 := Base64Url.decode text.toList

/-- The key, each number read from its bytes, the highest first. -/
def heldKey (m : PublicKeyMembers) : HeldKey :=
  ⟨m.kty, m.crv?, m.numbers.map fun text ↦ Der.ofBytes (bytesOf text)⟩

/-- How many zero bytes stand in front of each number. -/
def zeros (m : PublicKeyMembers) : List ℕ :=
  m.numbers.map fun text ↦ Bytes.leadingZeros (bytesOf text)

theorem eq_of_parts (hkty : m.kty = m'.kty) (hcrv : m.crv? = m'.crv?)
    (hnumbers : m.numbers = m'.numbers) : m = m' := by
  cases m <;> cases m' <;> simp_all [kty, crv?, numbers]

end PublicKeyMembers

open PublicKeyMembers

/-! ### The text of a thumbprint -/

/-- A member of a JSON object, of a text that needs no escape. -/
def memberText (member : String × String) : List Char :=
  '"' :: member.1.toList ++ '"' :: ':' :: '"' :: member.2.toList ++ ['"']

/-- The members that a thumbprint hashes, in their order. -/
def thumbprintMembers : PublicKeyMembers → List (String × String)
  | .EC crv x y => [("crv", crv), ("kty", "EC"), ("x", x), ("y", y)]
  | .OKP crv x => [("crv", crv), ("kty", "OKP"), ("x", x)]
  | .RSA e n => [("e", e), ("kty", "RSA"), ("n", n)]

def thumbprintText (m : PublicKeyMembers) : List Char :=
  '\x7b' :: Words.join ',' ((thumbprintMembers m).map memberText) ++ ['\x7d']

/-- The thumbprint of a key, under a hash function. -/
def thumbprintUnder (digest : List UInt8 → List UInt8) (m : PublicKeyMembers) : String :=
  String.ofList (Base64Url.encode (digest (Text.utf8Bytes (thumbprintText m))))

/-! ### Members that a proof may have -/

/-- No quote and no comma. -/
def IsPlain (text : String) : Prop := '"' ∉ text.toList ∧ ',' ∉ text.toList

instance (text : String) : Decidable (IsPlain text) := inferInstanceAs (Decidable (_ ∧ _))

/-- The one spelling of some bytes. -/
structure IsCanonical (text : String) : Prop where
  digits : ∀ c ∈ text.toList, Base64Url.isDigit c = true
  spelled : Base64Url.encode (bytesOf text) = text.toList

/-- What holds of the members of every proof that passes. -/
structure Spelled (m : PublicKeyMembers) : Prop where
  crv : ∀ crv ∈ m.crv?, IsPlain crv
  numbers : ∀ text ∈ m.numbers, IsCanonical text

theorem IsCanonical.plain (h : IsCanonical text) : IsPlain text := by
  refine ⟨fun hmem ↦ ?_, fun hmem ↦ ?_⟩
  · exact absurd (h.digits _ hmem) (by decide)
  · exact absurd (h.digits _ hmem) (by decide)

theorem isCanonical_of_canonicalBytes {v : Option Value} {bytes : List UInt8}
    (h : canonicalBytes v = some (text, bytes)) : IsCanonical text := by
  rw [canonicalBytes.eq_def] at h
  split at h
  · obtain ⟨⟨-, hdigits, hspelled⟩, h⟩ := Option.ite_none_right_eq_some.mp h
    cases h
    exact ⟨List.all_eq_true.mp hdigits, hspelled⟩
  · cases h

theorem textMember_of_member? {name value : String} (h : jwk.member? name = some (.str value)) :
    textMember jwk name = some value := by
  rw [textMember, h]

/-- The curve of a key that fits an algorithm is one of the curves known here. -/
theorem plain_crv {alg : DpopAlgorithm} {crv : String} (hfits : alg.keyFitsAlgorithm jwk = true)
    (hkty : textMember jwk "kty" ≠ some "RSA") (hcrv : textMember jwk "crv" = some crv) :
    IsPlain crv := by
  obtain ⟨htype, hcurve⟩ := (Bool.and_eq_true _ _).mp hfits
  have htype := textMember_of_member? (of_decide_eq_true htype)
  have hknown : ∀ known, jwk.member? "crv" = some (.str known) → IsPlain known → IsPlain crv := by
    intro known hmember hplain
    rw [textMember_of_member? hmember] at hcrv
    cases hcrv
    exact hplain
  cases alg with
  | ES256 | ES384 | ES512 | EdDSA | Ed25519 =>
    exact hknown _ (of_decide_eq_true hcurve) (by decide)
  | PS256 | PS384 | PS512 | RS256 | RS384 | RS512 => exact absurd htype hkty

theorem spelled_of_publicKeyMembers {alg : DpopAlgorithm} (hfits : alg.keyFitsAlgorithm jwk = true)
    (h : publicKeyMembers jwk = some m) : Spelled m := by
  rw [publicKeyMembers] at h
  split at h
  · rename_i hkty
    obtain ⟨crv, hcrv, h⟩ := Option.bind_eq_some_iff.mp h
    obtain ⟨⟨x, xs⟩, hx, h⟩ := Option.bind_eq_some_iff.mp h
    obtain ⟨⟨y, ys⟩, hy, h⟩ := Option.bind_eq_some_iff.mp h
    cases h
    refine ⟨?_, ?_⟩
    · rintro _ ⟨⟩
      exact plain_crv hfits (by rw [hkty]; decide) hcrv
    · simpa [PublicKeyMembers.numbers] using
        ⟨isCanonical_of_canonicalBytes hx, isCanonical_of_canonicalBytes hy⟩
  · rename_i hkty
    obtain ⟨crv, hcrv, h⟩ := Option.bind_eq_some_iff.mp h
    obtain ⟨⟨x, xs⟩, hx, h⟩ := Option.bind_eq_some_iff.mp h
    cases h
    refine ⟨?_, ?_⟩
    · rintro _ ⟨⟩
      exact plain_crv hfits (by rw [hkty]; decide) hcrv
    · simpa [PublicKeyMembers.numbers] using isCanonical_of_canonicalBytes hx
  · obtain ⟨⟨n, ns⟩, hn, h⟩ := Option.bind_eq_some_iff.mp h
    obtain ⟨⟨e, es⟩, he, h⟩ := Option.bind_eq_some_iff.mp h
    obtain ⟨-, h⟩ := Option.ite_none_right_eq_some.mp h
    cases h
    refine ⟨nofun, ?_⟩
    simpa [PublicKeyMembers.numbers] using
      ⟨isCanonical_of_canonicalBytes he, isCanonical_of_canonicalBytes hn⟩
  · cases h

theorem spelled_of_checkHeader {v : DpopVerifier} {proof : String} {alg : DpopAlgorithm}
    (h : v.checkHeader proof = .ok (alg, m)) : Spelled m := by
  rw [DpopVerifier.checkHeader] at h
  obtain ⟨header, -, h⟩ := bind_eq_ok_iff.mp h
  obtain ⟨-, -, h⟩ := bind_eq_ok_iff.mp h
  obtain ⟨-, -, h⟩ := bind_eq_ok_iff.mp h
  obtain ⟨alg', -, h⟩ := bind_eq_ok_iff.mp h
  obtain ⟨-, -, h⟩ := bind_eq_ok_iff.mp h
  obtain ⟨jwk, -, h⟩ := bind_eq_ok_iff.mp h
  obtain ⟨-, -, h⟩ := bind_eq_ok_iff.mp h
  obtain ⟨-, -, h⟩ := bind_eq_ok_iff.mp h
  obtain ⟨_, hfits, h⟩ := bind_eq_ok_iff.mp h
  obtain ⟨members, hmembers, h⟩ := bind_eq_ok_iff.mp h
  obtain ⟨key, -, h⟩ := bind_eq_ok_iff.mp h
  obtain ⟨-, -, h⟩ := bind_eq_ok_iff.mp h
  cases h
  exact spelled_of_publicKeyMembers (by simpa using hfits) (require_eq_ok_iff.mp hmembers)

/-- The members of a proof that passes. -/
theorem spelled_of_check {v : DpopVerifier} {nonces : Option DpopNonceSource} {nowMs : ℤ}
    {request : DpopProofCheck} {proof : CheckedProof}
    (h : v.check nonces nowMs request = .ok proof) : Spelled proof.jwk := by
  rw [DpopVerifier.check] at h
  obtain ⟨expectedUrl, -, h⟩ := bind_eq_ok_iff.mp h
  obtain ⟨-, -, h⟩ := bind_eq_ok_iff.mp h
  obtain ⟨text, -, h⟩ := bind_eq_ok_iff.mp h
  obtain ⟨⟨alg, jwk⟩, hheader, h⟩ := bind_eq_ok_iff.mp h
  obtain ⟨claims, -, h⟩ := bind_eq_ok_iff.mp h
  obtain ⟨⟨jti, iat⟩, -, h⟩ := bind_eq_ok_iff.mp h
  obtain ⟨-, -, h⟩ := bind_eq_ok_iff.mp h
  obtain ⟨-, -, h⟩ := bind_eq_ok_iff.mp h
  obtain ⟨nextNonce, -, h⟩ := bind_eq_ok_iff.mp h
  cases h
  exact spelled_of_checkHeader hheader

/-! ### Texts tell members -/

theorem memberText_inj {a b : String × String} (ha : IsPlain a.1 ∧ IsPlain a.2)
    (hb : IsPlain b.1 ∧ IsPlain b.2) (h : memberText a = memberText b) : a = b := by
  rw [memberText, memberText, List.append_assoc, List.append_assoc, List.cons_append,
    List.cons_append] at h
  obtain ⟨hname, hrest⟩ := Words.append_cons_inj ha.1.1 hb.1.1 (List.cons.inj h).2
  have hvalue := (List.cons.inj (List.cons.inj hrest).2).2
  obtain ⟨hvalue, -⟩ := Words.append_cons_inj ha.2.1 hb.2.1 hvalue
  exact Prod.ext (String.toList_inj.mp hname) (String.toList_inj.mp hvalue)

theorem map_memberText_inj {as bs : List (String × String)}
    (has : ∀ a ∈ as, IsPlain a.1 ∧ IsPlain a.2) (hbs : ∀ b ∈ bs, IsPlain b.1 ∧ IsPlain b.2)
    (h : as.map memberText = bs.map memberText) : as = bs := by
  induction as generalizing bs with
  | nil => exact (List.map_eq_nil_iff.mp h.symm).symm
  | cons a as ih =>
    obtain ⟨b, bs, rfl, hhead, htail⟩ := List.map_eq_cons_iff.mp h.symm
    have heq := memberText_inj (has a List.mem_cons_self) (hbs b List.mem_cons_self) hhead.symm
    rw [heq, ih (fun x hx ↦ has x (List.mem_cons_of_mem _ hx))
      (fun x hx ↦ hbs x (List.mem_cons_of_mem _ hx)) htail.symm]

theorem splitOn_join_memberText {as : List (String × String)} (hne : as ≠ [])
    (has : ∀ a ∈ as, IsPlain a.1 ∧ IsPlain a.2) :
    (Words.join ',' (as.map memberText)).splitOn ',' = as.map memberText := by
  refine Words.splitOn_join (by simpa using hne) (List.forall_mem_map.mpr fun a ha ↦ ?_)
  obtain ⟨⟨-, hname⟩, -, hvalue⟩ := has a ha
  simp [memberText, hname, hvalue]

theorem plain_thumbprintMembers (h : Spelled m) :
    ∀ a ∈ thumbprintMembers m, IsPlain a.1 ∧ IsPlain a.2 := by
  have hnumbers : ∀ text ∈ m.numbers, IsPlain text := fun text htext ↦ (h.numbers text htext).plain
  have hcrv := h.crv
  cases m with
  | EC crv x y =>
    have hx := hnumbers x (by simp [PublicKeyMembers.numbers])
    have hy := hnumbers y (by simp [PublicKeyMembers.numbers])
    simpa [thumbprintMembers, hx, hy, hcrv crv rfl] using by decide
  | OKP crv x =>
    have hx := hnumbers x (by simp [PublicKeyMembers.numbers])
    simpa [thumbprintMembers, hx, hcrv crv rfl] using by decide
  | RSA e n =>
    have he := hnumbers e (by simp [PublicKeyMembers.numbers])
    have hn := hnumbers n (by simp [PublicKeyMembers.numbers])
    simpa [thumbprintMembers, he, hn] using by decide

/-- The members of a proof that passes are told by the text that their thumbprint hashes. -/
theorem thumbprintText_injective (h : Spelled m) (h' : Spelled m')
    (htext : thumbprintText m = thumbprintText m') : m = m' := by
  have hne : ∀ m, thumbprintMembers m ≠ [] := fun m ↦ by cases m <;> simp [thumbprintMembers]
  have hjoin := List.append_cancel_right (List.cons.inj htext).2
  have hmap : (thumbprintMembers m).map memberText = (thumbprintMembers m').map memberText := by
    rw [← splitOn_join_memberText (hne m) (plain_thumbprintMembers h), hjoin,
      splitOn_join_memberText (hne m') (plain_thumbprintMembers h')]
  have hmembers := map_memberText_inj (plain_thumbprintMembers h) (plain_thumbprintMembers h') hmap
  cases m <;> cases m' <;> simp_all [thumbprintMembers]

/-! ### Keys and thumbprints -/

/-- The spelling of some bytes is told by them. -/
theorem IsCanonical.eq_of_bytes {text' : String} (h : IsCanonical text) (h' : IsCanonical text')
    (hbytes : bytesOf text = bytesOf text') : text = text' := by
  rw [← String.toList_inj, ← h.spelled, ← h'.spelled, hbytes]

theorem numbers_eq_of_bytes {as bs : List String} (has : ∀ a ∈ as, IsCanonical a)
    (hbs : ∀ b ∈ bs, IsCanonical b)
    (hvalues : as.map (fun text ↦ Der.ofBytes (bytesOf text)) =
      bs.map fun text ↦ Der.ofBytes (bytesOf text))
    (hzeros : as.map (fun text ↦ Bytes.leadingZeros (bytesOf text)) =
      bs.map fun text ↦ Bytes.leadingZeros (bytesOf text)) : as = bs := by
  induction as generalizing bs with
  | nil => exact (List.map_eq_nil_iff.mp hvalues.symm).symm
  | cons a as ih =>
    obtain ⟨b, bs, rfl, hvalue, hvalues⟩ := List.map_eq_cons_iff.mp hvalues.symm
    obtain ⟨hzero, hzeros⟩ := List.cons.inj hzeros
    have hbytes : bytesOf a = bytesOf b := Bytes.eq_iff_ofBytes_eq.mpr ⟨hvalue.symm, hzero⟩
    rw [(has a List.mem_cons_self).eq_of_bytes (hbs b List.mem_cons_self) hbytes,
      ih (fun x hx ↦ has x (List.mem_cons_of_mem _ hx))
        (fun x hx ↦ hbs x (List.mem_cons_of_mem _ hx)) hvalues.symm hzeros]

/-- Members are told by the key they spell and the zeros in front of its numbers. -/
theorem eq_iff_heldKey_eq (h : Spelled m) (h' : Spelled m') :
    m = m' ↔ m.heldKey = m'.heldKey ∧ m.zeros = m'.zeros := by
  constructor
  · rintro rfl
    exact ⟨rfl, rfl⟩
  · rintro ⟨hkey, hzeros⟩
    rw [heldKey, heldKey, HeldKey.mk.injEq] at hkey
    obtain ⟨hkty, hcrv, hvalues⟩ := hkey
    exact eq_of_parts hkty hcrv (numbers_eq_of_bytes h.numbers h'.numbers hvalues hzeros)

/-- Of two proofs that pass, the thumbprints agree exactly where the keys do, if and only if the
proofs do not spell one key with different zeros in front of its numbers. The hash is that of RFC
7638, and the two texts are no collision of it. -/
theorem thumbprint_names_key_iff (v : DpopVerifier) (digest : List UInt8 → List UInt8)
    (hjose : v.jose.calculateJwkThumbprint = thumbprintUnder digest)
    (nonces nonces' : Option DpopNonceSource) (nowMs nowMs' : ℤ) (request request' : DpopProofCheck)
    (proof proof' : CheckedProof) (h : v.check nonces nowMs request = .ok proof)
    (h' : v.check nonces' nowMs' request' = .ok proof')
    (hfree : digest (Text.utf8Bytes (thumbprintText proof.jwk)) =
        digest (Text.utf8Bytes (thumbprintText proof'.jwk)) →
      Text.utf8Bytes (thumbprintText proof.jwk) = Text.utf8Bytes (thumbprintText proof'.jwk)) :
    (proof.jwk.heldKey = proof'.jwk.heldKey ↔
      v.jose.calculateJwkThumbprint proof.jwk = v.jose.calculateJwkThumbprint proof'.jwk) ↔
    ¬ (proof.jwk.heldKey = proof'.jwk.heldKey ∧ proof.jwk.zeros ≠ proof'.jwk.zeros) := by
  have hspelled := spelled_of_check h
  have hspelled' := spelled_of_check h'
  have hthumbprint : v.jose.calculateJwkThumbprint proof.jwk =
      v.jose.calculateJwkThumbprint proof'.jwk ↔ proof.jwk = proof'.jwk := by
    rw [hjose]
    refine ⟨fun heq ↦ ?_, fun heq ↦ by rw [heq]⟩
    have hdigest := Base64Url.encode_injective (String.ofList_injective heq)
    exact thumbprintText_injective hspelled hspelled' (Text.utf8Bytes_injective (hfree hdigest))
  rw [hthumbprint, eq_iff_heldKey_eq hspelled hspelled']
  tauto

/-! ### Samples -/

/-- What is spelled from bytes is read back. -/
theorem canonicalBytes_encode {bytes : List UInt8} (hne : Base64Url.encode bytes ≠ []) :
    canonicalBytes (some (.str (String.ofList (Base64Url.encode bytes)))) =
      some (String.ofList (Base64Url.encode bytes), bytes) := by
  have hdigits : (Base64Url.encode bytes).all Base64Url.isDigit = true :=
    List.all_eq_true.mpr fun c hc ↦ Base64Url.isDigit_of_mem_encode hc
  have htext : String.ofList (Base64Url.encode bytes) ≠ "" := fun h ↦
    hne (by simpa using congrArg String.toList h)
  simp [canonicalBytes, Base64Url.decode_encode, hdigits, htext]

/-- A modulus of 2048 bits. -/
def sampleModulus : List UInt8 := List.replicate 256 0xC5

/-- The text of some bytes. -/
def spelling (bytes : List UInt8) : String := String.ofList (Base64Url.encode bytes)

/-- An RSA key with an exponent. -/
def rsaJwk (exponent : List UInt8) : Value :=
  .obj [("kty", .str "RSA"), ("n", .str (spelling sampleModulus)), ("e", .str (spelling exponent))]

theorem publicKeyMembers_rsaJwk {exponent : List UInt8} (hne : Base64Url.encode exponent ≠ [])
    (hlength : exponent.length ≤ MAX_RSA_EXPONENT_BYTES) : publicKeyMembers (rsaJwk exponent) =
      some (.RSA (spelling exponent) (spelling sampleModulus)) := by
  have hmodulus : isModulus sampleModulus = true := by
    rw [isModulus, sampleModulus, List.replicate_succ, List.dropWhile_cons_of_neg (by decide)]
    rw [List.isEmpty_cons, List.length_cons, List.length_replicate]
    decide
  have hfilled : Base64Url.encode sampleModulus ≠ [] := by
    rw [← List.length_pos_iff, Base64Url.length_encode, sampleModulus, List.length_replicate]
    decide
  have hn : canonicalBytes ((rsaJwk exponent).member? "n") =
      some (spelling sampleModulus, sampleModulus) := canonicalBytes_encode hfilled
  have he : canonicalBytes ((rsaJwk exponent).member? "e") = some (spelling exponent, exponent) :=
    canonicalBytes_encode hne
  rw [publicKeyMembers]
  show (canonicalBytes _).bind _ = _
  rw [hn, Option.bind_some]
  show (canonicalBytes _).bind _ = _
  rw [he, Option.bind_some, if_pos ⟨hmodulus, hlength⟩]
  rfl

/-- The exponent 65537, the second time with a zero byte in front of it. -/
def sampleExponent (proof : String) : List UInt8 :=
  if proof = "h.first.s" then [1, 0, 1] else [0, 1, 0, 1]

def rsaJose : Jose where
  decodeProtectedHeader proof := some (.obj [("typ", .str "dpop+jwt"), ("alg", .str "PS256"),
    ("jwk", rsaJwk (sampleExponent proof))])
  importJWK _ _ := some .publicKey
  compactVerify _ _ _ := .ok []
  parsePayload _ := some (.obj [("jti", .str "jti"), ("htm", .str "POST"),
    ("htu", .str "https://as.example/token"), ("iat", .num (some 0))])
  calculateJwkThumbprint := thumbprintUnder Sha256.hash
  sha256 text := spelling (Sha256.hash (Text.utf8Bytes text.toList))
  parseUrl _ := some ⟨"https:", "", "", "as.example", "/token"⟩

def rsaVerifier : DpopVerifier where
  jose := rsaJose
  algorithms := [.PS256]
  iatWindowSeconds := 60
  algorithms_ne_nil := by simp
  window_pos := minute_pos

def rsaProof (proof : String) : CheckedProof :=
  ⟨.PS256, .RSA (spelling (sampleExponent proof)) (spelling sampleModulus), "jti", 0, none⟩

def rsaCheck (proof : String) : DpopProofCheck :=
  ⟨[proof], "POST", "https://as.example/token", none, none, false⟩

theorem rsa_check {proof : String} (hproof : singleProof [proof] = .ok proof) :
    rsaVerifier.check none 0 (rsaCheck proof) = .ok (rsaProof proof) := by
  have hexponent : Base64Url.encode (sampleExponent proof) ≠ [] ∧
      (sampleExponent proof).length ≤ MAX_RSA_EXPONENT_BYTES := by
    rw [sampleExponent]
    split <;> decide
  have hheader : rsaVerifier.checkHeader proof =
      .ok (.PS256, .RSA (spelling (sampleExponent proof)) (spelling sampleModulus)) := by
    rw [DpopVerifier.checkHeader]
    refine bind_eq_ok_iff.mpr ⟨_, rfl, ?_⟩
    iterate 2 refine bind_eq_ok_iff.mpr ⟨(), rfl, ?_⟩
    refine bind_eq_ok_iff.mpr ⟨.PS256, rfl, bind_eq_ok_iff.mpr ⟨(), rfl, ?_⟩⟩
    refine bind_eq_ok_iff.mpr ⟨rsaJwk (sampleExponent proof), rfl, ?_⟩
    iterate 3 refine bind_eq_ok_iff.mpr ⟨(), rfl, ?_⟩
    refine bind_eq_ok_iff.mpr ⟨_, require_eq_ok_iff.mpr
      (publicKeyMembers_rsaJwk hexponent.1 hexponent.2), ?_⟩
    exact bind_eq_ok_iff.mpr ⟨.publicKey, rfl, rfl⟩
  rw [DpopVerifier.check]
  refine bind_eq_ok_iff.mpr ⟨"https://as.example/token", rfl, bind_eq_ok_iff.mpr ⟨(), rfl, ?_⟩⟩
  refine bind_eq_ok_iff.mpr ⟨proof, hproof, bind_eq_ok_iff.mpr ⟨_, hheader, ?_⟩⟩
  refine bind_eq_ok_iff.mpr ⟨_, rfl, bind_eq_ok_iff.mpr ⟨("jti", 0), ?_, ?_⟩⟩
  · have hclaims : rsaVerifier.checkClaims 0 (rsaCheck "") "https://as.example/token"
        (.obj [("jti", .str "jti"), ("htm", .str "POST"), ("htu", .str "https://as.example/token"),
          ("iat", .num (some 0))]) = .ok ("jti", 0) := by
      decide +kernel
    exact hclaims
  · iterate 2 refine bind_eq_ok_iff.mpr ⟨(), by simp [rsaCheck], ?_⟩
    exact bind_eq_ok_iff.mpr ⟨none, rfl, rfl⟩

/-- The text of an RSA key that is spelled from bytes. -/
theorem thumbprintText_rsa (exponent modulus : List UInt8) :
    thumbprintText (.RSA (spelling exponent) (spelling modulus)) =
      "\x7b\"e\":\"".toList ++ Base64Url.encode exponent ++ "\",\"kty\":\"RSA\",\"n\":\"".toList ++
        Base64Url.encode modulus ++ "\"\x7d".toList := by
  simp [thumbprintText, thumbprintMembers, memberText, spelling, Words.join, String.toList_ofList]

/-- The two proofs are of one key, and their hashes differ. -/
theorem rsa_digests_ne :
    Sha256.hash (Text.utf8Bytes (thumbprintText (rsaProof "h.first.s").jwk)) ≠
      Sha256.hash (Text.utf8Bytes (thumbprintText (rsaProof "h.second.s").jwk)) := by
  have hfirst : sampleExponent "h.first.s" = [1, 0, 1] := by decide
  have hsecond : sampleExponent "h.second.s" = [0, 1, 0, 1] := by decide
  rw [rsaProof, rsaProof, hfirst, hsecond, thumbprintText_rsa, thumbprintText_rsa]
  decide +kernel

theorem thumbprint_names_key_sample :
    ((rsaProof "h.first.s").jwk.heldKey = (rsaProof "h.second.s").jwk.heldKey ↔
      rsaVerifier.jose.calculateJwkThumbprint (rsaProof "h.first.s").jwk =
        rsaVerifier.jose.calculateJwkThumbprint (rsaProof "h.second.s").jwk) ↔
    ¬ ((rsaProof "h.first.s").jwk.heldKey = (rsaProof "h.second.s").jwk.heldKey ∧
      (rsaProof "h.first.s").jwk.zeros ≠ (rsaProof "h.second.s").jwk.zeros) :=
  thumbprint_names_key_iff rsaVerifier Sha256.hash rfl none none 0 0 (rsaCheck "h.first.s")
    (rsaCheck "h.second.s") _ _ (rsa_check (by decide)) (rsa_check (by decide))
    fun h ↦ absurd h rsa_digests_ne

/-- One key with two thumbprints: a zero byte in front of the exponent is taken. -/
theorem one_key_two_thumbprints :
    rsaVerifier.check none 0 (rsaCheck "h.first.s") = .ok (rsaProof "h.first.s") ∧
      rsaVerifier.check none 0 (rsaCheck "h.second.s") = .ok (rsaProof "h.second.s") ∧
      (rsaProof "h.first.s").jwk.heldKey = (rsaProof "h.second.s").jwk.heldKey ∧
      rsaVerifier.jose.calculateJwkThumbprint (rsaProof "h.first.s").jwk ≠
        rsaVerifier.jose.calculateJwkThumbprint (rsaProof "h.second.s").jwk := by
  refine ⟨rsa_check (by decide), rsa_check (by decide), ?_, fun h ↦ rsa_digests_ne ?_⟩
  · have hbytes : ∀ bytes, bytesOf (spelling bytes) = bytes := fun bytes ↦ by
      rw [bytesOf, spelling, String.toList_ofList, Base64Url.decode_encode]
    simp only [rsaProof, heldKey, PublicKeyMembers.numbers, List.map_cons, hbytes]
    rfl
  · exact Base64Url.encode_injective (String.ofList_injective h)

end QAuth.Dpop
