import Mathlib.Data.List.Chain
import QAuth.Federation.Certificate
import QAuth.Foundation.Json
import QAuth.Foundation.Text

/-!
# Chains to a configured anchor

`resolveAnchoredSigningCertificate` of `anchored-chain.ts` and the certification paths of RFC 5280,
apart from revocation, name constraints and policies. What `node:crypto` answers about certificates
and keys is a parameter.
-/

namespace QAuth.Federation

open Json

/-- What `node:crypto` answers about certificates and their keys. -/
structure Crypto (Cert Key : Type) where
  /-- `new X509Certificate(der)`, where it does not throw -/
  parse : List UInt8 → Option Cert
  /-- what a certificate encodes; `raw` is its bytes -/
  content : Cert → DerCertificate
  content_size : ∀ c, (content c).bytes.length < 256 ^ 4
  validFromDate : Cert → Option ℤ
  validToDate : Cert → Option ℤ
  ca : Cert → Bool
  publicKey : Cert → Key
  /-- whether the first one names the second as its issuer -/
  checkIssued : Cert → Cert → Bool
  /-- whether the key signed the certificate; nothing where the check throws -/
  verify : Cert → Key → Option Bool
  asymmetricKeyType : Key → String
  namedCurve : Key → Option String
  exportPem : Key → String
  /-- the fields that have no accessor -/
  subject : Cert → List UInt8
  issuer : Cert → List UInt8
  pathLenConstraint : Cert → Option ℕ

/-- The encoding of a certificate. -/
def Crypto.raw {Cert Key : Type} (C : Crypto Cert Key) (c : Cert) : List UInt8 := (C.content c).bytes

/-- Why a chain is refused. -/
inductive ChainRejectionReason
  | malformedX5c
  | selfSignedLeaf
  | certificateExpired
  | brokenLink
  | anchorInChain
  | noPathToAnchor
  | unsupportedLeafKey
  | leafNotSigningCapable
deriving DecidableEq

/-- The result of resolving a signing certificate. -/
inductive ChainResolution (Cert : Type)
  | resolved (leaf : Cert) (publicKeyPem : String)
  | rejected (reason : ChainRejectionReason)
deriving DecidableEq

/-! ### Base64 -/

/-- Largest chain accepted, in certificates. -/
def MAX_CHAIN_LENGTH : ℕ := 8

/-- Largest single entry accepted, in base64 characters. -/
def MAX_CERTIFICATE_BASE64_LENGTH : ℕ := 16 * 1024

/-- The value of a character of the standard alphabet. -/
def sextet? (c : Char) : Option ℕ :=
  if c.isUpper then some (c.toNat - 'A'.toNat)
  else if c.isLower then some (c.toNat - 'a'.toNat + 26)
  else if c.isDigit then some (c.toNat - '0'.toNat + 52)
  else if c = '+' then some 62
  else if c = '/' then some 63
  else none

/-- The bytes of a run of six-bit values. -/
def joinSextets : List ℕ → List UInt8
  | a :: b :: c :: d :: rest =>
    let n := ((a * 64 + b) * 64 + c) * 64 + d
    UInt8.ofNat (n / 65536) :: UInt8.ofNat (n / 256) :: UInt8.ofNat n :: joinSextets rest
  | [a, b, c] =>
    let n := (a * 64 + b) * 64 + c
    [UInt8.ofNat (n / 1024), UInt8.ofNat (n / 4)]
  | [a, b] => [UInt8.ofNat ((a * 64 + b) / 16)]
  | _ => []

/-- Strictly decode a base64 entry: `/^[A-Za-z0-9+/]+={0,2}$/`, of a length that is a multiple of 4. -/
def decodeCertificateEntry {ν : Type} : Value ν → Option (List UInt8)
  | .str entry =>
    let chars := entry.toList
    let body := chars.takeWhile fun c ↦ (sextet? c).isSome
    if entry = "" ∨ MAX_CERTIFICATE_BASE64_LENGTH < Text.utf16Length entry then none
    else if body = [] ∨ chars.drop body.length ∉ [[], ['='], ['=', '=']] then none
    else if chars.length % 4 ≠ 0 then none
    else some (joinSextets (body.filterMap sextet?))
  | _ => none

/-! ### The source's checks -/

section Source

variable {Cert Key ν : Type} (C : Crypto Cert Key)

def parseEntry (entry : Value ν) : Option Cert := do
  let der ← decodeCertificateEntry entry
  if hasPlainKeyParameters der then C.parse der else none

/-- Parse an `x5c` array into certificates. -/
def parseChain : Value ν → Option (List Cert)
  | .arr entries =>
    if entries.length = 0 ∨ MAX_CHAIN_LENGTH < entries.length then none
    else entries.mapM (parseEntry C)
  | _ => none

/-- The certificate is inside its validity window. -/
def isTemporallyValid (c : Cert) (now : ℤ) : Bool :=
  match C.validFromDate c, C.validToDate c with
  | some notBefore, some notAfter => decide (notBefore ≤ now) && decide (now ≤ notAfter)
  | _, _ => false

/-- The child names the issuer, and the issuer's key signed it. -/
def isIssuedBy (child issuer : Cert) : Bool :=
  C.checkIssued child issuer && (C.verify child (C.publicKey issuer)).getD false

/-- The certificate verifies under its own key. -/
def isSelfSigned (c : Cert) : Bool := (C.verify c (C.publicKey c)).getD false

/-- The leaf's key is the EC P-256 key that an `ES256` signature requires. -/
def hasEs256LeafKey (leaf : Cert) : Bool :=
  C.asymmetricKeyType (C.publicKey leaf) == "ec" &&
    C.namedCurve (C.publicKey leaf) == some "prime256v1"

/-- One of the anchors is the certificate, byte for byte. -/
def isAnchor (anchors : List Cert) (c : Cert) : Bool :=
  anchors.any fun anchor ↦ C.raw anchor == C.raw c

/-- The first certificate outside its validity, or that is an anchor. -/
def checkCertificates (anchors : List Cert) (now : ℤ) : List Cert → Option ChainRejectionReason
  | [] => none
  | c :: rest =>
    if !isTemporallyValid C c now then some .certificateExpired
    else if isAnchor C anchors c then some .anchorInChain
    else checkCertificates anchors now rest

/-- The first certificate that its neighbour did not issue. -/
def checkLinks : List Cert → Option ChainRejectionReason
  | child :: parent :: rest =>
    -- an intermediate that is not a CA cannot issue
    if !C.ca parent then some .brokenLink
    else if !isIssuedBy C child parent then some .brokenLink
    else checkLinks (parent :: rest)
  | _ => none

/-- Some anchor issued the last certificate of the chain. -/
def isAnchored (anchors : List Cert) (now : ℤ) (top : Cert) : Bool :=
  anchors.any fun anchor ↦ C.ca anchor && isTemporallyValid C anchor now && isIssuedBy C top anchor

/-- Resolve a signing key from an `x5c` header. -/
def resolveAnchoredSigningCertificate (x5c : Value ν) (anchors : List Cert) (now : ℤ) :
    ChainResolution Cert :=
  match parseChain C x5c with
  | none | some [] => .rejected .malformedX5c
  | some (leaf :: rest) =>
    if isSelfSigned C leaf then .rejected .selfSignedLeaf
    else
      match checkCertificates C anchors now (leaf :: rest) with
      | some reason => .rejected reason
      | none =>
        match checkLinks C (leaf :: rest) with
        | some reason => .rejected reason
        | none =>
          if !isAnchored C anchors now ((leaf :: rest).getLast (List.cons_ne_nil leaf rest)) then
            .rejected .noPathToAnchor
          else if !hasEs256LeafKey C leaf then .rejected .unsupportedLeafKey
          else if !leafMaySign (C.raw leaf) then .rejected .leafNotSigningCapable
          else .resolved leaf (C.exportPem (C.publicKey leaf))

end Source

/-! ### Certification paths -/

section Paths

variable {Cert Key ν : Type} (C : Crypto Cert Key)

/-- The issuer is a CA, the child names it, and its key signed the child. -/
structure Issues (child issuer : Cert) : Prop where
  ca : C.ca issuer = true
  named : C.checkIssued child issuer = true
  signed : C.verify child (C.publicKey issuer) = some true

/-- The moment is inside the validity of the certificate. -/
def ValidAt (now : ℤ) (c : Cert) : Prop :=
  ∃ notBefore ∈ C.validFromDate c, ∃ notAfter ∈ C.validToDate c, notBefore ≤ now ∧ now ≤ notAfter

/-- The certificate is not issued under its own name, and so counts towards a path length. -/
def countsInPath (c : Cert) : Bool := C.subject c != C.issuer c

/-- No certificate of the path has more intermediate certificates between it and the leaf than its
`pathLenConstraint` allows, those issued under their own name apart. -/
def PathLengths (path : List Cert) : Prop :=
  ∀ below c above, path = below ++ c :: above → ∀ n ∈ C.pathLenConstraint c,
    below.tail.countP (countsInPath C) ≤ n

/-- A certification path, from the leaf to the anchor. -/
structure ValidPath (now : ℤ) (path : List Cert) : Prop where
  issued : path.IsChain (Issues C)
  valid : ∀ c ∈ path, ValidAt C now c
  lengths : PathLengths C path

/-- The leaf has a P-256 key and, where it says what the key is for, `digitalSignature`. -/
structure SigningLeaf (leaf : Cert) : Prop where
  keyType : C.asymmetricKeyType (C.publicKey leaf) = "ec"
  curve : C.namedCurve (C.publicKey leaf) = some "prime256v1"
  usage : ∀ bits ∈ (C.content leaf).keyUsage, digitalSignature bits = true

/-- No certificate of the chain is an anchor. -/
def Outside (anchors chain : List Cert) : Prop :=
  ∀ c ∈ chain, ∀ anchor ∈ anchors, C.raw anchor ≠ C.raw c

def AnchoredPath (anchors : List Cert) (now : ℤ) (leaf : Cert) (chain : List Cert) : Prop :=
  chain.head? = some leaf ∧ SigningLeaf C leaf ∧ Outside C anchors chain ∧
    ∃ anchor ∈ anchors, ValidPath C now (chain ++ [anchor])

/-- Everything the source checks of a chain and an anchor behind it. -/
structure Checked (anchors : List Cert) (now : ℤ) (leaf : Cert) (chain : List Cert)
    (anchor : Cert) : Prop where
  head : chain.head? = some leaf
  selfSigned : C.verify leaf (C.publicKey leaf) ≠ some true
  signing : SigningLeaf C leaf
  outside : Outside C anchors chain
  issued : (chain ++ [anchor]).IsChain (Issues C)
  valid : ∀ c ∈ chain ++ [anchor], ValidAt C now c

end Paths

/-! ### What resolves is checked -/

section Resolve

variable {Cert Key ν : Type} {C : Crypto Cert Key} {anchors chain : List Cert} {now : ℤ}

theorem isTemporallyValid_iff {c : Cert} : isTemporallyValid C c now = true ↔ ValidAt C now c := by
  unfold isTemporallyValid ValidAt
  cases C.validFromDate c <;> cases C.validToDate c <;> simp

theorem isIssuedBy_iff {child issuer : Cert} :
    isIssuedBy C child issuer = true ↔
      C.checkIssued child issuer = true ∧ C.verify child (C.publicKey issuer) = some true := by
  unfold isIssuedBy
  rcases C.verify child (C.publicKey issuer) with _ | b <;> simp

theorem isSelfSigned_iff {c : Cert} :
    isSelfSigned C c = true ↔ C.verify c (C.publicKey c) = some true := by
  unfold isSelfSigned
  rcases C.verify c (C.publicKey c) with _ | b <;> simp

theorem issues_iff {child issuer : Cert} :
    Issues C child issuer ↔ C.ca issuer = true ∧ isIssuedBy C child issuer = true := by
  rw [isIssuedBy_iff]
  exact ⟨fun h ↦ ⟨h.ca, h.named, h.signed⟩, fun h ↦ ⟨h.1, h.2.1, h.2.2⟩⟩

theorem checkCertificates_eq_none_iff :
    checkCertificates C anchors now chain = none ↔
      (∀ c ∈ chain, ValidAt C now c) ∧ Outside C anchors chain := by
  induction chain with
  | nil => simp [checkCertificates, Outside]
  | cons c rest ih =>
    have hanchor : isAnchor C anchors c = false ↔ ∀ anchor ∈ anchors, C.raw anchor ≠ C.raw c := by
      simp [isAnchor]
    rw [checkCertificates]
    by_cases hvalid : isTemporallyValid C c now = true
    · rw [hvalid, Bool.not_true, if_neg Bool.false_ne_true]
      cases ha : isAnchor C anchors c with
      | true =>
        rw [if_pos rfl]
        simp only [reduceCtorEq, false_iff, not_and]
        intro _ hout
        rw [hanchor.mpr (hout c List.mem_cons_self)] at ha
        cases ha
      | false =>
        rw [if_neg Bool.false_ne_true, ih]
        have hout := hanchor.mp ha
        simp only [List.forall_mem_cons, Outside, isTemporallyValid_iff.mp hvalid, true_and]
        exact and_congr_right fun _ ↦ ⟨fun h ↦ ⟨hout, h⟩, fun h ↦ h.2⟩
    · rw [Bool.not_eq_true] at hvalid
      rw [hvalid, Bool.not_false, if_pos rfl]
      simp only [reduceCtorEq, false_iff, not_and]
      intro hall
      rw [isTemporallyValid_iff.mpr (hall c List.mem_cons_self)] at hvalid
      cases hvalid

theorem checkLinks_eq_none_iff : checkLinks C chain = none ↔ chain.IsChain (Issues C) := by
  induction chain with
  | nil => simp [checkLinks]
  | cons child rest ih =>
    cases rest with
    | nil => simp [checkLinks]
    | cons parent rest =>
      rw [checkLinks, List.isChain_cons_cons, issues_iff, ← ih]
      cases C.ca parent <;> cases isIssuedBy C child parent <;> simp

theorem isAnchored_iff {top : Cert} :
    isAnchored C anchors now top = true ↔
      ∃ anchor ∈ anchors, Issues C top anchor ∧ ValidAt C now anchor := by
  simp only [isAnchored, List.any_eq_true, Bool.and_eq_true, isTemporallyValid_iff, issues_iff]
  constructor
  · rintro ⟨anchor, hmem, ⟨hca, hvalid⟩, hissued⟩
    exact ⟨anchor, hmem, ⟨hca, hissued⟩, hvalid⟩
  · rintro ⟨anchor, hmem, ⟨hca, hissued⟩, hvalid⟩
    exact ⟨anchor, hmem, ⟨hca, hvalid⟩, hissued⟩

theorem signingLeaf_iff {leaf : Cert} :
    SigningLeaf C leaf ↔ hasEs256LeafKey C leaf = true ∧ leafMaySign (C.raw leaf) = true := by
  rw [Crypto.raw, DerCertificate.leafMaySign_bytes _ (C.content_size leaf)]
  simp only [hasEs256LeafKey, Bool.and_eq_true, beq_iff_eq]
  exact ⟨fun h ↦ ⟨⟨h.keyType, h.curve⟩, h.usage⟩, fun h ↦ ⟨h.1.1, h.1.2, h.2⟩⟩

/-- The links of a chain with an anchor behind it. -/
theorem isChain_concat_iff {leaf anchor : Cert} {rest : List Cert} :
    (leaf :: rest ++ [anchor]).IsChain (Issues C) ↔
      (leaf :: rest).IsChain (Issues C) ∧
        Issues C ((leaf :: rest).getLast (List.cons_ne_nil leaf rest)) anchor := by
  rw [List.isChain_append]
  simp only [List.IsChain.singleton, true_and, List.head?_cons, Option.mem_some_iff, forall_eq']
  rw [List.getLast?_eq_some_getLast (List.cons_ne_nil leaf rest)]
  simp

theorem resolve_cons_iff {x5c : Value ν} {first leaf : Cert} {rest : List Cert} {pem : String}
    (hparse : parseChain C x5c = some (first :: rest)) :
    resolveAnchoredSigningCertificate C x5c anchors now = .resolved leaf pem ↔
      (isSelfSigned C first = false ∧ checkCertificates C anchors now (first :: rest) = none ∧
        checkLinks C (first :: rest) = none ∧
        isAnchored C anchors now ((first :: rest).getLast (List.cons_ne_nil first rest)) = true ∧
        hasEs256LeafKey C first = true ∧ leafMaySign (C.raw first) = true) ∧
      first = leaf ∧ C.exportPem (C.publicKey first) = pem := by
  unfold resolveAnchoredSigningCertificate
  rw [hparse]
  dsimp only
  generalize isSelfSigned C first = selfSigned
  generalize checkCertificates C anchors now (first :: rest) = outOfDate
  generalize checkLinks C (first :: rest) = broken
  generalize isAnchored C anchors now _ = anchored
  generalize hasEs256LeafKey C first = es256
  generalize leafMaySign (C.raw first) = maySign
  cases selfSigned <;> cases outOfDate <;> cases broken <;> cases anchored <;> cases es256 <;>
    cases maySign <;> simp

/-- A checked chain passes the checks, and the other way round. -/
theorem exists_checked_iff {first leaf : Cert} {rest : List Cert} :
    (∃ anchor ∈ anchors, Checked C anchors now leaf (first :: rest) anchor) ↔
      (isSelfSigned C first = false ∧ checkCertificates C anchors now (first :: rest) = none ∧
        checkLinks C (first :: rest) = none ∧
        isAnchored C anchors now ((first :: rest).getLast (List.cons_ne_nil first rest)) = true ∧
        hasEs256LeafKey C first = true ∧ leafMaySign (C.raw first) = true) ∧ first = leaf := by
  rw [checkCertificates_eq_none_iff, checkLinks_eq_none_iff, isAnchored_iff, ← signingLeaf_iff,
    ← Bool.not_eq_true, isSelfSigned_iff]
  constructor
  · rintro ⟨anchor, hmem, h⟩
    obtain rfl : first = leaf := by simpa using h.head
    obtain ⟨hlinks, htop⟩ := isChain_concat_iff.mp h.issued
    have hvalid := h.valid
    simp only [List.mem_append, List.mem_singleton] at hvalid
    exact ⟨⟨h.selfSigned, ⟨fun c hc ↦ hvalid c (.inl hc), h.outside⟩, hlinks,
      ⟨anchor, hmem, htop, hvalid anchor (.inr rfl)⟩, h.signing⟩, rfl⟩
  · rintro ⟨⟨hself, ⟨hvalid, houtside⟩, hlinks, ⟨anchor, hmem, htop, hanchor⟩, hsigning⟩, rfl⟩
    refine ⟨anchor, hmem, rfl, hself, hsigning, houtside, isChain_concat_iff.mpr ⟨hlinks, htop⟩, ?_⟩
    intro c hc
    rcases List.mem_append.mp hc with hc | hc
    · exact hvalid c hc
    · obtain rfl := List.mem_singleton.mp hc
      exact hanchor

theorem resolve_eq_resolved_iff {x5c : Value ν} {leaf : Cert} {pem : String} :
    resolveAnchoredSigningCertificate C x5c anchors now = .resolved leaf pem ↔
      pem = C.exportPem (C.publicKey leaf) ∧
        ∃ chain, parseChain C x5c = some chain ∧
          ∃ anchor ∈ anchors, Checked C anchors now leaf chain anchor := by
  rcases hparse : parseChain C x5c with _ | _ | ⟨first, rest⟩
  · simp [resolveAnchoredSigningCertificate, hparse]
  · simp only [resolveAnchoredSigningCertificate, hparse, reduceCtorEq, false_iff, not_and,
      Option.some.injEq]
    rintro - ⟨_, rfl, anchor, -, h⟩
    exact absurd h.head (by simp)
  · rw [resolve_cons_iff hparse]
    constructor
    · rintro ⟨hchecks, rfl, rfl⟩
      exact ⟨rfl, _, rfl, exists_checked_iff.mpr ⟨hchecks, rfl⟩⟩
    · rintro ⟨rfl, _, hchain, hchecked⟩
      cases hchain
      obtain ⟨hchecks, rfl⟩ := exists_checked_iff.mp hchecked
      exact ⟨hchecks, rfl, rfl⟩

def KeepsPathLengths (C : Crypto Cert Key) (anchors : List Cert) (now : ℤ) (x5c : Value ν) : Prop :=
  ∀ chain, parseChain C x5c = some chain → ∀ leaf, ∀ anchor ∈ anchors,
    Checked C anchors now leaf chain anchor →
      ∃ other ∈ anchors, Checked C anchors now leaf chain other ∧
        PathLengths C (chain ++ [other])

/-- What the source resolves is a certification path to an anchor, if and only if a chain that passes
its checks keeps the path lengths. -/
theorem resolve_anchored_iff (C : Crypto Cert Key) (anchors : List Cert) (now : ℤ)
    (x5c : Value ν) :
    (∀ leaf pem, resolveAnchoredSigningCertificate C x5c anchors now = .resolved leaf pem →
      ∃ chain, parseChain C x5c = some chain ∧ AnchoredPath C anchors now leaf chain) ↔
      KeepsPathLengths C anchors now x5c := by
  constructor
  · intro h chain hparse leaf anchor hmem hchecked
    obtain ⟨chain', hparse', hhead, hsigning, houtside, other, hother, hpath⟩ :=
      h leaf _ (resolve_eq_resolved_iff.mpr ⟨rfl, chain, hparse, anchor, hmem, hchecked⟩)
    obtain rfl : chain = chain' := Option.some.inj (hparse.symm.trans hparse')
    exact ⟨other, hother,
      ⟨hhead, hchecked.selfSigned, hsigning, houtside, hpath.issued, hpath.valid⟩, hpath.lengths⟩
  · intro h leaf pem hresolved
    obtain ⟨-, chain, hparse, anchor, hmem, hchecked⟩ := resolve_eq_resolved_iff.mp hresolved
    obtain ⟨other, hother, hother', hlengths⟩ := h chain hparse leaf anchor hmem hchecked
    exact ⟨chain, hparse, hother'.head, hother'.signing, hother'.outside, other, hother,
      hother'.issued, hother'.valid, hlengths⟩

end Resolve

/-! ### A path that is too long -/

/-- A root, a CA that may issue no further CA, the CA it issued all the same, and a leaf. -/
inductive SampleCertificate
  | root
  | upper
  | lower
  | leaf
deriving DecidableEq

namespace SampleCertificate

def issuedBy : SampleCertificate → SampleCertificate
  | .root | .upper => .root
  | .lower => .upper
  | .leaf => .lower

def name : SampleCertificate → UInt8
  | .root => 1
  | .upper => 2
  | .lower => 3
  | .leaf => 4

/-- What a certificate encodes: the leaf says that it signs. -/
def content (c : SampleCertificate) : DerCertificate where
  fields := [(0x02, [c.name]), (0x30, []), (0x30, [c.issuedBy.name]), (0x30, []), (0x30, [c.name]),
    (0x30, Der.encode 0x30 (Der.encode 0x06 [0x2a]))]
  extensions := if c = .leaf then some [.keyUsage (some true) 7 [0x80]] else none
  signature := []
  fields_tag := by
    cases c <;> decide

end SampleCertificate

def sampleCrypto : Crypto SampleCertificate SampleCertificate where
  parse der := [.root, .upper, .lower, .leaf].find? fun c : SampleCertificate ↦ c.content.bytes = der
  content := SampleCertificate.content
  content_size c := by cases c <;> decide
  validFromDate _ := some 0
  validToDate _ := some 1000
  ca c := c ≠ .leaf
  publicKey c := c
  checkIssued child issuer := child.issuedBy = issuer
  verify child key := some (child.issuedBy = key)
  asymmetricKeyType _ := "ec"
  namedCurve _ := some "prime256v1"
  exportPem _ := "PEM"
  subject c := [c.name]
  issuer c := [c.issuedBy.name]
  pathLenConstraint c := if c = .upper then some 0 else none

/-- The leaf, the CA below and the CA above it, as an `x5c` header carries them. -/
def sampleX5c : Value Unit :=
  .arr [.str "MCowKAIBBDAAMAEDMAAwAQQwBTADBgEqoxIwEDAOBgNVHQ8BAf8EBAMCB4A=",
    .str "MBYwFAIBAzAAMAECMAAwAQMwBTADBgEq", .str "MBYwFAIBAjAAMAEBMAAwAQIwBTADBgEq"]

/-- The leaf of a chain resolves although the CA above was not to issue another. -/
theorem resolve_overlong :
    ¬ ∀ signer pem, resolveAnchoredSigningCertificate sampleCrypto sampleX5c [.root] 10 =
        .resolved signer pem →
      ∃ chain, parseChain sampleCrypto sampleX5c = some chain ∧
        AnchoredPath sampleCrypto [.root] 10 signer chain := by
  intro h
  obtain ⟨chain, hparse, -, -, -, anchor, -, hpath⟩ := h .leaf "PEM" (by decide +kernel)
  have hchain : parseChain sampleCrypto sampleX5c =
      some [.leaf, .lower, .upper] := by decide +kernel
  obtain rfl := Option.some.inj (hparse.symm.trans hchain)
  have hcount := hpath.lengths [.leaf, .lower] .upper [anchor] rfl 0 rfl
  revert hcount
  decide

end QAuth.Federation
