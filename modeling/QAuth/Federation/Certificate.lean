import Mathlib.Data.Nat.Bitwise
import QAuth.Foundation.Der

/-!
# Reading a certificate

The two walks of `anchored-chain.ts` over the DER of a certificate: the one down to the parameters of
its public key, before anything else decodes them, and the one to its `keyUsage` bits.
-/

namespace QAuth.Federation

open Der

/-! ### The source's walks -/

namespace DER_TAG

def BOOLEAN : UInt8 := 0x01
def BIT_STRING : UInt8 := 0x03
def OCTET_STRING : UInt8 := 0x04
def NULL : UInt8 := 0x05
def OID : UInt8 := 0x06
def SEQUENCE : UInt8 := 0x30
/-- `tbsCertificate.version` -/
def VERSION : UInt8 := 0xa0
/-- `tbsCertificate.extensions` -/
def EXTENSIONS : UInt8 := 0xa3

end DER_TAG

/-- `keyUsage` as a complete element. -/
def KEY_USAGE_OID_DER : List UInt8 := [0x06, 0x03, 0x55, 0x1d, 0x0f]

/-- `digitalSignature` is the most significant bit of the first byte. -/
def DIGITAL_SIGNATURE_MASK : UInt8 := 0x80

/-- `id-RSASSA-PSS` as a complete element. -/
def RSASSA_PSS_OID_DER : List UInt8 :=
  [0x06, 0x09, 0x2a, 0x86, 0x48, 0x86, 0xf7, 0x0d, 0x01, 0x01, 0x0a]

/-- `-----BEGIN `, what a PEM reader scans for. -/
def PEM_ARMOUR : List UInt8 := "-----BEGIN ".toUTF8.toList

def readTagged (raw : List UInt8) (offset : ℕ) (tag : UInt8) : Option Element :=
  (readElement raw offset).filter (·.tag = tag)

/-- The bytes occur in the buffer. -/
def includesBytes (buffer bytes : List UInt8) : Bool := buffer.tails.any bytes.isPrefixOf

/-- The element some elements further on. -/
def skipElements (raw : List UInt8) : ℕ → Option Element → Option Element
  | 0, member => member
  | n + 1, member => skipElements raw n (member.bind fun m ↦ readElement raw m.contentEnd)

/-- The public key is of a kind that is cheap to decode: its parameters are absent, null or a name. -/
def hasPlainKeyParameters (der : List UInt8) : Bool :=
  if includesBytes der PEM_ARMOUR then false
  else
    ((do
      let certificate ← readTagged der 0 DER_TAG.SEQUENCE
      let tbs ← readTagged der certificate.contentStart DER_TAG.SEQUENCE
      let first := readElement der tbs.contentStart
      -- the version is optional
      let serial := match first with
        | some m => if m.tag = DER_TAG.VERSION then readElement der m.contentEnd else some m
        | none => none
      let member ← (skipElements der 5 serial).filter fun m ↦
        m.tag = DER_TAG.SEQUENCE ∧ m.contentEnd ≤ tbs.contentEnd
      let algorithm ← readTagged der member.contentStart DER_TAG.SEQUENCE
      let oid ← readTagged der algorithm.contentStart DER_TAG.OID
      if oid.contentEnd = algorithm.contentEnd then some true
      else do
        let parameters ← (readElement der oid.contentEnd).filter
          (·.contentEnd = algorithm.contentEnd)
        if parameters.tag = DER_TAG.NULL ∨ parameters.tag = DER_TAG.OID then some true
        else some (decide (subarray der algorithm.contentStart oid.contentEnd =
          RSASSA_PSS_OID_DER))) : Option Bool).getD false

/-- Where the extensions of a certificate lie. -/
inductive ExtensionsReading
  | unreadable
  | absent
  | found (element : Element)

/-- Locate `tbsCertificate.extensions`, the only `[3]` among the members. -/
def findExtensions (raw : List UInt8) : ExtensionsReading :=
  match readTagged raw 0 DER_TAG.SEQUENCE with
  | none => .unreadable
  | some certificate =>
    match readTagged raw certificate.contentStart DER_TAG.SEQUENCE with
    | none => .unreadable
    | some tbs =>
      walk raw tbs.contentEnd
        (fun member ↦ if member.tag = DER_TAG.EXTENSIONS then some (.found member) else none)
        .unreadable .absent raw.length tbs.contentStart

/-- The outcome of looking for the `keyUsage` bits. -/
inductive KeyUsageReading
  | absent
  | present (bits : UInt8)
  | unreadable

/-- The bits of the value that follows the name of the extension, which may first say whether it is
critical. -/
def readKeyUsageValue (raw : List UInt8) (offset : ℕ) : KeyUsageReading :=
  let value := match readElement raw offset with
    | some v => if v.tag = DER_TAG.BOOLEAN then readElement raw v.contentEnd else some v
    | none => none
  match value.filter (·.tag = DER_TAG.OCTET_STRING) with
  | none => .unreadable
  | some value =>
    match readTagged raw value.contentStart DER_TAG.BIT_STRING with
    | none => .unreadable
    | some bitString =>
      -- a count of unused bits precedes the bits
      if bitString.contentEnd - bitString.contentStart < 2 then .present 0
      else .present (raw.getD (bitString.contentStart + 1) 0)

/-- What one extension says about the key usage. -/
def visitExtension (raw : List UInt8) (extension : Element) : Option KeyUsageReading :=
  if extension.tag ≠ DER_TAG.SEQUENCE then some .unreadable
  else
    match readTagged raw extension.contentStart DER_TAG.OID with
    | none => some .unreadable
    | some oid =>
      if subarray raw extension.contentStart oid.contentEnd = KEY_USAGE_OID_DER then
        some (readKeyUsageValue raw oid.contentEnd)
      else none

/-- Read the first byte of the `keyUsage` bits. -/
def readKeyUsageBits (raw : List UInt8) : KeyUsageReading :=
  match findExtensions raw with
  | .unreadable => .unreadable
  | .absent => .absent
  | .found extensions =>
    match readTagged raw extensions.contentStart DER_TAG.SEQUENCE with
    | none => .unreadable
    | some sequence =>
      walk raw sequence.contentEnd (visitExtension raw) .unreadable .absent raw.length
        sequence.contentStart

/-- The leaf is authorised to sign: its key usage is absent, or has `digitalSignature`. -/
def leafMaySign (raw : List UInt8) : Bool :=
  match readKeyUsageBits raw with
  | .absent => true
  | .unreadable => false
  | .present bits => decide (bits &&& DIGITAL_SIGNATURE_MASK ≠ 0)

/-! ### Certificates -/

/-- The name of `keyUsage`. -/
def KEY_USAGE_OID : List UInt8 := [0x55, 0x1d, 0x0f]

/-- An extension of a certificate. -/
inductive Extension
  /-- The key usage, a bit string whose last bits may be unused. -/
  | keyUsage (critical : Option Bool) (unused : UInt8) (bits : List UInt8)
  | other (oid : List UInt8) (critical : Option Bool) (value : List UInt8) (h : oid ≠ KEY_USAGE_OID)

namespace Extension

/-- The name of an extension. -/
def oid : Extension → List UInt8
  | .keyUsage _ _ _ => KEY_USAGE_OID
  | .other oid _ _ _ => oid

/-- Whether an extension says that it is critical. -/
def critical : Extension → Option Bool
  | .keyUsage critical _ _ => critical
  | .other _ critical _ _ => critical

def value : Extension → List UInt8
  | .keyUsage _ unused bits => encode DER_TAG.BIT_STRING (unused :: bits)
  | .other _ _ value _ => value

def bits? : Extension → Option (List UInt8)
  | .keyUsage _ _ bits => some bits
  | .other _ _ _ _ => none

def booleanByte (b : Bool) : UInt8 := if b then 0xff else 0

/-- What follows the name: whether the extension is critical, where that is said, and the value. -/
def tail (e : Extension) : List UInt8 :=
  (e.critical.elim [] fun b ↦ encode DER_TAG.BOOLEAN [booleanByte b]) ++
    encode DER_TAG.OCTET_STRING e.value

def content (e : Extension) : List UInt8 := encode DER_TAG.OID e.oid ++ e.tail

end Extension

/-- A certificate: the members of `tbsCertificate` before its extensions, each with its tag, the
extensions, and the signature with its algorithm. -/
structure DerCertificate where
  fields : List (UInt8 × List UInt8)
  extensions : Option (List Extension)
  signature : List UInt8
  fields_tag : ∀ m ∈ fields, m.1 &&& 0x1f ≠ 0x1f ∧ m.1 ≠ DER_TAG.EXTENSIONS

namespace DerCertificate

/-- The bytes of some extensions. -/
def extensionBytes (es : List Extension) : List UInt8 :=
  encodeAll (es.map fun e ↦ (DER_TAG.SEQUENCE, e.content))

/-- The element that holds the extensions of a certificate, where there are any. -/
def extensionElement (es : List Extension) : List UInt8 :=
  encode DER_TAG.EXTENSIONS (encode DER_TAG.SEQUENCE (extensionBytes es))

/-- The content of `tbsCertificate`. -/
def tbs (c : DerCertificate) : List UInt8 :=
  encodeAll c.fields ++ c.extensions.elim [] extensionElement

def bytes (c : DerCertificate) : List UInt8 :=
  encode DER_TAG.SEQUENCE (encode DER_TAG.SEQUENCE c.tbs ++ c.signature)

def keyUsage (c : DerCertificate) : Option (List UInt8) :=
  c.extensions.bind fun es ↦ es.findSome? Extension.bits?

end DerCertificate

/-- `digitalSignature` is bit 0 of the key usage. -/
def digitalSignature (bits : List UInt8) : Bool := bits.head?.any fun b ↦ b.toNat.testBit 7

/-! ### Reading what a certificate holds -/

section Reading

variable {raw : List UInt8} {offset : ℕ}

theorem length_lt_length_encode (tag : UInt8) (content : List UInt8) :
    content.length < (encode tag content).length := by
  rw [length_encode, headerLength]
  omega

theorem readTagged_of_at {tag : UInt8} {content : List UInt8}
    (h : At raw offset (encode tag content)) (htag : tag &&& 0x1f ≠ 0x1f)
    (hsize : content.length < 256 ^ 4) :
    readTagged raw offset tag =
      some ⟨tag, offset + headerLength content.length,
        offset + headerLength content.length + content.length⟩ := by
  rw [readTagged, readElement_of_at h htag hsize]
  simp

theorem getD_of_at {a b : UInt8} {rest : List UInt8} (h : At raw offset (a :: b :: rest)) :
    raw.getD (offset + 1) 0 = b := by
  obtain ⟨after, hafter⟩ := h
  have hget : (raw.drop offset).getD 1 0 = b := by
    rw [← hafter]
    rfl
  rwa [List.getD_eq_getElem?_getD, List.getElem?_drop, ← List.getD_eq_getElem?_getD] at hget

/-- Two names of one encoding are one name. -/
theorem encode_oid_eq_iff {oid : List UInt8} (hsize : oid.length < 256 ^ 4) :
    encode DER_TAG.OID oid = KEY_USAGE_OID_DER ↔ oid = KEY_USAGE_OID := by
  constructor
  · intro h
    by_cases hshort : oid.length < 128
    · rw [encode, lengthOctets, if_pos hshort] at h
      simp only [KEY_USAGE_OID_DER, List.cons_append, List.nil_append, List.cons.injEq] at h
      exact h.2.2
    · have hbytes := length_bigEndian_le hsize
      rw [encode, lengthOctets, if_neg hshort] at h
      simp only [KEY_USAGE_OID_DER, List.cons_append, List.cons.injEq] at h
      have hfirst := congrArg UInt8.toNat h.2.1
      rw [UInt8.toNat_ofNat', Nat.mod_eq_of_lt (by omega)] at hfirst
      have : (3 : UInt8).toNat = 3 := rfl
      omega
  · rintro rfl
    rfl

theorem readKeyUsageValue_of_at {critical : Option Bool} {unused : UInt8} {bits : List UInt8}
    (h : At raw offset (Extension.keyUsage critical unused bits).tail)
    (hsize : (Extension.keyUsage critical unused bits).tail.length < 256 ^ 4) :
    readKeyUsageValue raw offset = .present (bits.headD 0) := by
  -- the value stands behind the flag, where there is one
  obtain ⟨start, hat, hread⟩ : ∃ start,
      At raw start (encode DER_TAG.OCTET_STRING (encode DER_TAG.BIT_STRING (unused :: bits))) ∧
        (match readElement raw offset with
          | some v => if v.tag = DER_TAG.BOOLEAN then readElement raw v.contentEnd else some v
          | none => none) = readElement raw start := by
    cases critical with
    | none =>
      refine ⟨offset, h, ?_⟩
      rw [readElement_of_at h (by decide) (by
        have := length_lt_length_encode DER_TAG.OCTET_STRING
          (encode DER_TAG.BIT_STRING (unused :: bits))
        exact this.trans hsize)]
      exact if_neg (show ¬ DER_TAG.OCTET_STRING = DER_TAG.BOOLEAN by decide)
    | some b =>
      have hright := At.right (a := encode DER_TAG.BOOLEAN [Extension.booleanByte b]) h
      refine ⟨_, hright, ?_⟩
      rw [readElement_of_at (At.left h) (by decide) (by rw [List.length_singleton]; omega),
        length_encode, ← Nat.add_assoc]
      exact if_pos rfl
  have hinner : (encode DER_TAG.BIT_STRING (unused :: bits)).length < 256 ^ 4 := by
    refine (length_lt_length_encode DER_TAG.OCTET_STRING _).trans (lt_of_le_of_lt ?_ hsize)
    rw [Extension.tail, List.length_append]
    exact Nat.le_add_left _ _
  have hbits : (unused :: bits).length < 256 ^ 4 := (length_lt_length_encode _ _).trans hinner
  simp only [readKeyUsageValue, hread, readElement_of_at hat (by decide) hinner,
    Option.filter_some, decide_true, if_true]
  rw [readTagged_of_at hat.inner (by decide) hbits]
  have hstring := hat.inner.inner
  cases bits with
  | nil => simp
  | cons b rest =>
    dsimp only
    rw [Nat.add_sub_cancel_left, if_neg (by simp), getD_of_at hstring]
    rfl

theorem visitExtension_of_at {e : Extension} (h : At raw offset (encode DER_TAG.SEQUENCE e.content))
    (hsize : e.content.length < 256 ^ 4) :
    visitExtension raw ⟨DER_TAG.SEQUENCE, offset + headerLength e.content.length,
        offset + headerLength e.content.length + e.content.length⟩ =
      e.bits?.map fun bits ↦ .present (bits.headD 0) := by
  have hcontent := h.inner
  have hlength : (encode DER_TAG.OID e.oid).length + e.tail.length = e.content.length := by
    rw [Extension.content, List.length_append]
  have hoid : e.oid.length < 256 ^ 4 := by
    have := length_lt_length_encode DER_TAG.OID e.oid
    omega
  rw [visitExtension, if_neg (by simp)]
  dsimp only
  rw [readTagged_of_at hcontent.left (by decide) hoid]
  dsimp only
  rw [Nat.add_assoc (offset + _), ← length_encode DER_TAG.OID, hcontent.left.subarray_eq]
  cases e with
  | keyUsage critical unused bits =>
    rw [if_pos ((encode_oid_eq_iff hoid).mpr rfl), readKeyUsageValue_of_at hcontent.right (by omega)]
    rfl
  | other oid critical value hne =>
    rw [if_neg fun heq ↦ hne ((encode_oid_eq_iff hoid).mp heq)]
    rfl

end Reading

/-! ### The key usage of a certificate -/

namespace DerCertificate

theorem length_le_length_encodeAll_of_mem {elements : List (UInt8 × List UInt8)}
    {e : UInt8 × List UInt8} (he : e ∈ elements) : e.2.length < (encodeAll elements).length := by
  have hmem : encode e.1 e.2 ∈ elements.map fun e ↦ encode e.1 e.2 :=
    List.mem_map.mpr ⟨e, he, rfl⟩
  refine (length_lt_length_encode e.1 e.2).trans_le ?_
  rw [encodeAll, List.flatMap_def]
  exact (List.sublist_flatten_of_mem hmem).length_le

/-- A walk over the members of `tbsCertificate` finds its extensions. -/
theorem walk_tbs (c : DerCertificate) {raw : List UInt8} {offset fuel : ℕ}
    (h : At raw offset c.tbs) (hsize : c.tbs.length < 256 ^ 4) (hfuel : c.fields.length < fuel)
    {result : ExtensionsReading}
    (hresult : walk raw (offset + c.tbs.length)
      (fun member ↦ if member.tag = DER_TAG.EXTENSIONS then some (.found member) else none)
      .unreadable .absent fuel offset = result) :
    (c.extensions = none ∧ result = .absent) ∨
      ∃ es start, c.extensions = some es ∧
        At raw start (encode DER_TAG.SEQUENCE (extensionBytes es)) ∧
          result = .found ⟨DER_TAG.EXTENSIONS, start,
            start + (encode DER_TAG.SEQUENCE (extensionBytes es)).length⟩ := by
  have htotal : c.tbs.length = (encodeAll c.fields).length +
      (c.extensions.elim [] extensionElement).length := List.length_append
  obtain ⟨rest, rfl⟩ : ∃ rest, fuel = rest + 1 + c.fields.length :=
    ⟨fuel - 1 - c.fields.length, by omega⟩
  -- the walk steps over the fields
  rw [walk_run (At.left h) (by omega) (fun m hm ↦ (c.fields_tag m hm).1)
    (fun m hm ↦ by
      have := length_le_length_encodeAll_of_mem hm
      omega)
    (fun m hm o _ ↦ if_neg (c.fields_tag m hm).2)] at hresult
  have hright := At.right h
  cases hes : c.extensions with
  | none =>
    rw [hes] at htotal
    rw [walk_end (by simp only [htotal, Option.elim_none, List.length_nil]; omega)] at hresult
    exact .inl ⟨rfl, hresult.symm⟩
  | some es =>
    rw [hes] at hright htotal
    have hat : At raw (offset + (encodeAll c.fields).length) (extensionElement es) := hright
    have hlength : (encode DER_TAG.SEQUENCE (extensionBytes es)).length <
        (extensionElement es).length := length_lt_length_encode _ _
    rw [Option.elim_some] at htotal
    rw [walk_stop (by omega) (readElement_of_at hat (by decide) (by omega)) (if_pos rfl)] at hresult
    exact .inr ⟨es, _, rfl, hat.inner, hresult.symm⟩

theorem findExtensions_bytes (c : DerCertificate) (hsize : c.bytes.length < 256 ^ 4) :
    (c.extensions = none ∧ findExtensions c.bytes = .absent) ∨
      ∃ es start, c.extensions = some es ∧
        At c.bytes start (encode DER_TAG.SEQUENCE (extensionBytes es)) ∧
          findExtensions c.bytes = .found ⟨DER_TAG.EXTENSIONS, start,
            start + (encode DER_TAG.SEQUENCE (extensionBytes es)).length⟩ := by
  have hwhole : At c.bytes 0 c.bytes := .whole _
  have houter : (encode DER_TAG.SEQUENCE c.tbs ++ c.signature).length < c.bytes.length :=
    length_lt_length_encode _ _
  have htbs : (encode DER_TAG.SEQUENCE c.tbs).length ≤
      (encode DER_TAG.SEQUENCE c.tbs ++ c.signature).length := by
    rw [List.length_append]
    exact Nat.le_add_right _ _
  have hinner : c.tbs.length < (encode DER_TAG.SEQUENCE c.tbs).length :=
    length_lt_length_encode _ _
  have hcount : 2 * c.fields.length ≤ c.tbs.length := by
    refine (length_le_length_encodeAll c.fields).trans ?_
    rw [tbs, List.length_append]
    exact Nat.le_add_right _ _
  have hat : At c.bytes _ (encode DER_TAG.SEQUENCE c.tbs) := At.left (At.inner hwhole)
  have hfuel : c.fields.length < c.bytes.length := by omega
  refine walk_tbs c hat.inner (by omega) hfuel ?_
  rw [findExtensions, readTagged_of_at hwhole (by decide) (by omega)]
  dsimp only
  rw [readTagged_of_at hat (by decide) (by omega)]

/-- A walk over extensions that are not the key usage steps over them all. -/
theorem walk_extensions {raw : List UInt8} {offset finish fuel : ℕ} {es : List Extension}
    (h : At raw offset (extensionBytes es)) (hfinish : offset + (extensionBytes es).length ≤ finish)
    (hsize : (extensionBytes es).length < 256 ^ 4) (hnone : ∀ e ∈ es, e.bits? = none) :
    walk raw finish (visitExtension raw) .unreadable .absent (fuel + es.length) offset =
      walk raw finish (visitExtension raw) .unreadable .absent fuel
        (offset + (extensionBytes es).length) := by
  have hlength : es.length = (es.map fun e ↦ (DER_TAG.SEQUENCE, e.content)).length := by
    rw [List.length_map]
  have hcontent : ∀ e ∈ es, e.content.length < 256 ^ 4 := fun e he ↦
    (length_le_length_encodeAll_of_mem (e := (DER_TAG.SEQUENCE, e.content))
      (List.mem_map.mpr ⟨e, he, rfl⟩)).trans hsize
  rw [hlength]
  refine walk_run h hfinish ?_ ?_ ?_ <;> rintro m hm <;>
    obtain ⟨e, he, rfl⟩ := List.mem_map.mp hm
  · show DER_TAG.SEQUENCE &&& 0x1f ≠ 0x1f
    decide
  · exact hcontent e he
  · intro o ho
    rw [visitExtension_of_at ho (hcontent e he), hnone e he]
    rfl

/-- A walk over the extensions of a certificate finds the first key usage. -/
theorem walk_keyUsage {raw : List UInt8} {offset fuel : ℕ} {es : List Extension}
    (h : At raw offset (extensionBytes es)) (hsize : (extensionBytes es).length < 256 ^ 4)
    (hfuel : es.length < fuel) :
    walk raw (offset + (extensionBytes es).length) (visitExtension raw) .unreadable .absent fuel
        offset =
      match es.findSome? Extension.bits? with
      | none => .absent
      | some bits => .present (bits.headD 0) := by
  cases hfind : es.findSome? Extension.bits? with
  | none =>
    obtain ⟨rest, rfl⟩ : ∃ rest, fuel = rest + 1 + es.length := ⟨fuel - 1 - es.length, by omega⟩
    rw [walk_extensions h (Nat.le_refl _) hsize (List.findSome?_eq_none_iff.mp hfind),
      walk_end (Nat.le_refl _)]
  | some bits =>
    obtain ⟨before, e, after, rfl, hbits, hnone⟩ := List.findSome?_eq_some_iff.mp hfind
    have hbytes : extensionBytes (before ++ e :: after) =
        extensionBytes before ++ (encode DER_TAG.SEQUENCE e.content ++ extensionBytes after) := by
      simp [extensionBytes, encodeAll]
    have hpos := length_lt_length_encode DER_TAG.SEQUENCE e.content
    rw [List.length_append, List.length_cons] at hfuel
    rw [hbytes] at h hsize ⊢
    simp only [List.length_append] at hsize ⊢
    obtain ⟨rest, rfl⟩ : ∃ rest, fuel = rest + 1 + before.length :=
      ⟨fuel - 1 - before.length, by omega⟩
    have hat := At.left (At.right h)
    rw [walk_extensions (At.left h) (by omega) (by omega) hnone]
    refine walk_stop (by omega) (readElement_of_at hat (by decide) (by omega)) ?_
    rw [visitExtension_of_at hat (by omega), hbits]
    rfl

theorem readKeyUsageBits_bytes (c : DerCertificate) (hsize : c.bytes.length < 256 ^ 4) :
    readKeyUsageBits c.bytes =
      match c.keyUsage with
      | none => .absent
      | some bits => .present (bits.headD 0) := by
  rcases c.findExtensions_bytes hsize with ⟨hnone, hfind⟩ | ⟨es, start, hsome, hat, hfind⟩
  · rw [readKeyUsageBits, hfind, keyUsage, hnone]
    rfl
  · have hlength := At.length_le hat (List.cons_ne_nil _ _)
    have hinner := length_lt_length_encode DER_TAG.SEQUENCE (extensionBytes es)
    have hcount := length_le_length_encodeAll (es.map fun e ↦ (DER_TAG.SEQUENCE, e.content))
    rw [List.length_map] at hcount
    have hes : 2 * es.length ≤ (extensionBytes es).length := hcount
    rw [readKeyUsageBits, hfind]
    dsimp only
    rw [readTagged_of_at hat (by decide) (by omega)]
    dsimp only
    rw [walk_keyUsage hat.inner (by omega) (by omega), keyUsage, hsome]
    rfl

/-- The first byte of a key usage has `digitalSignature` as its most significant bit. -/
theorem mask_ne_zero_iff (bits : List UInt8) :
    bits.headD 0 &&& DIGITAL_SIGNATURE_MASK ≠ 0 ↔ digitalSignature bits = true := by
  cases bits with
  | nil => decide
  | cons b rest =>
    show b &&& DIGITAL_SIGNATURE_MASK ≠ 0 ↔ b.toNat.testBit 7 = true
    have hand : (b &&& DIGITAL_SIGNATURE_MASK).toNat = (b.toNat.testBit 7).toNat * 2 ^ 7 := by
      rw [UInt8.toNat_and]
      exact Nat.and_two_pow b.toNat 7
    rw [Ne, ← UInt8.toNat_inj, hand]
    cases b.toNat.testBit 7 <;> simp

theorem leafMaySign_bytes (c : DerCertificate) (hsize : c.bytes.length < 256 ^ 4) :
    leafMaySign c.bytes = true ↔ ∀ bits ∈ c.keyUsage, digitalSignature bits = true := by
  rw [leafMaySign, c.readKeyUsageBits_bytes hsize]
  cases c.keyUsage with
  | none => simp
  | some bits => simp [← mask_ne_zero_iff]

end DerCertificate

end QAuth.Federation
