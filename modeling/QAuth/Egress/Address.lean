import QAuth.Egress.Outcome
import Mathlib.Data.Nat.Bitwise

/-!
# Addresses

The IP literals of `address.ts`: the bytes of one, in any of its textual forms, and the kind of
address it is. Bytes are numbers below 256, the first of an address first.
-/

namespace QAuth.Egress

/-- The code unit of a character below U+10000. -/
def unit (c : Char) : UInt16 := UInt16.ofNat c.toNat

/-! ### Digits -/

/-- The value of a digit below a base of at most sixteen, in lower case. -/
def digitValue (base : ℕ) (u : UInt16) : Option ℕ :=
  let value :=
    if unit '0' ≤ u ∧ u ≤ unit '9' then some (u.toNat - 0x30)
    else if unit 'a' ≤ u ∧ u ≤ unit 'f' then some (u.toNat - 0x57)
    else none
  value.filter (· < base)

/-- `Number.parseInt` of a text of digits. -/
def parseInt (base : ℕ) (text : JsString) : ℕ :=
  text.foldl (fun n u ↦ n * base + (digitValue base u).getD 0) 0

/-! ### `isIP` -/

/-- A decimal number below 256 without leading zeros. -/
def isOctet (text : JsString) : Bool :=
  1 ≤ text.length && text.length ≤ 3 && text.all (fun u ↦ (digitValue 10 u).isSome) &&
    (text.length = 1 || text.head? ≠ some (unit '0')) && parseInt 10 text < 256

/-- Four such numbers between dots. -/
def isIPv4 (text : JsString) : Bool :=
  (text.splitOn (unit '.')).length = 4 && (text.splitOn (unit '.')).all isOctet

/-- `split('::')`. -/
def splitDouble : JsString → List JsString
  | [] => [[]]
  | [u] => [[u]]
  | u :: v :: rest =>
    if u = unit ':' ∧ v = unit ':' then [] :: splitDouble rest
    else (splitDouble (v :: rest)).modifyHead (u :: ·)

/-- One to four hexadecimal digits, in lower case. -/
def isHextet (text : JsString) : Bool :=
  1 ≤ text.length && text.length ≤ 4 && text.all fun u ↦ (digitValue 16 u).isSome

/-- How many groups of sixteen bits stand between colons, an IPv4 address at the end being two
where it may stand there. -/
def groupCount (dotted : Bool) (part : JsString) : Option ℕ :=
  if part = [] then some 0
  else
    let groups := part.splitOn (unit ':')
    if groups.all isHextet then some groups.length
    else if dotted && groups.dropLast.all isHextet && isIPv4 (groups.getLast?.getD []) then
      some (groups.length + 1)
    else none

/-- An IPv6 address in lower case and without a zone: eight groups, or fewer around one `::`. -/
def isIPv6 (text : JsString) : Bool :=
  match splitDouble text with
  | [whole] => groupCount true whole = some 8
  | [head, back] =>
    match groupCount false head, groupCount true back with
    | some m, some n => m + n ≤ 7
    | _, _ => false
  | _ => false

/-- A character of a zone id. -/
def isZoneUnit (u : UInt16) : Bool :=
  (unit '0' ≤ u && u ≤ unit '9') || (unit 'a' ≤ u && u ≤ unit 'z') ||
    (unit 'A' ≤ u && u ≤ unit 'Z') || u = unit '-' || u = unit '.' || u = unit ':'

/-- `isIP`: 4 for an IPv4 address, 6 for an IPv6 address, with or without a zone, and else 0. -/
def isIP (text : JsString) : ℕ :=
  if isIPv4 text then 4
  else
    match text.splitOn (unit '%') with
    | [address] => if isIPv6 (toLowerCase address) then 6 else 0
    | [address, zone] =>
      if isIPv6 (toLowerCase address) && zone ≠ [] && zone.all isZoneUnit then 6 else 0
    | _ => 0

/-! ### The bytes of a literal -/

/-- The four bytes of a dotted-quad IPv4 literal. -/
def parseIpv4 (text : JsString) : Option (List ℕ) :=
  if isIP text ≠ 4 then none else some ((text.splitOn (unit '.')).map (parseInt 10))

/-- Where a code unit stands last. -/
def lastIndexOf (u : UInt16) (text : JsString) : Option ℕ :=
  (text.reverse.idxOf? u).map fun i ↦ text.length - 1 - i

/-- The numbers of the groups of a part. -/
def hextetsOf (part : JsString) : List ℕ :=
  if part = [] then [] else (part.splitOn (unit ':')).map (parseInt 16)

/-- The text without an IPv4 address at its end, and the two groups that this one stands for. -/
def splitTail (body : JsString) : Option (JsString × List ℕ) :=
  let lastColon := lastIndexOf (unit ':') body
  -- a text without a colon is its own last group
  let last := body.drop (lastColon.elim 0 (· + 1))
  if unit '.' ∈ last then do
    let v4 ← parseIpv4 last
    -- the colon stays when it is half of a `::` right before the dotted quad
    let keep := match lastColon with
      | none => body.length - 1
      | some i => if 0 < i ∧ body[i - 1]? = some (unit ':') then i + 1 else i
    some (body.take keep,
      [v4.getD 0 0 * 256 + v4.getD 1 0, v4.getD 2 0 * 256 + v4.getD 3 0])
  else some (body, [])

/-- The eight groups that a text stands for, before those of its tail. -/
def fillHextets (body : JsString) (tail : List ℕ) : Option (List ℕ) :=
  let halves := splitDouble body
  let head := hextetsOf (halves.getD 0 [])
  let back := if halves.length = 2 then hextetsOf (halves.getD 1 []) else []
  let filled := tail.length + head.length + back.length
  if 2 < halves.length ∨ 8 < filled ∨ halves.length = 1 ∧ filled ≠ 8 then none
  else
    let hextets := head ++ List.replicate (8 - filled) 0 ++ back ++ tail
    if hextets.length ≠ 8 ∨ (hextets.any fun h ↦ 0xffff < h) then none else some hextets

/-- The sixteen bytes of an IPv6 literal without a zone id. -/
def parseIpv6 (text : JsString) : Option (List ℕ) :=
  if unit '%' ∈ text ∨ isIP text ≠ 6 then none
  else do
    let (body, tail) ← splitTail (toLowerCase text)
    let hextets ← fillHextets body tail
    some (hextets.flatMap fun h ↦ [h / 256, h % 256])

/-! ### Kinds of addresses -/

/-- Which kind of address an IP literal is. -/
inductive AddressKind
  | publicUnicast
  | unspecified
  | loopback
  | privateUse
  | shared
  | linkLocal
  | uniqueLocal
  | multicast
  | documentation
  | reserved
  | invalid
deriving DecidableEq

/-- A CIDR block. -/
structure AddressRange where
  first : List ℕ
  bits : ℕ
deriving DecidableEq

/-- IPv4 blocks that are never dialled. -/
def IPV4_BLOCKED : List (AddressRange × AddressKind) :=
  [(⟨[0, 0, 0, 0], 8⟩, .unspecified),
    (⟨[10, 0, 0, 0], 8⟩, .privateUse),
    (⟨[100, 64, 0, 0], 10⟩, .shared),
    (⟨[127, 0, 0, 0], 8⟩, .loopback),
    (⟨[169, 254, 0, 0], 16⟩, .linkLocal),
    (⟨[172, 16, 0, 0], 12⟩, .privateUse),
    (⟨[192, 0, 0, 0], 24⟩, .reserved),
    (⟨[192, 0, 2, 0], 24⟩, .documentation),
    (⟨[192, 88, 99, 0], 24⟩, .reserved),
    (⟨[192, 168, 0, 0], 16⟩, .privateUse),
    (⟨[198, 18, 0, 0], 15⟩, .reserved),
    (⟨[198, 51, 100, 0], 24⟩, .documentation),
    (⟨[203, 0, 113, 0], 24⟩, .documentation),
    (⟨[224, 0, 0, 0], 4⟩, .multicast),
    (⟨[240, 0, 0, 0], 4⟩, .reserved)]

/-- IPv6 blocks named for the log. -/
def IPV6_BLOCKED : List (AddressRange × AddressKind) :=
  [(⟨[0xfe, 0x80], 10⟩, .linkLocal),
    (⟨[0xfc], 7⟩, .uniqueLocal),
    (⟨[0xff], 8⟩, .multicast),
    (⟨[0x20, 0x01, 0x0d, 0xb8], 32⟩, .documentation),
    (⟨[0x3f, 0xff], 20⟩, .documentation),
    (⟨[0x20, 0x01], 23⟩, .reserved)]

/-- `::ffff:0:0/96`. -/
def IPV4_MAPPED_PREFIX : List ℕ := [0, 0, 0, 0, 0, 0, 0, 0, 0, 0, 0xff, 0xff]

/-- `64:ff9b::/96`. -/
def NAT64_PREFIX : List ℕ := [0x00, 0x64, 0xff, 0x9b, 0, 0, 0, 0, 0, 0, 0, 0]

/-- `2002::/16`. -/
def SIX_TO_FOUR_PREFIX : List ℕ := [0x20, 0x02]

/-- Whether the first `bits` bits of `bytes` equal those of `first`. -/
def inRange (bytes first : List ℕ) (bits : ℕ) : Bool :=
  let whole := bits / 8
  let rest := bits % 8
  let mask := (0xff <<< (8 - rest)) &&& 0xff
  ((List.range whole).all fun i ↦ bytes[i]? = first[i]?) &&
    (rest = 0 || (bytes[whole]?.getD 0) &&& mask = (first[whole]?.getD 0) &&& mask)

/-- Whether `bytes` begin with `first`. -/
def startsWith (bytes first : List ℕ) : Bool := inRange bytes first (first.length * 8)

def ipv4Kind (bytes : List ℕ) : AddressKind :=
  ((IPV4_BLOCKED.find? fun r ↦ inRange bytes r.1.first r.1.bits).map Prod.snd).getD .publicUnicast

/-- The IPv4 address an IPv6 form carries. -/
def embeddedIpv4 (bytes : List ℕ) : Option (List ℕ) :=
  if startsWith bytes IPV4_MAPPED_PREFIX || startsWith bytes NAT64_PREFIX then
    some ((bytes.drop 12).take 4)
  else if startsWith bytes SIX_TO_FOUR_PREFIX then some ((bytes.drop 2).take 4)
  else none

/-- The IPv4 address of an IPv4-mapped IPv6 address. -/
def mappedIpv4 (bytes : List ℕ) : Option (List ℕ) :=
  if startsWith bytes IPV4_MAPPED_PREFIX then some ((bytes.drop 12).take 4) else none

def ipv6Kind (bytes : List ℕ) : AddressKind :=
  if bytes.all (· = 0) then .unspecified
  else if (bytes.take 15).all (· = 0) && bytes[15]? = some 1 then .loopback
  else
    match embeddedIpv4 bytes with
    | some v4 => ipv4Kind v4
    | none =>
      match IPV6_BLOCKED.find? fun r ↦ inRange bytes r.1.first r.1.bits with
      | some r => r.2
      | none => if inRange bytes [0x20] 3 then .publicUnicast else .reserved

/-- The kind of an IP literal. -/
def addressKind (ip : JsString) : AddressKind :=
  match parseIpv4 ip with
  | some v4 => ipv4Kind v4
  | none =>
    match parseIpv6 ip with
    | some v6 => ipv6Kind v6
    | none => .invalid

/-- The cloud metadata endpoints over IPv4. -/
def METADATA_IPV4 : List AddressRange :=
  [⟨[169, 254, 169, 254], 32⟩, ⟨[169, 254, 170, 0], 24⟩, ⟨[100, 100, 100, 200], 32⟩]

/-- The cloud metadata endpoints over IPv6. -/
def METADATA_IPV6 : List AddressRange := [⟨[0xfd, 0, 0x0e, 0xc2], 32⟩]

/-- Whether bytes are in one of some ranges. -/
def inMetadataRange (bytes : List ℕ) (ranges : List AddressRange) : Bool :=
  ranges.any fun r ↦ inRange bytes r.first r.bits

/-- Whether an IP literal is a cloud metadata endpoint. -/
def isCloudMetadataAddress (ip : JsString) : Bool :=
  match parseIpv4 ip with
  | some v4 => inMetadataRange v4 METADATA_IPV4
  | none =>
    match parseIpv6 ip with
    | none => false
    | some v6 =>
      inMetadataRange v6 METADATA_IPV6 ||
        (embeddedIpv4 v6).any fun v4 ↦ inMetadataRange v4 METADATA_IPV4

end QAuth.Egress
