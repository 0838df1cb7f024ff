import QAuth.Foundation.Guards
import QAuth.Foundation.Json

/-!
# Selective disclosure

The resolution of SD-JWT Disclosures of `sd-jwt-vc.ts`. The reader of a Disclosure's bytes and the
digest over them are parameters; a Disclosure is the string that was received, and both see its
characters by their low bytes.
-/

namespace QAuth.Federation

open Guards Json

variable {ν : Type}

/-- Why a Presentation is refused. -/
inductive RejectionReason
  | malformedPresentation
  | disclosureDigestMismatch
  | forbiddenSelectiveDisclosure
deriving DecidableEq

/-- A refusal, with its server-side detail. -/
structure Rejection where
  reason : RejectionReason
  detail : String
deriving DecidableEq

def malformed (detail : String) : Rejection := ⟨.malformedPresentation, detail⟩

/-- A Disclosure that does not fit the digests. -/
def mismatch (detail : String) : Rejection := ⟨.disclosureDigestMismatch, detail⟩

/-- Upper bound on the nesting depth of the claims. -/
def MAX_CLAIM_DEPTH : ℕ := 32

/-- Claims that may not arrive through a Disclosure. -/
def NON_SELECTIVELY_DISCLOSABLE_CLAIMS : List String :=
  ["iss", "nbf", "exp", "cnf", "vct", "vct#integrity", "status"]

/-! ### Disclosures -/

/-- The UTF-16 code units of a character. -/
def utf16Units (c : Char) : List ℕ :=
  if c.toNat < 0x10000 then [c.toNat]
  else [0xD800 + (c.toNat - 0x10000) / 0x400, 0xDC00 + (c.toNat - 0x10000) % 0x400]

/-- The bytes of a string in the `ascii` encoding, which keeps the low byte of each code unit. -/
def asciiBytes (s : String) : List UInt8 :=
  (s.toList.flatMap utf16Units).map UInt8.ofNat

/-- How Disclosures are read and digested. -/
structure DisclosureCodec (ν : Type) where
  /-- the base64url JSON that some bytes are, as `JSON.parse` returns it -/
  decode : List UInt8 → Option (Value ν)
  /-- an object that `JSON.parse` returns has one member of a name -/
  wellNamed : ∀ bytes v, decode bytes = some v → v.WellNamed
  /-- the base64url of the digest of some bytes -/
  digest : List UInt8 → String

/-- One Disclosure, decoded and digested. -/
structure ParsedDisclosure (ν : Type) where
  /-- as received; the digest covers these bytes -/
  encoded : String
  digest : String
  /-- absent for an array element -/
  claimName : Option String
  value : Value ν

def byDigest (disclosures : List (ParsedDisclosure ν)) (digest : String) :
    Option (ParsedDisclosure ν) :=
  disclosures.find? (·.digest == digest)

/-- Digest one Disclosure exactly as received. -/
def digestDisclosure (codec : DisclosureCodec ν) (encoded : String) : String :=
  codec.digest (asciiBytes encoded)

/-- A Disclosure that was not yet presented. -/
def refuseTwice (parsed : List (ParsedDisclosure ν)) (digest : String) : Except Rejection Unit :=
  refuseIf ((byDigest parsed digest).isSome : Prop)
    (mismatch "the Presentation carries the same Disclosure twice")

/-- Decode and digest every Disclosure; `parsed` are those that came before. -/
def parseDisclosures (codec : DisclosureCodec ν) :
    List String → List (ParsedDisclosure ν) → Except Rejection (List (ParsedDisclosure ν))
  | [], parsed => .ok parsed
  | encoded :: rest, parsed => do
    let decoded ← require (codec.decode (asciiBytes encoded))
      (malformed "a Disclosure is not base64url JSON")
    let digest := digestDisclosure codec encoded
    match decoded with
    | .arr [.str _, value] =>
      refuseTwice parsed digest
      parseDisclosures codec rest (parsed ++ [⟨encoded, digest, none, value⟩])
    | .arr [.str _, name, value] =>
      refuseTwice parsed digest
      match name with
      | .str claimName =>
        refuseIf (claimName = "_sd" ∨ claimName = "...")
          (mismatch s!"a Disclosure attempts to disclose the reserved claim '{claimName}'")
        parseDisclosures codec rest (parsed ++ [⟨encoded, digest, some claimName, value⟩])
      | _ =>
        .error (malformed "an object-property Disclosure carries a non-string claim name")
    | .arr [_, _] | .arr [_, _, _] =>
      .error (malformed "a Disclosure carries no string salt")
    | _ => .error (malformed "a Disclosure is not a 2- or 3-element JSON array")

/-! ### The walk -/

section Walk

variable (disclosures : List (ParsedDisclosure ν))

/-- Mark a digest used, refusing a second claim on it. -/
def consumeDigest (digest : String) (used : List String) :
    Except Rejection (Option (ParsedDisclosure ν) × List String) :=
  match byDigest disclosures digest with
  | none => .ok (none, used)
  | some disclosure =>
    if digest ∈ used then
      .error (mismatch "the same digest is claimed in more than one place")
    else .ok (some disclosure, digest :: used)

/-- What resolves the claims one level down. -/
abbrev Next (ν : Type) := Value ν → List String → Except Rejection (Value ν × List String)

/-- The digest an array element stands for, where it is `{"...": digest}`. -/
def placeholder : Value ν → Except Rejection (Option String)
  | .obj members =>
    match members.lookup "..." with
    | none => .ok none
    | some digest =>
      if members.length ≠ 1 then
        .error (malformed "an array element carries '...' alongside other members")
      else
        match digest with
        | .str digest => .ok (some digest)
        | _ => .error (malformed "an array element's '...' is not a string")
  | _ => .ok none

/-- Resolve the elements of an array. -/
def discloseArray (next : Next ν) :
    List (Value ν) → List String → Except Rejection (List (Value ν) × List String)
  | [], used => .ok ([], used)
  | element :: rest, used => do
    match ← placeholder element with
    | some digest =>
      match ← consumeDigest disclosures digest used with
      -- not disclosed: the holder chose to withhold this element
      | (none, used) => discloseArray next rest used
      | (some disclosure, used) =>
        refuseIf (disclosure.claimName.isSome : Prop)
          (mismatch "an object-property Disclosure was presented as an array element")
        let (value, used) ← next disclosure.value used
        let (values, used) ← discloseArray next rest used
        .ok (value :: values, used)
    | none =>
      let (value, used) ← next element used
      let (values, used) ← discloseArray next rest used
      .ok (value :: values, used)

/-- Write one claim as an own property. -/
def defineClaim (target : List (String × Value ν)) (name : String) (value : Value ν) :
    List (String × Value ν) :=
  if name ∈ target.map Prod.fst then
    target.map fun m ↦ if m.1 = name then (name, value) else m
  else target ++ [(name, value)]

/-- Resolve the plain members of an object into a result. -/
def discloseMembers (next : Next ν) : List (String × Value ν) → List (String × Value ν) →
    List String → Except Rejection (List (String × Value ν) × List String)
  | [], result, used => .ok (result, used)
  | (key, value) :: rest, result, used =>
    if key = "_sd" ∨ key = "_sd_alg" then discloseMembers next rest result used
    else do
      let (value, used) ← next value used
      discloseMembers next rest (defineClaim result key value) used

/-- Resolve the digests of an object into a result. -/
def discloseDigests (next : Next ν) : List (Value ν) → List String → List (String × Value ν) →
    List String → Except Rejection (List (String × Value ν) × List String)
  | [], _, result, used => .ok (result, used)
  | .str digest :: rest, seen, result, used => do
    refuseIf (digest ∈ seen) (mismatch "the same digest appears twice in one '_sd' array")
    match ← consumeDigest disclosures digest used with
    | (none, used) => discloseDigests next rest (digest :: seen) result used
    | (some disclosure, used) =>
      let claimName ← require disclosure.claimName
        (mismatch "an array-element Disclosure was presented against an '_sd' digest")
      refuseIf (claimName ∈ result.map Prod.fst)
        (mismatch s!"a Disclosure would overwrite the already-present claim '{claimName}'")
      let (value, used) ← next disclosure.value used
      discloseDigests next rest (digest :: seen) (defineClaim result claimName value) used
  | _ :: _, _, _, _ => .error (malformed "'_sd' carries a non-string digest")

/-- Resolve an object's `_sd` digests into claims. -/
def discloseObject (next : Next ν) (members : List (String × Value ν)) (used : List String) :
    Except Rejection (List (String × Value ν) × List String) := do
  let (result, used) ← discloseMembers next members [] used
  match members.lookup "_sd" with
  | none => .ok (result, used)
  | some (.arr sd) => discloseDigests disclosures next sd [] result used
  | some _ => .error (malformed "'_sd' is not an array")

/-- Resolve selective disclosure over any claim, with some levels left below `MAX_CLAIM_DEPTH`. -/
def discloseValue : ℕ → Next ν
  | 0, _, _ =>
    .error (malformed s!"the claim structure nests deeper than {MAX_CLAIM_DEPTH} levels")
  | levels + 1, .arr items, used => do
    let (items, used) ← discloseArray disclosures (discloseValue levels) items used
    .ok (.arr items, used)
  | levels + 1, .obj members, used => do
    let (members, used) ← discloseObject disclosures (discloseValue levels) members used
    .ok (.obj members, used)
  | _ + 1, node, used => .ok (node, used)

def resolveDisclosures (payload : List (String × Value ν)) :
    Except Rejection (List (String × Value ν)) := do
  -- the members of the payload are at depth 1
  let (disclosed, used) ← discloseObject disclosures
    (discloseValue disclosures MAX_CLAIM_DEPTH) payload []
  refuseIf (used.length ≠ disclosures.length)
    (mismatch ("a presented Disclosure matches no digest in the credential; it was never signed by " ++
      "the issuer"))
  .ok disclosed

end Walk

/-- The claims of a signed payload with the Disclosures that came with it. -/
def discloseClaims (codec : DisclosureCodec ν) (payload : List (String × Value ν))
    (encodedDisclosures : List String) : Except Rejection (List (String × Value ν)) := do
  let disclosures ← parseDisclosures codec encodedDisclosures []
  resolveDisclosures disclosures payload

def assertNoForbiddenSelectiveDisclosure (signed disclosed : List (String × Value ν)) :
    Except Rejection Unit :=
  refuseSome ((NON_SELECTIVELY_DISCLOSABLE_CLAIMS.find? fun claim ↦
    claim ∈ disclosed.map Prod.fst && !(claim ∈ signed.map Prod.fst : Bool)).map fun claim ↦
      ⟨.forbiddenSelectiveDisclosure, (s!"the credential makes '{claim}' selectively disclosable, " ++
        "which this verifier does not accept (SD-JWT VC §3.2.2.2)")⟩)

theorem assertNoForbiddenSelectiveDisclosure_eq_ok_iff {signed disclosed : List (String × Value ν)}
    {u : Unit} : assertNoForbiddenSelectiveDisclosure signed disclosed = .ok u ↔
      ∀ claim ∈ NON_SELECTIVELY_DISCLOSABLE_CLAIMS, claim ∈ disclosed.map Prod.fst →
        claim ∈ signed.map Prod.fst := by
  rw [assertNoForbiddenSelectiveDisclosure, refuseSome_eq_ok_iff, Option.map_eq_none_iff,
    List.find?_eq_none]
  refine forall₂_congr fun claim _ ↦ ?_
  by_cases hsigned : claim ∈ signed.map Prod.fst <;> simp [hsigned]

end QAuth.Federation
