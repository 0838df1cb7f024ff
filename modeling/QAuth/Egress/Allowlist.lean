import QAuth.Egress.Ranges

/-!
# The egress allowlist

The hosts and address ranges that an operator lets the client reach although they are not public,
each for the realms it names (`allowlist.ts`): the checks of the file, with their messages, and what
the entries that name a realm open.
-/

namespace QAuth.Egress

/-- A value of which nothing is known: of a JSON text, and what else the program may hand in. -/
inductive Unknown
  | undefined
  /-- `null`, a boolean, a number, ... -/
  | primitive
  | str (s : JsString)
  | arr (items : List Unknown)
  | obj (members : List (JsString × Unknown))

/-- The value of a member, where there is one. -/
def Unknown.member (members : List (JsString × Unknown)) (name : String) : Unknown :=
  (members.lookup (units name)).getD .undefined

/-- Whether a value is there. -/
def Unknown.present : Unknown → Bool
  | .undefined => false
  | _ => true

/-- A decimal number, as a template writes it. -/
def decimal (n : ℕ) : JsString := units (toString n)

/-! ### Hosts -/

/-- `toLowerCase`, of the characters that may become one of a host name. -/
def lowerCase (s : JsString) : JsString :=
  -- the Kelvin sign is the one character beyond Latin-1 that becomes an ASCII letter
  toLowerCase (s.map fun u ↦ if u = 0x212A then unit 'k' else u)

/-- `replace(/\.$/, '')`. -/
def stripDot (s : JsString) : JsString := if s.getLast? = some (unit '.') then s.dropLast else s

/-- `replace(/^\[|\]$/g, '')`. -/
def stripBrackets (s : JsString) : JsString :=
  let s := if s.head? = some (unit '[') then s.tail else s
  if s.getLast? = some (unit ']') then s.dropLast else s

/-- A character at either end of a label. -/
def isLabelUnit (u : UInt16) : Bool :=
  (unit 'a' ≤ u && u ≤ unit 'z') || (unit '0' ≤ u && u ≤ unit '9') || u = unit '_'

/-- A label of a host name. -/
def isHostLabel (label : JsString) : Bool :=
  1 ≤ label.length && label.length ≤ 63 && label.all (fun u ↦ isLabelUnit u || u = unit '-') &&
    label.head?.any isLabelUnit && label.getLast?.any isLabelUnit

/-- `HOST_NAME`: labels between dots, 253 characters in all. -/
def isHostName (text : JsString) : Bool :=
  1 ≤ text.length && text.length ≤ 253 && (text.splitOn (unit '.')).all isHostLabel

/-- The host of an entry. -/
def parseHost (value : Unknown) (place : JsString) : Except JsString JsString :=
  match value with
  | .str value =>
    if unit '*' ∈ value then
      .error (place ++ units ".host must name one host; a wildcard is not allowed")
    else
      let host := stripDot (lowerCase value)
      let literal := isIP (stripBrackets host)
      if literal ≠ 0 then
        .error (place ++ units ".host must be a host name; write an address as a range in \"cidr\"" ++
          units ", such as \"" ++ stripBrackets host ++ units "/" ++
          decimal (if literal = 4 then 32 else 128) ++ units "\"")
      else if isHostName host then .ok host
      else .error (place ++ units ".host is not a valid host name")
  | _ => .error (place ++ units ".host must be a string")

/-! ### Ranges -/

/-- The families of addresses. -/
inductive Family
  | ipv4
  | ipv6
deriving DecidableEq

/-- The bytes of an address. -/
def Family.length : Family → ℕ
  | .ipv4 => 4
  | .ipv6 => 16

/-- A range, as bytes. -/
structure CompiledRange where
  family : Family
  bytes : List ℕ
  bits : ℕ
  sized : (AddressRange.mk bytes bits).Sized family.length

/-- The widest IPv4 range an entry may open. -/
def MIN_IPV4_PREFIX : ℕ := 8

/-- The widest IPv6 range an entry may open. -/
def MIN_IPV6_PREFIX : ℕ := 32

/-- IPv6 ranges whose addresses reach others only through translation. -/
def TRANSLATION_RANGES : List (String × AddressRange) :=
  [("IPv4-mapped ::ffff:0:0/96", ⟨[0, 0, 0, 0, 0, 0, 0, 0, 0, 0, 0xff, 0xff], 96⟩),
    ("NAT64 64:ff9b::/96", ⟨[0, 0x64, 0xff, 0x9b, 0, 0, 0, 0, 0, 0, 0, 0], 96⟩),
    ("local-use NAT64 64:ff9b:1::/48", ⟨[0, 0x64, 0xff, 0x9b, 0, 1], 48⟩),
    ("6to4 2002::/16", ⟨[0x20, 0x02], 16⟩),
    ("Teredo 2001::/32", ⟨[0x20, 0x01, 0, 0], 32⟩)]

/-- The address before the slash, with its family. -/
def parseAddress (text : JsString) :
    Option {a : Family × List ℕ // IsAddress a.1.length a.2} :=
  match h : parseIpv4 text with
  | some v4 => some ⟨(.ipv4, v4), (parseIpv4_eq_some_iff.mp h).isAddress⟩
  | none =>
    match h : parseIpv6 text with
    | some v6 => some ⟨(.ipv6, v6), isAddress_of_parseIpv6 h⟩
    | none => none

/-- The bytes without the bits below a prefix length. -/
def network (bytes : List ℕ) (bits : ℕ) : List ℕ :=
  bytes.mapIdx fun i byte ↦
    let keep := min 8 (bits - i * 8)
    byte &&& ((0xff <<< (8 - keep)) &&& 0xff)

/-- A prefix length is within an address. -/
theorem sized_of_isAddress {family : Family} {bytes : List ℕ} {bits : ℕ}
    (h : IsAddress family.length bytes) (hbits : bits ≤ family.length * 8) :
    (AddressRange.mk bytes bits).Sized family.length := by
  have hle : bits / 8 ≤ family.length := by omega
  exact ⟨h.2, hle, h.1 ▸ hle⟩

/-- The range of an entry. -/
def parseCidr (value : Unknown) (place : JsString) : Except JsString CompiledRange :=
  match value with
  | .str value =>
    match value.idxOf? (unit '/') with
    | none =>
      .error (place ++ units ".cidr must carry a prefix length, such as \"10.20.0.0/16\" or \"" ++
        value ++ units "/32\"")
    | some slash =>
      let length := value.drop (slash + 1)
      match parseAddress (value.take slash) with
      | none => .error (place ++ units ".cidr does not start with an IPv4 or IPv6 address")
      | some ⟨(family, bytes), haddress⟩ =>
        let digits := 1 ≤ length.length && length.length ≤ 3 &&
          length.all fun u ↦ (digitValue 10 u).isSome
        let bits := parseInt 10 length
        if h : digits ∧ bits ≤ family.length * 8 then
          let minBits := if family = .ipv4 then MIN_IPV4_PREFIX else MIN_IPV6_PREFIX
          if network bytes bits ≠ bytes then
            .error (place ++ units (".cidr has address bits set below its prefix length; " ++
              "write the range's first address"))
          else if bits < minBits then
            .error (place ++ units ".cidr is wider than /" ++ decimal minBits ++
              units "; list the narrower ranges the deployment reaches")
          else
            let translated := if family = .ipv6 then
                TRANSLATION_RANGES.find? fun range ↦
                  inRange bytes range.2.first (min bits range.2.bits)
              else none
            match translated with
            | some range =>
              .error (place ++ units ".cidr overlaps " ++ units range.1 ++ units (", whose " ++
                "addresses reach others only through translation; list the range they reach " ++
                "instead"))
            | none => .ok ⟨family, bytes, bits, sized_of_isAddress haddress h.2⟩
        else
          .error (place ++ units ".cidr must end in a prefix length from 0 to " ++
            decimal (family.length * 8))
  | _ => .error (place ++ units ".cidr must be a string")

/-! ### Entries -/

def MAX_ENTRIES : ℕ := 1000
def MAX_REALMS_PER_ENTRY : ℕ := 100

/-- The length of the column `realms.name`. -/
def MAX_REALM_NAME_LENGTH : ℕ := 255

def MAX_NOTE_LENGTH : ℕ := 1000
def ENTRY_KEYS : List String := ["host", "cidr", "realms", "note"]

/-- `trim`. -/
def trim (s : JsString) : JsString :=
  let isSpace := fun u : UInt16 ↦ Text.isSpace (Char.ofNat u.toNat)
  ((s.dropWhile isSpace).reverse.dropWhile isSpace).reverse

/-- A realm name that an entry may have. -/
def isRealmName (realm : JsString) : Bool :=
  realm ≠ [] && realm.length ≤ MAX_REALM_NAME_LENGTH && trim realm = realm &&
    realm.all fun u ↦ !(u ≤ 0x1f || u = 0x7f)

/-- The realm at a position of the list. -/
def parseRealm (place : JsString) (item : Unknown × ℕ) : Except JsString JsString :=
  let refused := place ++ units ".realms[" ++ decimal item.2 ++ units "] must be a realm name"
  match item.1 with
  | .str realm => if isRealmName realm then .ok realm else .error refused
  | _ => .error refused

/-- The realms of an entry. -/
def parseRealms (value : Unknown) (place : JsString) : Except JsString (List JsString) :=
  match value with
  | .arr items =>
    if items = [] then .error (place ++ units ".realms must list at least one realm name")
    else if MAX_REALMS_PER_ENTRY < items.length then
      .error (place ++ units ".realms lists more than " ++ decimal MAX_REALMS_PER_ENTRY ++
        units " realms")
    else items.zipIdx.mapM (parseRealm place)
  | _ => .error (place ++ units ".realms must list at least one realm name")

/-- An entry of the list. -/
structure EgressAllowlistEntry where
  host : Option JsString
  cidr : Option JsString
  realms : List JsString
  note : Option JsString

/-- An entry in the form the client matches with. -/
structure CompiledEntry where
  host : Option JsString
  range : Option CompiledRange
  realms : List JsString

/-- The text of a note, where it is one. -/
def parseNote (value : Unknown) (place : JsString) : Except JsString (Option JsString) :=
  let refused := place ++ units ".note must be a string of at most " ++ decimal MAX_NOTE_LENGTH ++
    units " characters"
  match value with
  | .undefined => .ok none
  | .str note => if MAX_NOTE_LENGTH < note.length then .error refused else .ok (some note)
  | _ => .error refused

/-- The text of a `cidr` member. -/
def Unknown.text? : Unknown → Option JsString
  | .str s => some s
  | _ => none

/-- One entry, with the place it stands at. -/
def parseEntry (what : JsString) (item : Unknown × ℕ) :
    Except JsString (EgressAllowlistEntry × CompiledEntry) :=
  let place := what ++ units ": entries[" ++ decimal item.2 ++ units "]"
  match item.1 with
  | .obj members =>
    match members.find? fun m ↦ m.1 ∉ ENTRY_KEYS.map units with
    | some m => .error (place ++ units " has an unknown member \"" ++ m.1 ++ units "\"")
    | none =>
      let host := Unknown.member members "host"
      let cidr := Unknown.member members "cidr"
      if host.present && cidr.present then
        .error (place ++ units " names both a \"host\" and a \"cidr\"; split it in two")
      else if !host.present && !cidr.present then
        .error (place ++ units " must name a \"host\" or a \"cidr\"")
      else do
        let note ← parseNote (Unknown.member members "note") place
        let realms ← parseRealms (Unknown.member members "realms") place
        if host.present then
          let host ← parseHost host place
          return (⟨some host, none, realms, note⟩, ⟨some host, none, realms⟩)
        else
          let range ← parseCidr cidr place
          return (⟨none, cidr.text?, realms, note⟩, ⟨none, some range, realms⟩)
  | _ => .error (place ++ units " must be an object")

/-- The entries, and their form the client matches with. -/
structure EgressAllowlist where
  entries : List EgressAllowlistEntry
  compiled : List CompiledEntry

/-- Validate an allowlist, as the JSON of its file. -/
def parseEgressAllowlist (value : Unknown) (what : JsString) : Except JsString EgressAllowlist :=
  match value with
  | .obj members =>
    match members.find? fun m ↦ m.1 ≠ units "entries" with
    | some m => .error (what ++ units ": unknown member \"" ++ m.1 ++ units "\"")
    | none =>
      match Unknown.member members "entries" with
      | .arr raw =>
        if MAX_ENTRIES < raw.length then
          .error (what ++ units ": more than " ++ decimal MAX_ENTRIES ++ units " entries")
        else do
          let parsed ← raw.zipIdx.mapM (parseEntry what)
          return ⟨parsed.map Prod.fst, parsed.map Prod.snd⟩
      | _ => .error (what ++ units ": \"entries\" must be a list")
  | _ => .error (what ++ units ": must be a JSON object with an \"entries\" list")

/-- The allowlist of a deployment that names none. -/
def EMPTY_EGRESS_ALLOWLIST : EgressAllowlist := ⟨[], []⟩

/-! ### What the entries open -/

/-- Decides whether a non-public address of a host may be dialled for one call. -/
abbrev AddressPermit := JsString → JsString → Bool

/-- The kinds of address a `host` entry opens. -/
def HOST_ENTRY_KINDS : List AddressKind := [.privateUse, .shared, .uniqueLocal]

/-- Whether an IP literal lies in a range, an IPv4-mapped one judged as its IPv4 address too. -/
def rangeHolds (range : CompiledRange) (address : JsString) : Bool :=
  match parseIpv4 address with
  | some v4 => range.family = .ipv4 && inRange v4 range.bytes range.bits
  | none =>
    match parseIpv6 address with
    | none => false
    | some v6 =>
      if range.family = .ipv6 then inRange v6 range.bytes range.bits
      else (mappedIpv4 v6).any fun mapped ↦ inRange mapped range.bytes range.bits

/-- Whether an entry opens an address of a host. -/
def entryOpens (hostname address : JsString) (entry : CompiledEntry) : Bool :=
  entry.host = some hostname && addressKind address ∈ HOST_ENTRY_KINDS ||
    entry.range.any (rangeHolds · address)

/-- What the allowlist lets one call for a realm reach, where an entry names the realm. -/
def allowlistPermit (allowlist : EgressAllowlist) (realm : JsString) : Option AddressPermit :=
  let entries := allowlist.compiled.filter fun entry ↦ realm ∈ entry.realms
  if entries = [] then none
  else some fun hostname address ↦ entries.any (entryOpens hostname address)

/-! ### What they open, by the bits -/

/-- An address in a block of private, shared or unique-local addresses, or one that carries such an
address. -/
inductive Internal (bytes : List ℕ) : Prop
  | v4 {r : AddressRange × AddressKind} (hlength : bytes.length = 4) (hr : r ∈ IPV4_BLOCKED)
      (hkind : r.2 ∈ HOST_ENTRY_KINDS) (h : r.1.Holds bytes)
  | uniqueLocal (hlength : bytes.length = 16) (h : (AddressRange.mk [0xfc] 7).Holds bytes)
  | carried {v4 : List ℕ} {r : AddressRange × AddressKind} (hlength : bytes.length = 16)
      (hcarries : Carries bytes v4) (hr : r ∈ IPV4_BLOCKED) (hkind : r.2 ∈ HOST_ENTRY_KINDS)
      (h : r.1.Holds v4)

/-- An address begins with the bits of a range, or is IPv4-mapped and its IPv4 address does. -/
inductive CompiledRange.Opens (range : CompiledRange) (bytes : List ℕ) : Prop
  | own (hlength : bytes.length = range.family.length)
      (h : (AddressRange.mk range.bytes range.bits).Holds bytes)
  | mapped (hlength : bytes.length = 16) (hfamily : range.family = .ipv4)
      (hmapped : (AddressRange.mk IPV4_MAPPED_PREFIX 96).Holds bytes)
      (h : (AddressRange.mk range.bytes range.bits).Holds ((bytes.drop 12).take 4))

/-- An entry opens an address to a host: it names the host and the address is internal, or the
address is in its range. -/
inductive CompiledEntry.Opens (entry : CompiledEntry) (hostname : JsString) (bytes : List ℕ) : Prop
  | host (hhost : entry.host = some hostname) (h : Internal bytes)
  | range {range : CompiledRange} (hrange : entry.range = some range) (h : range.Opens bytes)

theorem internal_of_ipv4Kind {bytes : List ℕ} (h : IsAddress 4 bytes)
    (hkind : ipv4Kind bytes ∈ HOST_ENTRY_KINDS) :
    ∃ r ∈ IPV4_BLOCKED, r.2 ∈ HOST_ENTRY_KINDS ∧ r.1.Holds bytes := by
  rcases ipv4Kind_cases h with ⟨-, heq⟩ | ⟨r, hr, hholds, heq⟩
  · rw [heq] at hkind
    exact absurd hkind (by decide)
  · exact ⟨r, hr, heq ▸ hkind, hholds⟩

theorem internal_of_ipv6Kind {bytes : List ℕ} (h : IsAddress 16 bytes)
    (hkind : ipv6Kind bytes ∈ HOST_ENTRY_KINDS) : Internal bytes := by
  have hlocal : ∀ r ∈ IPV6_BLOCKED, r.2 ∈ HOST_ENTRY_KINDS → r.1 = ⟨[0xfc], 7⟩ := by decide
  rcases ipv6Kind_cases h with ⟨-, heq⟩ | ⟨-, -, heq⟩ | ⟨-, hcases⟩
  · exact absurd (heq ▸ hkind) (by decide)
  · exact absurd (heq ▸ hkind) (by decide)
  rcases hcases with ⟨v4, hv4, heq⟩ | ⟨-, ⟨r, hr, hholds, heq⟩ | ⟨-, ⟨-, heq⟩ | heq⟩⟩
  · obtain ⟨r, hr, hkind, hholds⟩ := internal_of_ipv4Kind (hv4.isAddress h) (heq ▸ hkind)
    exact .carried h.1 hv4 hr hkind hholds
  · exact .uniqueLocal h.1 (hlocal r hr (heq ▸ hkind) ▸ hholds)
  · exact absurd (heq ▸ hkind) (by decide)
  · exact absurd (heq ▸ hkind) (by decide)

/-- A text of a kind that a host entry opens stands for an internal address. -/
theorem internal_of_kind {text : JsString} {bytes : List ℕ} (h : Denotes text bytes)
    (hkind : addressKind text ∈ HOST_ENTRY_KINDS) : Internal bytes := by
  rw [addressKind] at hkind
  rcases denotes_iff.mp h with h4 | h6
  · rw [h4] at hkind
    have haddress := (parseIpv4_eq_some_iff.mp h4).isAddress
    obtain ⟨r, hr, hkind, hholds⟩ := internal_of_ipv4Kind haddress hkind
    exact .v4 haddress.1 hr hkind hholds
  · cases h4 : parseIpv4 text with
    | some v4 =>
      rw [parseIpv6_of_parseIpv4 h4] at h6
      exact absurd h6 (Option.some_ne_none _).symm
    | none =>
      rw [h4, h6] at hkind
      exact internal_of_ipv6Kind (isAddress_of_parseIpv6 h6) hkind

theorem mappedIpv4_eq_some_iff {bytes v4 : List ℕ} (h : IsAddress 16 bytes) :
    mappedIpv4 bytes = some v4 ↔
      (AddressRange.mk IPV4_MAPPED_PREFIX 96).Holds bytes ∧ v4 = (bytes.drop 12).take 4 := by
  have hmapped : startsWith bytes IPV4_MAPPED_PREFIX = true ↔
      (AddressRange.mk IPV4_MAPPED_PREFIX 96).Holds bytes := startsWith_iff h (by decide)
  rw [mappedIpv4, ← hmapped]
  split_ifs with hstart
  · exact ⟨fun h ↦ ⟨hstart, (Option.some.inj h).symm⟩, fun h ↦ congrArg some h.2.symm⟩
  · exact ⟨fun h ↦ absurd h (by simp), fun h ↦ absurd h.1 hstart⟩

/-- A range holds a text if and only if it opens the address that the text stands for. -/
theorem rangeHolds_iff {range : CompiledRange} {text : JsString} {bytes : List ℕ}
    (h : Denotes text bytes) : rangeHolds range text = true ↔ range.Opens bytes := by
  rw [rangeHolds]
  have hsized := range.sized
  rcases denotes_iff.mp h with h4 | h6
  · have haddress := (parseIpv4_eq_some_iff.mp h4).isAddress
    rw [h4]
    simp only [Bool.and_eq_true, decide_eq_true_eq]
    constructor
    · rintro ⟨hfamily, hrange⟩
      rw [hfamily] at hsized
      exact .own (by rw [hfamily]; exact haddress.1) ((hsized.inRange_iff haddress).mp hrange)
    · intro hopens
      cases hopens with
      | own hlength hholds =>
        rw [haddress.1] at hlength
        cases hfamily : range.family with
        | ipv4 =>
          rw [hfamily] at hsized
          exact ⟨rfl, (hsized.inRange_iff haddress).mpr hholds⟩
        | ipv6 =>
          rw [hfamily] at hlength
          exact absurd hlength (by decide)
      | mapped hlength =>
        rw [haddress.1] at hlength
        exact absurd hlength (by decide)
  · have haddress := isAddress_of_parseIpv6 h6
    have h4 : parseIpv4 text = none := by
      cases h4 : parseIpv4 text with
      | none => rfl
      | some v4 =>
        rw [parseIpv6_of_parseIpv4 h4] at h6
        exact absurd h6 (Option.some_ne_none _).symm
    rw [h4, h6]
    dsimp only
    cases hfamily : range.family with
    | ipv6 =>
      rw [hfamily] at hsized
      rw [if_pos rfl, hsized.inRange_iff haddress]
      constructor
      · intro hholds
        exact .own (by rw [hfamily]; exact haddress.1) hholds
      · intro hopens
        cases hopens with
        | own hlength hholds => exact hholds
        | mapped _ hfamily' => exact absurd (hfamily.symm.trans hfamily') (by decide)
    | ipv4 =>
      rw [hfamily] at hsized
      rw [if_neg (by decide), Option.any_eq_true]
      constructor
      · rintro ⟨v4, hv4, hrange⟩
        obtain ⟨hmapped, rfl⟩ := (mappedIpv4_eq_some_iff haddress).mp hv4
        have hv4 := (Carries.mapped hmapped).isAddress haddress
        exact .mapped haddress.1 hfamily hmapped ((hsized.inRange_iff hv4).mp hrange)
      · intro hopens
        cases hopens with
        | own hlength =>
          rw [haddress.1, hfamily] at hlength
          exact absurd hlength (by decide)
        | mapped _ _ hmapped hholds =>
          have hv4 := (Carries.mapped hmapped).isAddress haddress
          exact ⟨_, (mappedIpv4_eq_some_iff haddress).mpr ⟨hmapped, rfl⟩,
            (hsized.inRange_iff hv4).mpr hholds⟩

/-- What a permit lets through is opened by an entry that names the realm. -/
theorem opens_of_allowlistPermit {allowlist : EgressAllowlist} {realm : JsString}
    {permit : AddressPermit} (hpermit : allowlistPermit allowlist realm = some permit)
    {hostname address : JsString} {bytes : List ℕ} (h : Denotes address bytes)
    (hopens : permit hostname address = true) :
    ∃ entry ∈ allowlist.compiled, realm ∈ entry.realms ∧ entry.Opens hostname bytes := by
  rw [allowlistPermit] at hpermit
  split_ifs at hpermit
  obtain rfl := Option.some.inj hpermit
  rw [List.any_eq_true] at hopens
  obtain ⟨entry, hentry, hopens⟩ := hopens
  rw [List.mem_filter, decide_eq_true_eq] at hentry
  refine ⟨entry, hentry.1, hentry.2, ?_⟩
  rw [entryOpens, Bool.or_eq_true, Bool.and_eq_true, decide_eq_true_eq, decide_eq_true_eq,
    Option.any_eq_true] at hopens
  rcases hopens with ⟨hhost, hkind⟩ | ⟨range, hrange, hholds⟩
  · exact .host hhost (internal_of_kind h hkind)
  · exact .range hrange ((rangeHolds_iff h).mp hholds)

end QAuth.Egress
