import QAuth.Egress.AddressText

/-!
# The network bucket of an end-user IP

`endUserIpBucket` of `round-limits.ts`: the network by which the addresses of end users are grouped
when their distinct identifiers are counted. An IPv4 address is in its /24 and an IPv6 address in
its /48; an IPv6 address that stands for an IPv4 client is in the /24 of that client.
-/

namespace QAuth.SignIn

open Egress

/-! ### Numbers as text -/

/-- `toString` of a whole number to a base. -/
def digitsText (base n : ℕ) : JsString := (Nat.toDigits base n).map unit

theorem digitValue_digitChar {base d : ℕ} (hbase : base ≤ 16) (hd : d < base) :
    digitValue base (unit (Nat.digitChar d)) = some d := by
  have hdigit : digitValue 16 (unit (Nat.digitChar d)) = some d := by
    have hall : ∀ d < 16, digitValue 16 (unit (Nat.digitChar d)) = some d := by decide
    exact hall d (by omega)
  rw [digitValue, Option.filter_eq_some_iff] at hdigit ⊢
  exact ⟨hdigit.1, decide_eq_true hd⟩

theorem parseInt_concat (base : ℕ) (text : JsString) (u : UInt16) :
    parseInt base (text ++ [u]) = parseInt base text * base + (digitValue base u).getD 0 := by
  rw [parseInt, List.foldl_append, List.foldl_cons, List.foldl_nil, parseInt]

theorem digitsText_spec {base : ℕ} (hone : 1 < base) (hbase : base ≤ 16) (n : ℕ) :
    (∀ u ∈ digitsText base n, (digitValue base u).isSome = true) ∧
      parseInt base (digitsText base n) = n := by
  induction n using Nat.strong_induction_on with
  | _ n ih =>
    by_cases hn : n < base
    · have hvalue := digitValue_digitChar hbase hn
      rw [digitsText, Nat.toDigits_of_lt_base hn, List.map_singleton]
      refine ⟨fun u hu ↦ ?_, ?_⟩
      · rw [List.mem_singleton.mp hu, hvalue, Option.isSome_some]
      · rw [← List.nil_append [_], parseInt_concat, hvalue]
        simp [parseInt]
    · obtain ⟨hdigits, hread⟩ := ih (n / base) (Nat.div_lt_self (by omega) hone)
      have hvalue := digitValue_digitChar hbase (Nat.mod_lt n (by omega : base > 0))
      have hsplit : digitsText base n =
          digitsText base (n / base) ++ [unit (Nat.digitChar (n % base))] := by
        rw [digitsText, Nat.toDigits_of_base_le hone (by omega), List.map_append,
          List.map_singleton, digitsText]
      rw [hsplit]
      refine ⟨fun u hu ↦ ?_, ?_⟩
      · rcases List.mem_append.mp hu with hu | hu
        · exact hdigits u hu
        · rw [List.mem_singleton.mp hu, hvalue, Option.isSome_some]
      · rw [parseInt_concat, hread, hvalue, Option.getD_some, Nat.mul_comm, Nat.div_add_mod]

theorem digitsText_injective {base : ℕ} (hone : 1 < base) (hbase : base ≤ 16) :
    Function.Injective (digitsText base) := by
  intro m n h
  rw [← (digitsText_spec hone hbase m).2, h, (digitsText_spec hone hbase n).2]

theorem not_mem_digitsText {base : ℕ} (hone : 1 < base) (hbase : base ≤ 16) (n : ℕ) {u : UInt16}
    (hu : digitValue base u = none) : u ∉ digitsText base n :=
  not_mem_of_all_digits (List.all_eq_true.mpr (digitsText_spec hone hbase n).1) hu

theorem isHextet_digitsText {n : ℕ} (h : n < 65536) : isHextet (digitsText 16 n) = true := by
  rw [isHextet_iff, digitsText, List.length_map]
  refine ⟨Nat.length_toDigits_pos, ?_, ?_⟩
  · exact (Nat.length_toDigits_le_iff (by decide) (by decide)).mpr h
  · exact List.all_eq_true.mpr (digitsText_spec (by decide) (by decide) n).1

/-! ### The source's -/

/-- The text with the dotted quad at its end, if there is one, written as two groups. -/
def withoutQuad (text : JsString) : Option JsString :=
  let afterColon := (lastIndexOf (unit ':') text).elim 0 (· + 1)
  let last := text.drop afterColon
  if unit '.' ∈ last then
    if !isIPv4 last then none
    else
      let octets := (last.splitOn (unit '.')).map (parseInt 10)
      some (text.take afterColon ++ digitsText 16 (octets.getD 0 0 * 256 + octets.getD 1 0) ++
        unit ':' :: digitsText 16 (octets.getD 2 0 * 256 + octets.getD 3 0))
  else some text

/-- The groups of a half of the text. -/
def groupsOf (half : JsString) : List JsString :=
  if half = [] then [] else half.splitOn (unit ':')

/-- The eight groups of a text without a dotted quad. -/
def eightGroups (text : JsString) : Option (List ℕ) :=
  let halves := splitDouble text
  let left := groupsOf (halves.getD 0 [])
  let right := if halves.length < 2 then [] else groupsOf (halves.getD 1 [])
  let groups :=
    if halves.length = 2 then
      left ++ List.replicate (8 - left.length - right.length) [unit '0'] ++ right
    else left
  if groups.length ≠ 8 then none else some (groups.map (parseInt 16))

/-- The eight groups of sixteen bits of an IPv6 address, and nothing of anything else. -/
def ipv6Groups (address : JsString) : Option (List ℕ) :=
  if isIP address ≠ 6 then none
  else (withoutQuad (toLowerCase address)).bind eightGroups

/-- The /24 of an IPv4 address. -/
def ipv4Bucket (octets : List ℕ) : JsString :=
  [unit '.'].intercalate ((octets.take 3).map (digitsText 10)) ++ units ".0/24"

def endUserIpBucket (endUserIp : JsString) : JsString :=
  if isIPv4 endUserIp then ipv4Bucket ((endUserIp.splitOn (unit '.')).map (parseInt 10))
  else
    match ipv6Groups ((endUserIp.splitOn (unit '%')).getD 0 endUserIp) with
    | none => endUserIp
    | some groups =>
      let translated := groups.take 6 = [0x64, 0xff9b, 0, 0, 0, 0]
      let mapped := groups.take 6 = [0, 0, 0, 0, 0, 0xffff]
      if translated ∨ mapped then
        ipv4Bucket [groups.getD 6 0 / 256, groups.getD 6 0 % 256, groups.getD 7 0 / 256]
      else [unit ':'].intercalate ((groups.take 3).map (digitsText 16)) ++ units "::/48"

/-! ### The groups of an address -/

theorem hexGroups_append {groups groups' : List JsString} {hextets hextets' : List ℕ}
    (h : HexGroups groups hextets) (h' : HexGroups groups' hextets') :
    HexGroups (groups ++ groups') (hextets ++ hextets') := by
  refine ⟨fun g hg ↦ ?_, by rw [h.2, h'.2, List.map_append]⟩
  rcases List.mem_append.mp hg with hg | hg
  · exact h.1 g hg
  · exact h'.1 g hg

theorem hexGroups_digitsText {hextets : List ℕ} (h : ∀ n ∈ hextets, n < 65536) :
    HexGroups (hextets.map (digitsText 16)) hextets := by
  refine ⟨fun g hg ↦ ?_, ?_⟩
  · obtain ⟨n, hn, rfl⟩ := List.mem_map.mp hg
    exact isHextet_digitsText (h n hn)
  · rw [List.map_map]
    refine (List.map_id'' ?_ hextets).symm
    exact fun n ↦ (digitsText_spec (by decide) (by decide) n).2

theorem groupsOf_joinColon {groups : List JsString} {hextets : List ℕ}
    (h : HexGroups groups hextets) : groupsOf (joinColon groups) = groups := by
  by_cases hne : groups = []
  · subst hne
    rfl
  · rw [groupsOf, if_neg (joinColon_ne_nil hne fun g hg ↦ (isHextet_plain (h.1 g hg)).1),
      splitOn_joinColon hne fun g hg ↦ (isHextet_plain (h.1 g hg)).2.1]

theorem eightGroups_full {groups : List JsString} {hextets : List ℕ} (h : HexGroups groups hextets)
    (hlength : hextets.length = 8) : eightGroups (joinColon groups) = some hextets := by
  rw [h.length] at hlength
  simp only [eightGroups, splitDouble_of_plain h.plain, List.getD_cons_zero, groupsOf_joinColon h,
    List.length_singleton, if_neg (show ¬ 1 = 2 by decide), hlength, ne_eq, not_true, if_false]
  rw [h.2]

theorem eightGroups_compressed {head back : List JsString} {hextets behind : List ℕ}
    (hhead : HexGroups head hextets) (hback : HexGroups back behind)
    (hlength : hextets.length + behind.length ≤ 7) :
    eightGroups (joinColon head ++ unit ':' :: unit ':' :: joinColon back) =
      some (hextets ++ List.replicate (8 - (hextets.length + behind.length)) 0 ++ behind) := by
  have hsub : 8 - head.length - back.length = 8 - (hextets.length + behind.length) := by
    rw [hhead.length, hback.length]
    omega
  have height : (head ++ List.replicate (8 - (hextets.length + behind.length)) [unit '0'] ++
      back).length = 8 := by
    rw [List.length_append, List.length_append, List.length_replicate, ← hhead.length,
      ← hback.length]
    omega
  simp only [eightGroups, splitDouble_append hhead.plain, splitDouble_of_plain hback.plain,
    List.getD_cons_zero, List.getD_cons_succ, groupsOf_joinColon hhead, groupsOf_joinColon hback,
    List.length_cons, List.length_nil, if_pos, if_neg (show ¬ 0 + 1 + 1 < 2 by decide), hsub]
  rw [if_neg (not_not.mpr height), List.map_append, List.map_append, List.map_replicate, ← hhead.2,
    ← hback.2]
  rfl

theorem withoutQuad_of_not_dot {text : JsString} (h : unit '.' ∉ text) :
    withoutQuad text = some text := by
  simp only [withoutQuad]
  rw [if_neg fun hmem ↦ h (List.mem_of_mem_drop hmem)]

theorem withoutQuad_quad {quad : JsString} {a b c d : ℕ} (h : DottedQuad quad [a, b, c, d])
    (text : JsString) :
    withoutQuad (text ++ unit ':' :: quad) =
      some (text ++ unit ':' :: joinColon [digitsText 16 (a * 256 + b),
        digitsText 16 (c * 256 + d)]) := by
  obtain ⟨-, -, hdot, hcolon, -⟩ := h.facts
  obtain ⟨hquad, hbytes⟩ := dottedQuad_iff.mp h
  have hdrop : (text ++ unit ':' :: quad).drop (text.length + 1) = quad := by
    rw [← List.drop_drop, List.drop_left, List.drop_one, List.tail_cons]
  have htake : (text ++ unit ':' :: quad).take (text.length + 1) = text ++ [unit ':'] := by
    rw [← List.singleton_append, ← List.append_assoc, List.take_left' (by simp)]
  simp only [withoutQuad, lastIndexOf_append hcolon, Option.elim_some, hdrop, htake, if_pos hdot,
    hquad, ← hbytes, joinColon_cons_cons, joinColon_singleton]
  simp

/-- The two groups that stand for a dotted quad. -/
theorem hexGroups_quad {quad : JsString} {a b c d : ℕ} (h : DottedQuad quad [a, b, c, d]) :
    HexGroups [digitsText 16 (a * 256 + b), digitsText 16 (c * 256 + d)]
      [a * 256 + b, c * 256 + d] :=
  hexGroups_digitsText (Tail.dotted h).facts.2

theorem eightGroups_of_ipv6Text {text : JsString} {hextets : List ℕ} (h : Ipv6Text text hextets) :
    (withoutQuad text).bind eightGroups = some hextets := by
  have hdot : unit '.' = unit '.' ∨ unit '.' = unit '%' := .inl rfl
  cases h with
  | @full head tail hextets ends hhead htail hlength =>
    cases htail with
    | nothing =>
      rw [List.append_nil, List.append_nil, withoutQuad_of_not_dot (hhead.not_mem hdot),
        Option.bind_some]
      exact eightGroups_full hhead hlength
    | @dotted quad a b c d hquad =>
      have hne : head ≠ [] := by
        rintro rfl
        rw [hhead.2] at hlength
        simp at hlength
      rw [joinColon_append hne (List.cons_ne_nil _ _), joinColon_singleton, withoutQuad_quad hquad,
        Option.bind_some, ← joinColon_append hne (List.cons_ne_nil _ _)]
      refine eightGroups_full (hexGroups_append hhead (hexGroups_quad hquad)) ?_
      rwa [List.length_append]
  | @compressed head back tail hextets behind ends hhead hback htail hlength =>
    cases htail with
    | nothing =>
      have hnot : unit '.' ∉ joinColon head ++ unit ':' :: unit ':' :: joinColon back := by
        rw [List.mem_append, List.mem_cons, List.mem_cons]
        have hcolon : unit '.' ≠ unit ':' := by decide
        simp [hhead.not_mem hdot, hback.not_mem hdot, hcolon]
      rw [List.append_nil, List.append_nil, withoutQuad_of_not_dot hnot, Option.bind_some]
      exact eightGroups_compressed hhead hback hlength
    | @dotted quad a b c d hquad =>
      have hbehind := hexGroups_append hback (hexGroups_quad hquad)
      have hfill := eightGroups_compressed hhead hbehind (by rw [List.length_append]; omega)
      rw [List.length_append, ← Nat.add_assoc, ← List.append_assoc] at hfill
      -- the quad stands after the last colon, which may be the second of the `::`
      by_cases hne : back = []
      · subst hne
        rw [List.nil_append, joinColon_singleton, ← List.singleton_append, ← List.append_assoc,
          withoutQuad_quad hquad, Option.bind_some, List.append_assoc, List.singleton_append]
        exact hfill
      · have hsplit : joinColon head ++ unit ':' :: unit ':' :: joinColon (back ++ [quad]) =
            (joinColon head ++ unit ':' :: unit ':' :: joinColon back) ++ unit ':' :: quad := by
          rw [joinColon_append hne (List.cons_ne_nil _ _), joinColon_singleton]
          simp
        rw [hsplit, withoutQuad_quad hquad, Option.bind_some, List.append_assoc, List.cons_append,
          List.cons_append, ← joinColon_append hne (List.cons_ne_nil _ _)]
        exact hfill

/-- The groups of an address, whatever its text. -/
theorem ipv6Groups_eq_some {text : JsString} {hextets : List ℕ}
    (h : Ipv6Text (toLowerCase text) hextets) : ipv6Groups text = some hextets := by
  have hpercent : unit '%' ∈ toLowerCase text ↔ unit '%' ∈ text := mem_toLowerCase (by decide)
  have hsix : isIP text = 6 :=
    (isIP_eq_six_iff fun hmem ↦ h.facts.2.2.2 (hpercent.mpr hmem)).mpr ⟨hextets, h⟩
  rw [ipv6Groups, if_neg (not_not.mpr hsix)]
  exact eightGroups_of_ipv6Text h

/-! ### The network of an address -/

/-- The four bytes of an IPv4 address, or the eight groups of an IPv6 address. -/
inductive Address
  | v4 (octets : List ℕ)
  | v6 (groups : List ℕ)

/-- An IPv6 address that stands for an IPv4 client: it is in `64:ff9b::/96` or `::ffff:0:0/96`. -/
def StandsForIpv4 (groups : List ℕ) : Prop :=
  groups.take 6 = [0x64, 0xff9b, 0, 0, 0, 0] ∨ groups.take 6 = [0, 0, 0, 0, 0, 0xffff]

instance (groups : List ℕ) : Decidable (StandsForIpv4 groups) := inferInstanceAs (Decidable (_ ∨ _))

/-- The address of the client that eight groups stand for. -/
def Address.ofGroups (groups : List ℕ) : Address :=
  if StandsForIpv4 groups then .v4 (bytesOf (groups.drop 6)) else .v6 groups

/-- A text of an address: an IPv4 address also as an IPv6 address that stands for it, and an IPv6
address in any case and with any zone id. -/
inductive Spells : JsString → Address → Prop
  | v4 {text : JsString} {octets : List ℕ} (h : DottedQuad text octets) : Spells text (.v4 octets)
  | v6 {text : JsString} {groups : List ℕ} (h : Ipv6Text (toLowerCase text) groups) :
      Spells text (.ofGroups groups)
  | zoned {text : JsString} {groups : List ℕ} (h : Ipv6Text (toLowerCase text) groups)
      (zone : JsString) : Spells (text ++ unit '%' :: zone) (.ofGroups groups)

/-- A network: the first three bytes of an IPv4 /24, or the first three groups of an IPv6 /48. -/
inductive Network
  | slash24 (octets : List ℕ)
  | slash48 (groups : List ℕ)
deriving DecidableEq

def networkOf : Address → Network
  | .v4 octets => .slash24 (octets.take 3)
  | .v6 groups => .slash48 (groups.take 3)

/-- The numbers that name a network. -/
def Network.parts : Network → List ℕ
  | .slash24 octets => octets
  | .slash48 groups => groups

def Network.text : Network → JsString
  | .slash24 octets => [unit '.'].intercalate (octets.map (digitsText 10)) ++ units ".0/24"
  | .slash48 groups => [unit ':'].intercalate (groups.map (digitsText 16)) ++ units "::/48"

/-- A text of numbers with a separator between them names these numbers. -/
theorem join_digitsText_injective {base : ℕ} (hone : 1 < base) (hbase : base ≤ 16) {sep : UInt16}
    (hsep : digitValue base sep = none) {xs ys : List ℕ} (hxs : xs ≠ []) (hys : ys ≠ [])
    (h : [sep].intercalate (xs.map (digitsText base)) =
      [sep].intercalate (ys.map (digitsText base))) : xs = ys := by
  have hsplit : ∀ zs : List ℕ, zs ≠ [] →
      ([sep].intercalate (zs.map (digitsText base))).splitOn sep = zs.map (digitsText base) := by
    intro zs hzs
    refine List.splitOn_intercalate _ (fun text htext ↦ ?_) (by simpa using hzs)
    obtain ⟨n, -, rfl⟩ := List.mem_map.mp htext
    exact not_mem_digitsText hone hbase n hsep
  have hmap : xs.map (digitsText base) = ys.map (digitsText base) := by
    rw [← hsplit xs hxs, h, hsplit ys hys]
  exact List.map_injective_iff.mpr (digitsText_injective hone hbase) hmap

theorem Network.eq_of_text {n n' : Network} (hn : n.parts ≠ []) (hn' : n'.parts ≠ [])
    (h : n.text = n'.text) : n = n' := by
  have hlast : ∀ xs ys : JsString,
      xs ++ units ".0/24" ≠ ys ++ units "::/48" := by
    intro xs ys heq
    have hend := congrArg List.getLast? heq
    rw [List.getLast?_append_of_ne_nil _ (by decide), List.getLast?_append_of_ne_nil _ (by decide)]
      at hend
    exact absurd hend (by decide)
  obtain ⟨hcolon, -, -⟩ := digitValue_separator 16
  obtain ⟨-, hdot, -⟩ := digitValue_separator 10
  match n, n' with
  | .slash24 octets, .slash24 octets' =>
    exact congrArg slash24 (join_digitsText_injective (by decide) (by decide) hdot hn hn'
      (List.append_cancel_right h))
  | .slash48 groups, .slash48 groups' =>
    exact congrArg slash48 (join_digitsText_injective (by decide) (by decide) hcolon hn hn'
      (List.append_cancel_right h))
  | .slash24 _, .slash48 _ => exact absurd h (hlast _ _)
  | .slash48 _, .slash24 _ => exact absurd h.symm (hlast _ _)

/-! ### The bucket of an address -/

section Bucket

variable {text text' : JsString} {address address' : Address} {groups : List ℕ}

theorem isIPv4_eq_false_of_colon (h : unit ':' ∈ text) : isIPv4 text = false := by
  by_contra hfour
  exact (dottedQuad_iff.mpr ⟨by simpa using hfour, rfl⟩).facts.2.2.2.1 h

/-- The text before a zone id is what is read of an address. -/
theorem getD_splitOn_zone (htext : unit '%' ∉ text) (zone : JsString) :
    ((text ++ unit '%' :: zone).splitOn (unit '%')).getD 0 (text ++ unit '%' :: zone) = text := by
  rw [List.splitOn_append_cons_self_of_not_mem htext, List.getD_cons_zero]

/-- The bucket of a text whose part before a zone id has these groups. -/
theorem endUserIpBucket_of_groups (hcolon : unit ':' ∈ text) (hlength : groups.length = 8)
    (hgroups : ipv6Groups ((text.splitOn (unit '%')).getD 0 text) = some groups) :
    endUserIpBucket text = (networkOf (.ofGroups groups)).text := by
  rw [endUserIpBucket, isIPv4_eq_false_of_colon hcolon, if_neg Bool.false_ne_true, hgroups,
    Address.ofGroups]
  dsimp only
  by_cases hclient : StandsForIpv4 groups
  · rw [if_pos hclient]
    refine (if_pos hclient).trans ?_
    match groups, hlength with
    | [g0, g1, g2, g3, g4, g5, g6, g7], _ => rfl
  · rw [if_neg hclient]
    exact if_neg hclient

theorem endUserIpBucket_of_spells (h : Spells text address) :
    endUserIpBucket text = (networkOf address).text := by
  cases h with
  | v4 h =>
    obtain ⟨hfour, rfl⟩ := dottedQuad_iff.mp h
    rw [endUserIpBucket, if_pos hfour]
    rfl
  | @v6 text groups h =>
    obtain ⟨hlength, -, hcolon, hpercent⟩ := h.facts
    rw [mem_toLowerCase (by decide)] at hcolon hpercent
    refine endUserIpBucket_of_groups hcolon hlength ?_
    rw [splitOn_of_not_mem hpercent, List.getD_cons_zero, ipv6Groups_eq_some h]
  | @zoned text groups h zone =>
    obtain ⟨hlength, -, hcolon, hpercent⟩ := h.facts
    rw [mem_toLowerCase (by decide)] at hcolon hpercent
    refine endUserIpBucket_of_groups (List.mem_append_left _ hcolon) hlength ?_
    rw [getD_splitOn_zone hpercent, ipv6Groups_eq_some h]

theorem endUserIpBucket_of_not_spells (h : ∀ address, ¬ Spells text address) :
    endUserIpBucket text = text := by
  have hfour : ¬ isIPv4 text = true := fun hfour ↦ h _ (.v4 (dottedQuad_iff.mpr ⟨hfour, rfl⟩))
  have hnot : isIP ((text.splitOn (unit '%')).getD 0 text) ≠ 6 := by
    intro hsix
    by_cases hpercent : unit '%' ∈ text
    · obtain ⟨head, zone, rfl, hhead⟩ := List.eq_append_cons_of_mem hpercent
      rw [getD_splitOn_zone hhead] at hsix
      obtain ⟨groups, hgroups⟩ := (isIP_eq_six_iff hhead).mp hsix
      exact h _ (.zoned hgroups zone)
    · rw [splitOn_of_not_mem hpercent, List.getD_cons_zero] at hsix
      obtain ⟨groups, hgroups⟩ := (isIP_eq_six_iff hpercent).mp hsix
      exact h _ (.v6 hgroups)
  rw [endUserIpBucket, if_neg hfour, ipv6Groups, if_pos hnot]

theorem exists_spells_of_isIP (h : isIP text ≠ 0) : ∃ address, Spells text address := by
  by_cases hfour : isIPv4 text = true
  · exact ⟨_, .v4 (dottedQuad_iff.mpr ⟨hfour, rfl⟩)⟩
  · by_cases hpercent : unit '%' ∈ text
    · obtain ⟨head, zone, rfl, hhead⟩ := List.eq_append_cons_of_mem hpercent
      rw [isIP, if_neg hfour, List.splitOn_append_cons_self_of_not_mem hhead] at h
      have hsix : isIPv6 (toLowerCase head) = true := by
        by_contra hsix
        cases hzone : zone.splitOn (unit '%') with
        | nil => exact List.splitOn_ne_nil _ _ hzone
        | cons part parts =>
          rw [hzone] at h
          cases parts <;> simp [hsix] at h
      obtain ⟨groups, hgroups⟩ := isIPv6_iff.mp hsix
      exact ⟨_, .zoned hgroups zone⟩
    · rw [isIP, if_neg hfour, splitOn_of_not_mem hpercent] at h
      have hsix : isIPv6 (toLowerCase text) = true := by
        by_contra hsix
        exact h (if_neg hsix)
      obtain ⟨groups, hgroups⟩ := isIPv6_iff.mp hsix
      exact ⟨_, .v6 hgroups⟩

theorem Spells.parts_ne_nil (h : Spells text address) : (networkOf address).parts ≠ [] := by
  have hv6 : ∀ groups : List ℕ, groups.length = 8 → (networkOf (.ofGroups groups)).parts ≠ [] := by
    intro groups hlength
    match groups, hlength with
    | [g0, g1, g2, g3, g4, g5, g6, g7], _ =>
      rw [Address.ofGroups]
      split_ifs <;> exact List.cons_ne_nil _ _
  cases h with
  | v4 h =>
    obtain ⟨a, b, c, d, rfl⟩ := List.length_eq_four.mp h.facts.1
    exact List.cons_ne_nil _ _
  | v6 h => exact hv6 _ h.facts.1
  | zoned h zone => exact hv6 _ h.facts.1

/-- Texts of addresses have one bucket if and only if the addresses share the network that they are
grouped by. -/
theorem endUserIpBucket_eq_iff (h : Spells text address) (h' : Spells text' address') :
    endUserIpBucket text = endUserIpBucket text' ↔ networkOf address = networkOf address' := by
  rw [endUserIpBucket_of_spells h, endUserIpBucket_of_spells h']
  exact ⟨Network.eq_of_text h.parts_ne_nil h'.parts_ne_nil, congrArg Network.text⟩

/-- A translated IPv6 address is in the bucket of its IPv4 client's neighbour. -/
theorem endUserIpBucket_eq_iff_sample :
    endUserIpBucket (units "64:FF9B::CB00:7107") = endUserIpBucket (units "203.0.113.9") := by
  have hhead : HexGroups [units "64", units "ff9b"] [0x64, 0xff9b] := ⟨by decide, by decide⟩
  have hback : HexGroups [units "cb00", units "7107"] [0xcb00, 0x7107] := ⟨by decide, by decide⟩
  have htext : toLowerCase (units "64:FF9B::CB00:7107") = joinColon [units "64", units "ff9b"] ++
      unit ':' :: unit ':' :: joinColon ([units "cb00", units "7107"] ++ []) := by decide
  have hsix : Ipv6Text (toLowerCase (units "64:FF9B::CB00:7107"))
      [0x64, 0xff9b, 0, 0, 0, 0, 0xcb00, 0x7107] :=
    htext ▸ .compressed hhead hback .nothing (by decide)
  have hfour : DottedQuad (units "203.0.113.9") [203, 0, 113, 9] :=
    dottedQuad_iff.mpr ⟨by decide, by decide⟩
  exact (endUserIpBucket_eq_iff (.v6 hsix) (.v4 hfour)).mpr (by decide)

end Bucket

end QAuth.SignIn
