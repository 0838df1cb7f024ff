import QAuth.Egress.Address

/-!
# What the text of an address stands for

The textual forms of an IP address: four decimal numbers between dots; eight groups of hexadecimal
digits between colons, of which a run may be left out at one `::` and the last two may be written as
an IPv4 address. `parseIpv4` and `parseIpv6` give the bytes that a text stands for, whichever form it
has.
-/

namespace QAuth.Egress

/-! ### Joining and splitting -/

/-- Groups with a colon between them. -/
def joinColon (groups : List JsString) : JsString := [unit ':'].intercalate groups

@[simp] theorem joinColon_nil : joinColon [] = [] := rfl

@[simp] theorem joinColon_singleton (g : JsString) : joinColon [g] = g := by
  rw [joinColon, List.intercalate_singleton]

theorem joinColon_cons_cons (g g' : JsString) (groups : List JsString) :
    joinColon (g :: g' :: groups) = g ++ unit ':' :: joinColon (g' :: groups) := by
  rw [joinColon, List.intercalate_cons_cons, List.append_assoc, List.singleton_append, joinColon]

theorem joinColon_append {head : List JsString} (hhead : head ≠ []) {back : List JsString}
    (hback : back ≠ []) : joinColon (head ++ back) = joinColon head ++ unit ':' :: joinColon back := by
  induction head with
  | nil => exact absurd rfl hhead
  | cons g head ih =>
    cases head with
    | nil =>
      obtain ⟨g', back, rfl⟩ := List.exists_cons_of_ne_nil hback
      rw [List.singleton_append, joinColon_cons_cons, joinColon_singleton]
    | cons g' head =>
      rw [List.cons_append, List.cons_append, joinColon_cons_cons, ← List.cons_append,
        ih (List.cons_ne_nil _ _), joinColon_cons_cons, List.append_assoc, List.cons_append]

/-- No two colons stand next to each other, and none stands last. -/
def Plain : JsString → Prop
  | [] => True
  | [u] => u ≠ unit ':'
  | u :: v :: rest => ¬ (u = unit ':' ∧ v = unit ':') ∧ Plain (v :: rest)

theorem splitDouble_append {text : JsString} (h : Plain text) (rest : JsString) :
    splitDouble (text ++ unit ':' :: unit ':' :: rest) = text :: splitDouble rest := by
  induction text using splitDouble.induct with
  | case1 => simp [splitDouble]
  | case2 u =>
    have hu : ¬ (u = unit ':' ∧ unit ':' = unit ':') := fun h' ↦ h h'.1
    rw [List.singleton_append, splitDouble, if_neg hu, splitDouble, if_pos ⟨rfl, rfl⟩]
    rfl
  | case3 u v text huv ih => exact absurd huv h.1
  | case4 u v text huv ih =>
    have hrest := ih h.2
    rw [List.cons_append] at hrest
    rw [List.cons_append, List.cons_append, splitDouble, if_neg huv, hrest]
    rfl

theorem splitDouble_of_plain {text : JsString} (h : Plain text) : splitDouble text = [text] := by
  induction text using splitDouble.induct with
  | case1 => rfl
  | case2 u => rfl
  | case3 u v text huv ih => exact absurd huv h.1
  | case4 u v text huv ih =>
    rw [splitDouble, if_neg huv, ih h.2]
    rfl

theorem splitDouble_ne_nil (text : JsString) : splitDouble text ≠ [] := by
  induction text using splitDouble.induct with
  | case1 => simp [splitDouble]
  | case2 u => simp [splitDouble]
  | case3 u v text huv ih => simp [splitDouble, huv]
  | case4 u v text huv ih =>
    rw [splitDouble, if_neg huv]
    obtain ⟨part, parts, hparts⟩ := List.exists_cons_of_ne_nil ih
    simp [hparts]

theorem intercalate_splitDouble (text : JsString) :
    [unit ':', unit ':'].intercalate (splitDouble text) = text := by
  induction text using splitDouble.induct with
  | case1 => rfl
  | case2 u => rfl
  | case3 u v text huv ih =>
    obtain ⟨part, parts, hparts⟩ := List.exists_cons_of_ne_nil (splitDouble_ne_nil text)
    rw [splitDouble, if_pos huv, huv.1, huv.2]
    rw [hparts] at ih ⊢
    simp only [List.intercalate] at ih ⊢
    simpa using ih
  | case4 u v text huv ih =>
    obtain ⟨part, parts, hparts⟩ := List.exists_cons_of_ne_nil (splitDouble_ne_nil (v :: text))
    rw [splitDouble, if_neg huv]
    rw [hparts] at ih ⊢
    cases parts with
    | nil => simpa [List.intercalate] using ih
    | cons part' parts => simpa [List.intercalate] using ih

theorem plain_joinColon {groups : List JsString}
    (h : ∀ g ∈ groups, g ≠ [] ∧ unit ':' ∉ g) : Plain (joinColon groups) := by
  have hplain : ∀ g : JsString, unit ':' ∉ g → Plain g := by
    intro g hg
    induction g using splitDouble.induct with
    | case1 => trivial
    | case2 u => exact fun hu ↦ hg (by simp [hu])
    | case3 u v text huv ih => exact absurd (by simp [huv.1]) hg
    | case4 u v text huv ih => exact ⟨huv, ih fun hmem ↦ hg (List.mem_cons_of_mem _ hmem)⟩
  have hjoin : ∀ g rest : JsString, g ≠ [] → unit ':' ∉ g → Plain rest → rest ≠ [] →
      rest.head? ≠ some (unit ':') → Plain (g ++ unit ':' :: rest) := by
    intro g rest hne hg hrest hrest' hhead
    induction g using splitDouble.induct with
    | case1 => exact absurd rfl hne
    | case2 u =>
      obtain ⟨v, rest, rfl⟩ := List.exists_cons_of_ne_nil hrest'
      refine ⟨fun h' ↦ hg (by simp [h'.1]), fun h' ↦ hhead (by simp [h'.2]), hrest⟩
    | case3 u v text huv ih => exact absurd (by simp [huv.1]) hg
    | case4 u v text huv ih =>
      exact ⟨huv, ih (List.cons_ne_nil _ _) fun hmem ↦ hg (List.mem_cons_of_mem _ hmem)⟩
  induction groups with
  | nil => trivial
  | cons g groups ih =>
    obtain ⟨hne, hg⟩ := h g (List.mem_cons_self ..)
    cases groups with
    | nil =>
      rw [joinColon_singleton]
      exact hplain g hg
    | cons g' groups =>
      rw [joinColon_cons_cons]
      obtain ⟨hne', hg'⟩ := h g' (by simp)
      obtain ⟨u, g'', rfl⟩ := List.exists_cons_of_ne_nil hne'
      have hstart : ∃ rest, joinColon ((u :: g'') :: groups) = u :: rest := by
        cases groups with
        | nil => exact ⟨g'', joinColon_singleton _⟩
        | cons g₃ groups => exact ⟨_, by rw [joinColon_cons_cons, List.cons_append]⟩
      obtain ⟨rest, hrest⟩ := hstart
      have hu : u ≠ unit ':' := fun hu ↦ hg' (by simp [hu])
      refine hjoin g _ hne hg (ih fun x hx ↦ h x (List.mem_cons_of_mem _ hx)) ?_ ?_
      · rw [hrest]
        exact List.cons_ne_nil _ _
      · rw [hrest]
        simpa using hu

/-! ### What a text stands for -/

/-- Four decimal numbers below 256 between dots, and these numbers. -/
def DottedQuad (text : JsString) (bytes : List ℕ) : Prop :=
  ∃ octets : List JsString, octets.length = 4 ∧ (∀ o ∈ octets, isOctet o = true) ∧
    text = [unit '.'].intercalate octets ∧ bytes = octets.map (parseInt 10)

/-- Groups of hexadecimal digits, and their values. -/
def HexGroups (groups : List JsString) (hextets : List ℕ) : Prop :=
  (∀ g ∈ groups, isHextet g = true) ∧ hextets = groups.map (parseInt 16)

/-- What may stand last: nothing more, or an IPv4 address as two groups. -/
inductive Tail : List JsString → List ℕ → Prop
  | nothing : Tail [] []
  | dotted {quad : JsString} {a b c d : ℕ} (h : DottedQuad quad [a, b, c, d]) :
      Tail [quad] [a * 256 + b, c * 256 + d]

/-- A text in lower case, and the eight groups of the IPv6 address that it stands for. -/
inductive Ipv6Text : JsString → List ℕ → Prop
  | full {head tail : List JsString} {hextets ends : List ℕ} (hhead : HexGroups head hextets)
      (htail : Tail tail ends) (hlength : hextets.length + ends.length = 8) :
      Ipv6Text (joinColon (head ++ tail)) (hextets ++ ends)
  | compressed {head back tail : List JsString} {hextets behind ends : List ℕ}
      (hhead : HexGroups head hextets) (hback : HexGroups back behind) (htail : Tail tail ends)
      (hlength : hextets.length + behind.length + ends.length ≤ 7) :
      Ipv6Text (joinColon head ++ unit ':' :: unit ':' :: joinColon (back ++ tail))
        (hextets ++ List.replicate (8 - (hextets.length + behind.length + ends.length)) 0 ++
          behind ++ ends)

/-! ### Digits -/

theorem digitValue_separator (base : ℕ) :
    digitValue base (unit ':') = none ∧ digitValue base (unit '.') = none ∧
      digitValue base (unit '%') = none := by
  refine ⟨?_, ?_, ?_⟩ <;> rfl

theorem not_mem_of_all_digits {base : ℕ} {text : JsString} {u : UInt16}
    (h : text.all (fun u ↦ (digitValue base u).isSome) = true) (hu : digitValue base u = none) :
    u ∉ text := by
  intro hmem
  have hdigit := List.all_eq_true.mp h u hmem
  rw [hu] at hdigit
  exact absurd hdigit (by decide)

theorem isHextet_iff {text : JsString} : isHextet text = true ↔
    1 ≤ text.length ∧ text.length ≤ 4 ∧ text.all (fun u ↦ (digitValue 16 u).isSome) = true := by
  simp [isHextet, and_assoc]

theorem isHextet_plain {g : JsString} (h : isHextet g = true) :
    g ≠ [] ∧ unit ':' ∉ g ∧ unit '.' ∉ g ∧ unit '%' ∉ g := by
  obtain ⟨hpos, -, hall⟩ := isHextet_iff.mp h
  obtain ⟨hcolon, hdot, hpercent⟩ := digitValue_separator 16
  exact ⟨List.length_pos_iff.mp hpos, not_mem_of_all_digits hall hcolon,
    not_mem_of_all_digits hall hdot, not_mem_of_all_digits hall hpercent⟩

theorem isOctet_plain {o : JsString} (h : isOctet o = true) :
    o ≠ [] ∧ unit ':' ∉ o ∧ unit '.' ∉ o ∧ unit '%' ∉ o ∧ parseInt 10 o < 256 := by
  simp only [isOctet, Bool.and_eq_true, decide_eq_true_eq] at h
  obtain ⟨⟨⟨⟨hpos, -⟩, hall⟩, -⟩, hvalue⟩ := h
  obtain ⟨hcolon, hdot, hpercent⟩ := digitValue_separator 10
  exact ⟨List.length_pos_iff.mp hpos, not_mem_of_all_digits hall hcolon,
    not_mem_of_all_digits hall hdot, not_mem_of_all_digits hall hpercent, hvalue⟩

theorem digitValue_lt {base : ℕ} {u : UInt16} {n : ℕ} (h : digitValue base u = some n) :
    n < base := by
  rw [digitValue, Option.filter_eq_some_iff] at h
  simpa using h.2

theorem parseInt_lt {base : ℕ} (hbase : 0 < base) (text : JsString) :
    parseInt base text < base ^ text.length := by
  induction text using List.reverseRecOn with
  | nil => simp [parseInt]
  | append_singleton text u ih =>
    rw [parseInt, List.foldl_append, List.length_append, List.length_singleton, pow_succ]
    have hdigit : (digitValue base u).getD 0 < base := by
      cases hu : digitValue base u with
      | none => exact hbase
      | some n => exact digitValue_lt hu
    calc parseInt base text * base + (digitValue base u).getD 0
        < parseInt base text * base + base := by omega
      _ = (parseInt base text + 1) * base := by ring
      _ ≤ base ^ text.length * base := Nat.mul_le_mul_right _ ih

theorem parseInt_hextet_lt {g : JsString} (h : isHextet g = true) : parseInt 16 g < 65536 := by
  obtain ⟨-, hlength, -⟩ := isHextet_iff.mp h
  exact (parseInt_lt (by decide) g).trans_le (Nat.pow_le_pow_right (by decide) hlength)

theorem HexGroups.lt {groups : List JsString} {hextets : List ℕ} (h : HexGroups groups hextets) :
    ∀ n ∈ hextets, n < 65536 := by
  intro n hn
  rw [h.2] at hn
  obtain ⟨g, hg, rfl⟩ := List.mem_map.mp hn
  exact parseInt_hextet_lt (h.1 g hg)

/-! ### IPv4 -/

theorem dottedQuad_iff {text : JsString} {bytes : List ℕ} : DottedQuad text bytes ↔
    isIPv4 text = true ∧ bytes = (text.splitOn (unit '.')).map (parseInt 10) := by
  rw [isIPv4, Bool.and_eq_true, decide_eq_true_eq, List.all_eq_true]
  constructor
  · rintro ⟨octets, hlength, hoctets, rfl, rfl⟩
    have hsplit : ([unit '.'].intercalate octets).splitOn (unit '.') = octets := by
      refine List.splitOn_intercalate _ (fun o ho ↦ (isOctet_plain (hoctets o ho)).2.2.1) ?_
      rintro rfl
      simp at hlength
    rw [hsplit]
    exact ⟨⟨hlength, hoctets⟩, rfl⟩
  · rintro ⟨⟨hlength, hoctets⟩, rfl⟩
    exact ⟨_, hlength, hoctets, (List.intercalate_splitOn _).symm, rfl⟩

theorem DottedQuad.facts {text : JsString} {bytes : List ℕ} (h : DottedQuad text bytes) :
    bytes.length = 4 ∧ (∀ b ∈ bytes, b < 256) ∧ unit '.' ∈ text ∧ unit ':' ∉ text ∧
      unit '%' ∉ text := by
  obtain ⟨octets, hlength, hoctets, rfl, rfl⟩ := h
  obtain ⟨a, b, c, d, rfl⟩ := List.length_eq_four.mp hlength
  have hnot : ∀ u : UInt16, u ≠ unit '.' → (∀ o ∈ [a, b, c, d], u ∉ o) →
      u ∉ [unit '.'].intercalate [a, b, c, d] := by
    intro u hu hmem
    simpa [List.intercalate, hu] using hmem
  refine ⟨rfl, ?_, ?_, ?_, ?_⟩
  · intro n hn
    obtain ⟨o, ho, rfl⟩ := List.mem_map.mp hn
    exact (isOctet_plain (hoctets o ho)).2.2.2.2
  · simp [List.intercalate]
  · exact hnot _ (by decide) fun o ho ↦ (isOctet_plain (hoctets o ho)).2.1
  · exact hnot _ (by decide) fun o ho ↦ (isOctet_plain (hoctets o ho)).2.2.2.1

theorem isIP_eq_four_iff {text : JsString} : isIP text = 4 ↔ isIPv4 text = true := by
  rw [isIP]
  constructor
  · intro h
    by_contra hnot
    rw [if_neg hnot] at h
    split at h
    · split_ifs at h
      omega
    · split_ifs at h
      omega
    · omega
  · intro h
    rw [if_pos h]

/-- The bytes of an IPv4 literal are those it stands for. -/
theorem parseIpv4_eq_some_iff {text : JsString} {bytes : List ℕ} :
    parseIpv4 text = some bytes ↔ DottedQuad text bytes := by
  rw [dottedQuad_iff, parseIpv4, Option.ite_none_left_eq_some, not_not, isIP_eq_four_iff,
    Option.some.injEq, eq_comm (a := bytes)]

/-! ### The tail of an IPv6 literal -/

theorem lastIndexOf_append {u : UInt16} {last : JsString} (hlast : u ∉ last) (text : JsString) :
    lastIndexOf u (text ++ u :: last) = some text.length := by
  have hidx : (text ++ u :: last).reverse.idxOf? u = some last.length := by
    rw [List.reverse_append, List.reverse_cons, List.append_assoc, List.idxOf?,
      List.findIdx?_append, List.findIdx?_eq_none_iff.mpr]
    · simp [List.findIdx?_cons]
    · intro x hx
      simp only [beq_eq_false_iff_ne, ne_eq]
      rintro rfl
      exact hlast (List.mem_reverse.mp hx)
  rw [lastIndexOf, hidx, Option.map_some, List.length_append, List.length_cons]
  congr 1
  omega

/-- What is left when an IPv4 address stands after the last colon. -/
theorem splitTail_append {last : JsString} (hlast : unit ':' ∉ last) (text : JsString) :
    splitTail (text ++ unit ':' :: last) =
      if unit '.' ∈ last then
        (parseIpv4 last).map fun v4 ↦
          (if text.getLast? = some (unit ':') then text ++ [unit ':'] else text,
            [v4.getD 0 0 * 256 + v4.getD 1 0, v4.getD 2 0 * 256 + v4.getD 3 0])
      else some (text ++ unit ':' :: last, []) := by
  have hdrop : (text ++ unit ':' :: last).drop (text.length + 1) = last := by
    rw [← List.drop_drop, List.drop_left, List.drop_one, List.tail_cons]
  have hbefore : 0 < text.length ∧
      (text ++ unit ':' :: last)[text.length - 1]? = some (unit ':') ↔
        text.getLast? = some (unit ':') := by
    cases text using List.reverseRecOn with
    | nil => simp
    | append_singleton text u => simp
  simp only [splitTail, lastIndexOf_append hlast, Option.elim_some, hdrop, hbefore]
  split_ifs with hdot hcolon
  · cases parseIpv4 last with
    | none => rfl
    | some v4 =>
      have htake : (text ++ unit ':' :: last).take (text.length + 1) = text ++ [unit ':'] := by
        rw [← List.singleton_append, ← List.append_assoc, List.take_left' (by simp)]
      simp only [Option.bind_eq_bind, Option.bind_some, Option.map_some, htake]
  · cases parseIpv4 last with
    | none => rfl
    | some v4 => simp only [Option.bind_eq_bind, Option.bind_some, Option.map_some, List.take_left]
  · rfl

/-! ### The groups of a part -/

theorem HexGroups.length {groups : List JsString} {hextets : List ℕ}
    (h : HexGroups groups hextets) : hextets.length = groups.length := by
  rw [h.2, List.length_map]

/-- A group at the end, and its parts. -/
theorem Tail.facts {tail : List JsString} {ends : List ℕ} (h : Tail tail ends) :
    (∀ g ∈ tail, g ≠ [] ∧ unit ':' ∉ g ∧ unit '%' ∉ g ∧ isHextet g = false) ∧
      ∀ n ∈ ends, n < 65536 := by
  cases h with
  | nothing => simp
  | @dotted quad a b c d h =>
    obtain ⟨-, hlt, hdot, hcolon, hpercent⟩ := h.facts
    refine ⟨fun g hg ↦ ?_, fun n hn ↦ ?_⟩
    · rw [List.mem_singleton.mp hg]
      refine ⟨List.ne_nil_of_mem hdot, hcolon, hpercent, ?_⟩
      rw [← Bool.not_eq_true]
      exact fun hhex ↦ (isHextet_plain hhex).2.2.1 hdot
    · have ha := hlt a (by simp)
      have hb := hlt b (by simp)
      have hc := hlt c (by simp)
      have hd := hlt d (by simp)
      simp only [List.mem_cons, List.not_mem_nil, or_false] at hn
      omega

theorem joinColon_ne_nil {groups : List JsString} (hne : groups ≠ [])
    (h : ∀ g ∈ groups, g ≠ []) : joinColon groups ≠ [] := by
  obtain ⟨g, groups, rfl⟩ := List.exists_cons_of_ne_nil hne
  have hg := h g (List.mem_cons_self ..)
  cases groups with
  | nil => rwa [joinColon_singleton]
  | cons g' groups =>
    rw [joinColon_cons_cons]
    simp

theorem splitOn_joinColon {groups : List JsString} (hne : groups ≠ [])
    (h : ∀ g ∈ groups, unit ':' ∉ g) : (joinColon groups).splitOn (unit ':') = groups :=
  List.splitOn_intercalate _ h hne

theorem hextetsOf_joinColon {groups : List JsString} {hextets : List ℕ}
    (h : HexGroups groups hextets) : hextetsOf (joinColon groups) = hextets := by
  by_cases hne : groups = []
  · subst hne
    rw [h.2]
    rfl
  · rw [hextetsOf, if_neg (joinColon_ne_nil hne fun g hg ↦ (isHextet_plain (h.1 g hg)).1),
      splitOn_joinColon hne fun g hg ↦ (isHextet_plain (h.1 g hg)).2.1, h.2]

theorem groupCount_joinColon {groups tail : List JsString} {hextets ends : List ℕ}
    (h : HexGroups groups hextets) (htail : Tail tail ends) {dotted : Bool}
    (hdotted : dotted = false → tail = []) :
    groupCount dotted (joinColon (groups ++ tail)) = some (hextets.length + ends.length) := by
  have hcolon : ∀ g ∈ groups ++ tail, unit ':' ∉ g := by
    intro g hg
    rcases List.mem_append.mp hg with hg | hg
    · exact (isHextet_plain (h.1 g hg)).2.1
    · exact (htail.facts.1 g hg).2.1
  have hne : ∀ g ∈ groups ++ tail, g ≠ [] := by
    intro g hg
    rcases List.mem_append.mp hg with hg | hg
    · exact (isHextet_plain (h.1 g hg)).1
    · exact (htail.facts.1 g hg).1
  cases htail with
  | nothing =>
    rw [List.append_nil] at hcolon hne ⊢
    by_cases hnil : groups = []
    · subst hnil
      rw [h.2]
      rfl
    · rw [groupCount, if_neg (joinColon_ne_nil hnil hne)]
      simp only [splitOn_joinColon hnil hcolon]
      rw [if_pos (List.all_eq_true.mpr h.1), h.length]
      rfl
  | @dotted quad a b c d hquad =>
    have hnil : groups ++ [quad] ≠ [] := by simp
    have hnot : (groups ++ [quad]).all isHextet = false := by
      have hhex := ((Tail.dotted hquad).facts.1 quad (List.mem_singleton_self _)).2.2.2
      rw [List.all_append, List.all_cons, hhex, Bool.false_and, Bool.and_false]
    have htrue : dotted = true := by
      by_contra hfalse
      exact absurd (hdotted (by simpa using hfalse)) (by simp)
    rw [groupCount, if_neg (joinColon_ne_nil hnil hne)]
    simp only [splitOn_joinColon hnil hcolon, hnot, htrue, List.dropLast_concat,
      List.getLast?_concat, Option.getD_some, (dottedQuad_iff.mp hquad).1,
      List.all_eq_true.mpr h.1, Bool.false_eq_true, if_false, Bool.and_self, if_true,
      List.length_append, h.length, List.length_cons, List.length_nil]

/-- A part that is counted is of groups, and of an IPv4 address at its end where one may stand. -/
theorem exists_of_groupCount {dotted : Bool} {part : JsString} {n : ℕ}
    (h : groupCount dotted part = some n) :
    ∃ groups tail hextets ends, HexGroups groups hextets ∧ Tail tail ends ∧
      part = joinColon (groups ++ tail) ∧ n = hextets.length + ends.length ∧
      (dotted = false → tail = []) := by
  rw [groupCount] at h
  by_cases hnil : part = []
  · rw [if_pos hnil] at h
    obtain rfl := Option.some.inj h
    exact ⟨[], [], [], [], ⟨by simp, rfl⟩, .nothing, hnil, rfl, fun _ ↦ rfl⟩
  · rw [if_neg hnil] at h
    have hpart : part = joinColon (part.splitOn (unit ':')) := (List.intercalate_splitOn _).symm
    have hgroups : part.splitOn (unit ':') ≠ [] := List.splitOn_ne_nil _ _
    generalize part.splitOn (unit ':') = groups at h hpart hgroups
    dsimp only at h
    split_ifs at h with hall hlast
    · obtain rfl := Option.some.inj h
      exact ⟨groups, [], _, [], ⟨List.all_eq_true.mp hall, rfl⟩, .nothing,
        by rwa [List.append_nil], by simp, fun _ ↦ rfl⟩
    · obtain rfl := Option.some.inj h
      rw [Bool.and_eq_true, Bool.and_eq_true] at hlast
      obtain ⟨⟨hdotted, hfront⟩, hquad⟩ := hlast
      have hsplit : groups = groups.dropLast ++ [groups.getLast?.getD []] := by
        rw [List.getLast?_eq_some_getLast hgroups, Option.getD_some,
          List.dropLast_append_getLast hgroups]
      obtain ⟨bytes, hbytes⟩ : ∃ bytes, DottedQuad (groups.getLast?.getD []) bytes :=
        ⟨_, dottedQuad_iff.mpr ⟨hquad, rfl⟩⟩
      obtain ⟨a, b, c, d, rfl⟩ := List.length_eq_four.mp hbytes.facts.1
      refine ⟨groups.dropLast, [groups.getLast?.getD []], _, _,
        ⟨List.all_eq_true.mp hfront, rfl⟩, .dotted hbytes, by rwa [← hsplit], ?_, ?_⟩
      · have hlength := congrArg List.length hsplit
        simpa using hlength
      · rintro rfl
        exact absurd hdotted (by decide)

/-! ### IPv6 -/

theorem HexGroups.plain {groups : List JsString} {hextets : List ℕ} (h : HexGroups groups hextets) :
    Plain (joinColon groups) :=
  plain_joinColon fun g hg ↦ ⟨(isHextet_plain (h.1 g hg)).1, (isHextet_plain (h.1 g hg)).2.1⟩

theorem plain_append_tail {groups tail : List JsString} {hextets ends : List ℕ}
    (h : HexGroups groups hextets) (htail : Tail tail ends) :
    Plain (joinColon (groups ++ tail)) := by
  refine plain_joinColon fun g hg ↦ ?_
  rcases List.mem_append.mp hg with hg | hg
  · exact ⟨(isHextet_plain (h.1 g hg)).1, (isHextet_plain (h.1 g hg)).2.1⟩
  · exact ⟨(htail.facts.1 g hg).1, (htail.facts.1 g hg).2.1⟩

/-- A text is taken for an IPv6 address if and only if it stands for one. -/
theorem isIPv6_iff {text : JsString} : isIPv6 text = true ↔ ∃ hextets, Ipv6Text text hextets := by
  constructor
  · intro h
    have hjoin := intercalate_splitDouble text
    rw [isIPv6] at h
    match hsplit : splitDouble text with
    | [] => simp [hsplit] at h
    | [whole] =>
      rw [hsplit, List.intercalate_singleton] at hjoin
      simp only [hsplit, decide_eq_true_eq] at h
      obtain ⟨groups, tail, hextets, ends, hgroups, htail, rfl, hcount, -⟩ :=
        exists_of_groupCount h
      rw [← hjoin]
      exact ⟨_, .full hgroups htail hcount.symm⟩
    | [head, back] =>
      rw [hsplit, List.intercalate_cons_cons, List.intercalate_singleton] at hjoin
      simp only [hsplit] at h
      cases hm : groupCount false head with
      | none => simp [hm] at h
      | some m =>
        cases hn : groupCount true back with
        | none => simp [hm, hn] at h
        | some n =>
          simp only [hm, hn, decide_eq_true_eq] at h
          obtain ⟨groups, tail, hextets, ends, hgroups, htail, rfl, rfl, hnone⟩ :=
            exists_of_groupCount hm
          obtain ⟨groups', tail', behind, ends', hgroups', htail', rfl, rfl, -⟩ :=
            exists_of_groupCount hn
          obtain rfl := hnone rfl
          cases htail
          rw [List.append_nil] at hjoin
          have hlength : hextets.length + behind.length + ends'.length ≤ 7 := by
            simp only [List.length_nil] at h
            omega
          rw [← hjoin, List.append_assoc]
          exact ⟨_, .compressed hgroups hgroups' htail' hlength⟩
    | _ :: _ :: _ :: _ => simp [hsplit] at h
  · rintro ⟨hextets, h⟩
    cases h with
    | full hhead htail hlength =>
      have hcount : groupCount true _ = _ :=
        groupCount_joinColon hhead htail fun h ↦ absurd h (by decide)
      rw [isIPv6, splitDouble_of_plain (plain_append_tail hhead htail)]
      simp only [hcount, hlength, decide_true]
    | @compressed head back tail hextets behind ends hhead hback htail hlength =>
      have hfront : groupCount false _ = _ := groupCount_joinColon hhead .nothing fun _ ↦ rfl
      have hend : groupCount true _ = _ :=
        groupCount_joinColon hback htail fun h ↦ absurd h (by decide)
      rw [List.append_nil] at hfront
      rw [isIPv6, splitDouble_append hhead.plain, splitDouble_of_plain
        (plain_append_tail hback htail)]
      simp only [hfront, hend, List.length_nil, decide_eq_true_eq]
      omega

theorem any_eq_false_of_lt {hextets : List ℕ} (h : ∀ n ∈ hextets, n < 65536) :
    (hextets.any fun h ↦ 0xffff < h) = false := by
  rw [List.any_eq_false]
  intro n hn
  have hlt := h n hn
  simp
  omega

theorem fillHextets_full {groups : List JsString} {hextets ends : List ℕ}
    (h : HexGroups groups hextets) (hends : ∀ n ∈ ends, n < 65536)
    (hlength : hextets.length + ends.length = 8) :
    fillHextets (joinColon groups) ends = some (hextets ++ ends) := by
  have hfilled : 8 - (ends.length + hextets.length + ([] : List ℕ).length) = 0 := by
    simp only [List.length_nil]
    omega
  have hsmall : ∀ n ∈ hextets ++ ends, n < 65536 := by
    intro n hn
    rcases List.mem_append.mp hn with hn | hn
    · exact h.lt n hn
    · exact hends n hn
  simp only [fillHextets, splitDouble_of_plain h.plain, List.getD_cons_zero, hextetsOf_joinColon h,
    List.length_singleton, if_neg (show ¬ 1 = 2 by decide), hfilled, List.replicate_zero,
    List.append_nil, any_eq_false_of_lt hsmall, List.length_append, hlength]
  rw [if_neg (by simp only [List.length_nil]; omega)]
  simp

theorem fillHextets_compressed {head back : List JsString} {hextets behind ends : List ℕ}
    (hhead : HexGroups head hextets) (hback : HexGroups back behind)
    (hends : ∀ n ∈ ends, n < 65536)
    (hlength : hextets.length + behind.length + ends.length ≤ 7) :
    fillHextets (joinColon head ++ unit ':' :: unit ':' :: joinColon back) ends =
      some (hextets ++ List.replicate (8 - (hextets.length + behind.length + ends.length)) 0 ++
        behind ++ ends) := by
  have hfilled : 8 - (ends.length + hextets.length + behind.length) =
      8 - (hextets.length + behind.length + ends.length) := by omega
  have hsmall : ∀ n ∈ hextets ++ List.replicate (8 - (hextets.length + behind.length + ends.length))
      0 ++ behind ++ ends, n < 65536 := by
    intro n hn
    simp only [List.mem_append, List.mem_replicate] at hn
    rcases hn with ((hn | ⟨-, rfl⟩) | hn) | hn
    · exact hhead.lt n hn
    · decide
    · exact hback.lt n hn
    · exact hends n hn
  simp only [fillHextets, splitDouble_append hhead.plain, splitDouble_of_plain hback.plain,
    List.getD_cons_zero, List.getD_cons_succ, hextetsOf_joinColon hhead, hextetsOf_joinColon hback,
    List.length_cons, List.length_nil, if_pos, hfilled, any_eq_false_of_lt hsmall]
  rw [if_neg (by omega), if_neg]
  simp only [List.length_append, List.length_replicate, Bool.false_eq_true, or_false, not_not]
  omega

theorem Plain.getLast?_ne {text : JsString} (h : Plain text) :
    text.getLast? ≠ some (unit ':') := by
  induction text using splitDouble.induct with
  | case1 => simp
  | case2 u => simpa using (show u ≠ unit ':' from h)
  | case3 u v text huv ih => exact absurd huv h.1
  | case4 u v text huv ih =>
    rw [List.getLast?_cons_cons]
    exact ih h.2

theorem splitTail_of_not_dot {text : JsString} (h : unit '.' ∉ text) :
    splitTail text = some (text, []) := by
  simp only [splitTail]
  rw [if_neg fun hmem ↦ h (List.mem_of_mem_drop hmem)]

/-- What is left when an IPv4 address stands at the end. -/
theorem splitTail_quad {quad : JsString} {a b c d : ℕ} (h : DottedQuad quad [a, b, c, d])
    (text : JsString) :
    splitTail (text ++ unit ':' :: quad) =
      some (if text.getLast? = some (unit ':') then text ++ [unit ':'] else text,
        [a * 256 + b, c * 256 + d]) := by
  obtain ⟨-, -, hdot, hcolon, -⟩ := h.facts
  rw [splitTail_append hcolon, if_pos hdot, parseIpv4_eq_some_iff.mpr h, Option.map_some]
  rfl

theorem mem_joinColon {groups : List JsString} {u : UInt16} (h : u ∈ joinColon groups) :
    u = unit ':' ∨ ∃ g ∈ groups, u ∈ g := by
  induction groups with
  | nil => simp at h
  | cons g groups ih =>
    cases groups with
    | nil =>
      rw [joinColon_singleton] at h
      exact .inr ⟨g, List.mem_singleton_self _, h⟩
    | cons g' groups =>
      rw [joinColon_cons_cons, List.mem_append, List.mem_cons] at h
      rcases h with h | h | h
      · exact .inr ⟨g, List.mem_cons_self .., h⟩
      · exact .inl h
      · rcases ih h with h | ⟨g'', hg'', h⟩
        · exact .inl h
        · exact .inr ⟨g'', List.mem_cons_of_mem _ hg'', h⟩

theorem HexGroups.not_mem {groups : List JsString} {hextets : List ℕ}
    (h : HexGroups groups hextets) {u : UInt16} (hu : u = unit '.' ∨ u = unit '%') :
    u ∉ joinColon groups := by
  intro hmem
  rcases mem_joinColon hmem with rfl | ⟨g, hg, hmem⟩
  · exact absurd hu (by decide)
  · obtain ⟨-, -, hdot, hpercent⟩ := isHextet_plain (h.1 g hg)
    rcases hu with rfl | rfl
    · exact hdot hmem
    · exact hpercent hmem

/-- What `parseIpv6` reads of a text in lower case. -/
theorem Ipv6Text.read {text : JsString} {hextets : List ℕ} (h : Ipv6Text text hextets) :
    (splitTail text).bind (fun body ↦ fillHextets body.1 body.2) = some hextets := by
  have hdot : unit '.' = unit '.' ∨ unit '.' = unit '%' := .inl rfl
  cases h with
  | @full head tail hextets ends hhead htail hlength =>
    have hends := htail.facts.2
    cases htail with
    | nothing =>
      rw [List.append_nil, splitTail_of_not_dot (hhead.not_mem hdot), Option.bind_some]
      exact fillHextets_full hhead hends hlength
    | @dotted quad a b c d hquad =>
      have hne : head ≠ [] := by
        rintro rfl
        rw [hhead.2] at hlength
        simp at hlength
      rw [joinColon_append hne (List.cons_ne_nil _ _), joinColon_singleton, splitTail_quad hquad,
        if_neg hhead.plain.getLast?_ne, Option.bind_some]
      exact fillHextets_full hhead hends hlength
  | @compressed head back tail hextets behind ends hhead hback htail hlength =>
    have hends := htail.facts.2
    cases htail with
    | nothing =>
      have hnot : unit '.' ∉ joinColon head ++ unit ':' :: unit ':' :: joinColon back := by
        rw [List.mem_append, List.mem_cons, List.mem_cons]
        have hcolon : unit '.' ≠ unit ':' := by decide
        simp [hhead.not_mem hdot, hback.not_mem hdot, hcolon]
      rw [List.append_nil, splitTail_of_not_dot hnot, Option.bind_some]
      exact fillHextets_compressed hhead hback hends hlength
    | @dotted quad a b c d hquad =>
      have hfill := fillHextets_compressed hhead hback hends hlength
      by_cases hne : back = []
      · -- the quad stands right after the `::`, of which a colon would be lost
        subst hne
        rw [List.nil_append, joinColon_singleton, ← List.singleton_append, ← List.append_assoc,
          splitTail_quad hquad, if_pos (by simp), Option.bind_some]
        rw [List.append_assoc]
        exact hfill
      · have hback' : joinColon back ≠ [] :=
          joinColon_ne_nil hne fun g hg ↦ (isHextet_plain (hback.1 g hg)).1
        have hlast : (joinColon head ++ unit ':' :: unit ':' :: joinColon back).getLast? ≠
            some (unit ':') := by
          rw [List.append_cons, List.append_cons (joinColon head ++ [unit ':']),
            List.getLast?_append_of_ne_nil _ hback']
          exact hback.plain.getLast?_ne
        have hsplit : joinColon head ++ unit ':' :: unit ':' :: joinColon (back ++ [quad]) =
            (joinColon head ++ unit ':' :: unit ':' :: joinColon back) ++ unit ':' :: quad := by
          rw [joinColon_append hne (List.cons_ne_nil _ _), joinColon_singleton]
          simp
        rw [hsplit, splitTail_quad hquad, if_neg hlast, Option.bind_some]
        exact hfill

theorem colon_mem_joinColon {groups : List JsString} (h : 2 ≤ groups.length) :
    unit ':' ∈ joinColon groups := by
  match groups, h with
  | g :: g' :: groups, _ =>
    rw [joinColon_cons_cons]
    simp

theorem Ipv6Text.facts {text : JsString} {hextets : List ℕ} (h : Ipv6Text text hextets) :
    hextets.length = 8 ∧ (∀ n ∈ hextets, n < 65536) ∧ unit ':' ∈ text ∧ unit '%' ∉ text := by
  have hpercent : unit '.' = unit '.' ∨ unit '%' = unit '%' := .inr rfl
  have hcolon : unit '%' ≠ unit ':' := by decide
  have hgroups : ∀ {groups tail : List JsString} {hextets ends : List ℕ},
      HexGroups groups hextets → Tail tail ends → unit '%' ∉ joinColon (groups ++ tail) := by
    intro groups tail hextets ends hgroups htail hmem
    rcases mem_joinColon hmem with h | ⟨g, hg, hmem⟩
    · exact hcolon h
    · rcases List.mem_append.mp hg with hg | hg
      · exact (isHextet_plain (hgroups.1 g hg)).2.2.2 hmem
      · exact (htail.facts.1 g hg).2.2.1 hmem
  cases h with
  | @full head tail hextets ends hhead htail hlength =>
    refine ⟨by rw [List.length_append, hlength], ?_, ?_, hgroups hhead htail⟩
    · intro n hn
      rcases List.mem_append.mp hn with hn | hn
      · exact hhead.lt n hn
      · exact htail.facts.2 n hn
    · refine colon_mem_joinColon ?_
      rw [hhead.length] at hlength
      rw [List.length_append]
      cases htail <;> simp only [List.length_cons, List.length_nil] at * <;> omega
  | @compressed head back tail hextets behind ends hhead hback htail hlength =>
    refine ⟨?_, ?_, by simp, ?_⟩
    · simp only [List.length_append, List.length_replicate]
      omega
    · intro n hn
      simp only [List.mem_append, List.mem_replicate] at hn
      rcases hn with ((hn | ⟨-, rfl⟩) | hn) | hn
      · exact hhead.lt n hn
      · decide
      · exact hback.lt n hn
      · exact htail.facts.2 n hn
    · rw [List.mem_append, List.mem_cons, List.mem_cons]
      simp [hhead.not_mem (.inr rfl), hgroups hback htail, hcolon]

/-- A text has a code unit below the letters if and only if it has it in lower case. -/
theorem mem_toLowerCase {u : UInt16} (hu : u < 0x41) {text : JsString} :
    u ∈ toLowerCase text ↔ u ∈ text := by
  have hunit : ∀ v : UInt16, (if (0x41 ≤ v ∧ v ≤ 0x5A) ∨ (0xC0 ≤ v ∧ v ≤ 0xDE ∧ v ≠ 0xD7) then
      v + 32 else v) = u ↔ v = u := by
    intro v
    split_ifs with hv
    · rw [UInt16.lt_iff_toNat_lt] at hu
      simp only [UInt16.le_iff_toNat_le, ne_eq, ← UInt16.toNat_inj, UInt16.toNat_add] at hv ⊢
      simp only [UInt16.reduceToNat] at hu hv ⊢
      omega
    · rfl
  simp only [toLowerCase, List.mem_map, hunit, exists_eq_right]

theorem splitOn_of_not_mem {u : UInt16} {text : JsString} (h : u ∉ text) :
    text.splitOn u = [text] := by
  have hsplit : ([u].intercalate [text]).splitOn u = [text] :=
    List.splitOn_intercalate u (by simpa using h) (by simp)
  rwa [List.intercalate_singleton] at hsplit

theorem isIP_eq_six_iff {text : JsString} (h : unit '%' ∉ text) :
    isIP text = 6 ↔ ∃ hextets, Ipv6Text (toLowerCase text) hextets := by
  have hcolon : unit ':' ∈ toLowerCase text ↔ unit ':' ∈ text := mem_toLowerCase (by decide)
  rw [← isIPv6_iff]
  constructor
  · intro hsix
    rw [isIP, splitOn_of_not_mem h] at hsix
    by_cases hfour : isIPv4 text = true
    · rw [if_pos hfour] at hsix
      exact absurd hsix (by decide)
    · rw [if_neg hfour] at hsix
      by_contra hnot
      exact absurd ((if_neg hnot).symm.trans hsix) (by decide)
  · intro hsix
    have hnot : ¬ isIPv4 text = true := by
      intro hfour
      obtain ⟨hextets, htext⟩ := isIPv6_iff.mp hsix
      exact (dottedQuad_iff.mpr ⟨hfour, rfl⟩).facts.2.2.2.1 (hcolon.mp htext.facts.2.2.1)
    rw [isIP, if_neg hnot, splitOn_of_not_mem h]
    exact if_pos hsix

/-- The sixteen bytes of eight groups. -/
def bytesOf (hextets : List ℕ) : List ℕ := hextets.flatMap fun h ↦ [h / 256, h % 256]

/-- The bytes of an IPv6 literal are those it stands for. -/
theorem parseIpv6_eq_some_iff {text : JsString} {bytes : List ℕ} :
    parseIpv6 text = some bytes ↔
      ∃ hextets, Ipv6Text (toLowerCase text) hextets ∧ bytes = bytesOf hextets := by
  have hpercent : unit '%' ∈ toLowerCase text ↔ unit '%' ∈ text := mem_toLowerCase (by decide)
  have hread : ∀ hextets, Ipv6Text (toLowerCase text) hextets →
      (splitTail (toLowerCase text)).bind (fun x ↦ (fillHextets x.1 x.2).bind
        fun hextets ↦ some (bytesOf hextets)) = some (bytesOf hextets) := by
    intro hextets h
    rw [← Option.bind_assoc, h.read, Option.bind_some]
  constructor
  · intro h
    rw [parseIpv6, Option.ite_none_left_eq_some, not_or, not_not] at h
    obtain ⟨⟨hnot, hsix⟩, h⟩ := h
    obtain ⟨hextets, htext⟩ := (isIP_eq_six_iff hnot).mp hsix
    exact ⟨hextets, htext, (Option.some.inj ((hread hextets htext).symm.trans h)).symm⟩
  · rintro ⟨hextets, htext, rfl⟩
    have hnot : unit '%' ∉ text := fun h ↦ htext.facts.2.2.2 (hpercent.mpr h)
    rw [parseIpv6, if_neg (by rw [not_or, not_not]; exact
      ⟨hnot, (isIP_eq_six_iff hnot).mpr ⟨hextets, htext⟩⟩)]
    exact hread hextets htext

/-! ### The address of a text -/

/-- The bytes of the address that a text without a zone stands for. -/
inductive Denotes (text : JsString) : List ℕ → Prop
  | v4 {bytes : List ℕ} (h : DottedQuad text bytes) : Denotes text bytes
  | v6 {hextets : List ℕ} (h : Ipv6Text (toLowerCase text) hextets) :
      Denotes text (bytesOf hextets)

theorem denotes_iff {text : JsString} {bytes : List ℕ} :
    Denotes text bytes ↔ parseIpv4 text = some bytes ∨ parseIpv6 text = some bytes := by
  rw [parseIpv4_eq_some_iff, parseIpv6_eq_some_iff]
  constructor
  · rintro (h | h)
    · exact .inl h
    · exact .inr ⟨_, h, rfl⟩
  · rintro (h | ⟨hextets, h, rfl⟩)
    · exact .v4 h
    · exact .v6 h

/-- A text that is read as an IPv4 address is not read as an IPv6 address. -/
theorem parseIpv6_of_parseIpv4 {text : JsString} {bytes : List ℕ}
    (h : parseIpv4 text = some bytes) : parseIpv6 text = none := by
  rw [Option.eq_none_iff_forall_not_mem]
  intro bytes' h'
  obtain ⟨hextets, htext, -⟩ := parseIpv6_eq_some_iff.mp h'
  have hcolon : unit ':' ∈ toLowerCase text ↔ unit ':' ∈ text := mem_toLowerCase (by decide)
  exact (parseIpv4_eq_some_iff.mp h).facts.2.2.2.1 (hcolon.mp htext.facts.2.2.1)

/-- A text stands for one address at most. -/
theorem Denotes.unique {text : JsString} {bytes bytes' : List ℕ} (h : Denotes text bytes)
    (h' : Denotes text bytes') : bytes = bytes' := by
  rcases denotes_iff.mp h with h | h <;> rcases denotes_iff.mp h' with h' | h'
  · exact Option.some.inj (h.symm.trans h')
  · rw [parseIpv6_of_parseIpv4 h] at h'
    exact absurd h' (Option.some_ne_none _).symm
  · rw [parseIpv6_of_parseIpv4 h'] at h
    exact absurd h (Option.some_ne_none _).symm
  · exact Option.some.inj (h.symm.trans h')

end QAuth.Egress
