import QAuth.Approvals.OpHash
import QAuth.Audit.JsonParse

/-!
# One canonical text for each value

`canonicalizeJson` writes a text for every JSON value and for nothing else. Two values have one text
exactly when they are equal, objects compared as maps, and the text is parsed as the value.
-/

namespace QAuth.Approvals

open Audit (Json JsNumber sortedItems sortedMembers)
open Guards Text

/-! ### Equality -/

mutual

/-- The same JSON value: arrays item by item, objects as maps without their undefined members. -/
def JsValue.Equal : JsValue → JsValue → Prop
  | .null, w => w = .null
  | .bool b, w => w = .bool b
  | .num x, w => w = .num x
  | .str s, w => w = .str s
  | .arr items, w => ∃ items', w = .arr items' ∧ EqualItems items items'
  | .obj .plain members, w => ∃ members', w = .obj .plain members' ∧
      EqualMembers members members' ∧
      ∀ m ∈ present members', m.1 ∈ (present members).map (·.1)
  | _, _ => False

def EqualItems : List (Option JsValue) → List (Option JsValue) → Prop
  | [], items' => items' = []
  | none :: _, _ => False
  | some v :: items, items' => ∃ w rest, items' = some w :: rest ∧ v.Equal w ∧ EqualItems items rest

/-- Every member is one of `members'`, with an equal value. -/
def EqualMembers : List (JsString × JsValue) → List (JsString × JsValue) → Prop
  | [], _ => True
  | (key, v) :: members, members' =>
    (v.isUndefined = true ∨ ∃ w, (key, w) ∈ present members' ∧ v.Equal w) ∧
      EqualMembers members members'

end

variable {items : List (Option JsValue)} {members members' : List (JsString × JsValue)}

theorem present_cons (m : JsString × JsValue) (members : List (JsString × JsValue)) :
    present (m :: members) = if m.2.isUndefined then present members else m :: present members := by
  rw [present, List.filter_cons]
  cases m.2.isUndefined
  · rfl
  · rfl

theorem equalMembers_iff : EqualMembers members members' ↔
    ∀ m ∈ present members, ∃ w, (m.1, w) ∈ present members' ∧ m.2.Equal w := by
  induction members with
  | nil => simp [EqualMembers, present]
  | cons m members ih =>
    rw [EqualMembers, ih, present_cons]
    cases m.2.isUndefined
    · simp
    · simp

theorem areJson_iff : areJson items = true ↔
    ∀ item ∈ items, ∃ v, item = some v ∧ v.isJson = true := by
  induction items with
  | nil => simp [areJson]
  | cons item items ih =>
    cases item with
    | none => simp [areJson]
    | some v => simp [areJson, ih]

namespace JsValue

theorem wellNamedItems_iff : WellNamedItems items ↔ ∀ v, some v ∈ items → v.WellNamed := by
  induction items with
  | nil => simp [WellNamedItems]
  | cons item items ih =>
    cases item with
    | none => simp [WellNamedItems, ih]
    | some v => simp [WellNamedItems, ih]

theorem wellNamedMembers_iff : WellNamedMembers members ↔ ∀ m ∈ members, m.2.WellNamed := by
  induction members with
  | nil => simp [WellNamedMembers]
  | cons m members ih => rw [WellNamedMembers, ih, List.forall_mem_cons]

/-- Which value an object without an undefined member is. -/
theorem json_plain (members : List (JsString × JsValue)) :
    (JsValue.obj .plain members).json = .obj (jsonMembers members) := by
  rw [JsValue.json]

theorem json_arr (items : List (Option JsValue)) :
    (JsValue.arr items).json = .arr (jsonItems items) := by
  rw [JsValue.json]

end JsValue

theorem sortedMembers_jsonMembers (members : List (JsString × JsValue)) :
    sortedMembers (jsonMembers members) =
      (present members).map fun m ↦ (textOf m.1, m.2.json.sorted) := by
  rw [jsonMembers_eq_map, Audit.sortedMembers_eq_map, List.map_map]
  rfl

/-- Two objects are equal as maps where their sorted members are the same. -/
theorem equal_members_iff_same (hjson : areJsonMembers members = true)
    (hjson' : areJsonMembers members' = true) (hnamed : (JsValue.obj .plain members).WellNamed)
    (hnamed' : (JsValue.obj .plain members').WellNamed)
    (ih : ∀ m ∈ members, ∀ m' ∈ members', m.2.isJson = true → m'.2.isJson = true →
      m.2.WellNamed → m'.2.WellNamed → (m.2.Equal m'.2 ↔ m.2.Same m'.2)) :
    (EqualMembers members members' ∧ ∀ m ∈ present members', m.1 ∈ (present members).map (·.1)) ↔
      (Json.obj (jsonMembers members)).Same (.obj (jsonMembers members')) := by
  have ⟨hnodup, hvalues⟩ : (members.map (·.1)).Nodup ∧ JsValue.WellNamedMembers members := hnamed
  have ⟨hnodup', hvalues'⟩ : (members'.map (·.1)).Nodup ∧ JsValue.WellNamedMembers members' :=
    hnamed'
  rw [JsValue.wellNamedMembers_iff] at hvalues hvalues'
  have hnames := nodup_names_jsonMembers hnodup hjson
  have hnames' := nodup_names_jsonMembers hnodup' hjson'
  rw [← names_sortedMembers] at hnames'
  rw [areJsonMembers_iff] at hjson hjson'
  have hequal : ∀ m ∈ present members, ∀ m' ∈ present members',
      (m.2.Equal m'.2 ↔ m.2.json.sorted = m'.2.json.sorted) := by
    intro m hm m' hm'
    have hmem := List.mem_of_mem_filter hm
    have hmem' := List.mem_of_mem_filter hm'
    exact ih m hmem m' hmem' (hjson m hm).2 (hjson' m' hm').2 (hvalues m hmem) (hvalues' m' hmem')
  have hname : ∀ m ∈ present members, ∀ m' ∈ present members', textOf m.1 = textOf m'.1 →
      m.1 = m'.1 := fun m hm m' hm' ↦ textOf_injective (hjson m hm).1 (hjson' m' hm').1
  rw [same_obj_iff hnames, List.perm_ext_iff_of_nodup
    (List.Nodup.of_map _ (names_sortedMembers _ ▸ hnames)) (List.Nodup.of_map _ hnames'),
    sortedMembers_jsonMembers, sortedMembers_jsonMembers, equalMembers_iff]
  constructor
  · rintro ⟨hforth, hback⟩ x
    constructor
    · intro hx
      obtain ⟨m, hm, rfl⟩ := List.mem_map.mp hx
      obtain ⟨w, hw, hmw⟩ := hforth m hm
      rw [(hequal m hm _ hw).mp hmw]
      exact List.mem_map.mpr ⟨(m.1, w), hw, rfl⟩
    · intro hx
      obtain ⟨m', hm', rfl⟩ := List.mem_map.mp hx
      obtain ⟨m, hm, hmm'⟩ := List.mem_map.mp (hback m' hm')
      obtain ⟨w, hw, hmw⟩ := hforth m hm
      obtain rfl : (m.1, w) = m' := List.inj_on_of_nodup_map hnodup'
        (List.mem_of_mem_filter hw) (List.mem_of_mem_filter hm') hmm'
      rw [← (hequal m hm _ hw).mp hmw]
      exact List.mem_map.mpr ⟨m, hm, rfl⟩
  · intro hiff
    constructor
    · intro m hm
      obtain ⟨m', hm', heq⟩ := List.mem_map.mp ((hiff _).mp (List.mem_map.mpr ⟨m, hm, rfl⟩))
      obtain ⟨htext, hsorted⟩ := Prod.mk.inj heq
      refine ⟨m'.2, ?_, (hequal m hm m' hm').mpr hsorted.symm⟩
      rw [hname m hm m' hm' htext.symm]
      exact hm'
    · intro m' hm'
      obtain ⟨m, hm, heq⟩ := List.mem_map.mp ((hiff _).mpr (List.mem_map.mpr ⟨m', hm', rfl⟩))
      obtain ⟨htext, -⟩ := Prod.mk.inj heq
      exact List.mem_map.mpr ⟨m, hm, hname m hm m' hm' htext⟩

theorem equal_iff_same {a b : JsValue} (ha : a.isJson = true) (hb : b.isJson = true)
    (hna : a.WellNamed) (hnb : b.WellNamed) : a.Equal b ↔ a.Same b := by
  induction a using JsValue.induction generalizing b with
  | undefined => simp [JsValue.isJson] at ha
  | nan => simp [JsValue.isJson] at ha
  | other type => simp [JsValue.isJson] at ha
  | null =>
    show b = .null ↔ Json.null = b.json.sorted
    constructor
    · rintro rfl
      rfl
    · intro h
      cases b <;> simp [JsValue.json, Json.sorted, JsValue.isJson] at h hb ⊢
  | bool x =>
    show b = .bool x ↔ Json.bool x = b.json.sorted
    constructor
    · rintro rfl
      rfl
    · intro h
      cases b <;> simp [JsValue.json, Json.sorted, JsValue.isJson] at h hb ⊢
      exact h.symm
  | num x =>
    show b = .num x ↔ Json.num x = b.json.sorted
    constructor
    · rintro rfl
      rfl
    · intro h
      cases b <;> simp [JsValue.json, Json.sorted, JsValue.isJson] at h hb ⊢
      exact h.symm
  | str s =>
    show b = .str s ↔ Json.str (textOf s) = b.json.sorted
    constructor
    · rintro rfl
      rfl
    · intro h
      cases b <;> simp [JsValue.json, Json.sorted, JsValue.isJson] at h hb ⊢
      rw [JsValue.isJson, Bool.not_eq_true'] at ha
      exact (textOf_injective ha hb h).symm
  | arr items ih =>
    have hitems : ∀ items', areJson items = true → areJson items' = true →
        JsValue.WellNamedItems items → JsValue.WellNamedItems items' →
        (EqualItems items items' ↔
          sortedItems (jsonItems items) = sortedItems (jsonItems items')) := by
      clear ha hna
      induction items with
      | nil =>
        intro items' _ hjson' _ _
        rw [EqualItems, jsonItems, sortedItems]
        cases items' with
        | nil => simp [jsonItems, sortedItems]
        | cons item items' => cases item <;> simp [jsonItems, sortedItems]
      | cons item items ihitems =>
        intro items' hjson hjson' hnamed hnamed'
        cases item with
        | none => cases hjson
        | some v =>
          rw [areJson, Bool.and_eq_true] at hjson
          rw [JsValue.WellNamedItems] at hnamed
          rw [EqualItems, jsonItems, sortedItems]
          cases items' with
          | nil => simp [jsonItems, sortedItems]
          | cons item' items' =>
            cases item' with
            | none => cases hjson'
            | some w =>
              rw [areJson, Bool.and_eq_true] at hjson'
              rw [JsValue.WellNamedItems] at hnamed'
              have hrest := ihitems (fun u hu ↦ ih u (List.mem_cons_of_mem _ hu)) items' hjson.2
                hjson'.2 hnamed.2 hnamed'.2
              have hv : v.Equal w ↔ v.json.sorted = w.json.sorted :=
                ih v List.mem_cons_self hjson.1 hjson'.1 hnamed.1 hnamed'.1
              rw [jsonItems, sortedItems, List.cons.injEq, ← hv, ← hrest]
              constructor
              · rintro ⟨w', rest, heq, hequal, hequals⟩
                obtain ⟨rfl, rfl⟩ : w = w' ∧ items' = rest := by simpa using heq
                exact ⟨hequal, hequals⟩
              · rintro ⟨hequal, hequals⟩
                exact ⟨w, items', rfl, hequal, hequals⟩
    show (∃ items', b = .arr items' ∧ EqualItems items items') ↔
      (Json.arr (jsonItems items)).sorted = b.json.sorted
    rw [Json.sorted]
    constructor
    · rintro ⟨items', rfl, h⟩
      rw [JsValue.json_arr, Json.sorted, Json.arr.injEq]
      exact (hitems items' ha hb hna hnb).mp h
    · intro h
      cases b <;> simp [JsValue.json, Json.sorted, JsValue.isJson] at h hb ⊢
      exact (hitems _ ha hb hna hnb).mpr h
  | obj prototype members ih =>
    cases prototype with
    | parsed => simp [JsValue.isJson] at ha
    | foreign => simp [JsValue.isJson] at ha
    | plain =>
      have hmembers : ∀ members', areJsonMembers members' = true →
          (JsValue.obj .plain members').WellNamed →
          ((EqualMembers members members' ∧
              ∀ m ∈ present members', m.1 ∈ (present members).map (·.1)) ↔
            (Json.obj (jsonMembers members)).Same (.obj (jsonMembers members'))) :=
        fun members' hb hnb ↦ equal_members_iff_same ha hb hna hnb
          fun m hm m' hm' hjson hjson' hnamed hnamed' ↦ ih m hm hjson hjson' hnamed hnamed'
      show (∃ members', b = .obj .plain members' ∧ EqualMembers members members' ∧ _) ↔
        (Json.obj (jsonMembers members)).sorted = b.json.sorted
      constructor
      · rintro ⟨members', rfl, h⟩
        rw [JsValue.json_plain]
        exact (hmembers members' hb hnb).mp h
      · intro h
        cases b with
        | obj prototype members' =>
          cases prototype with
          | plain => exact ⟨members', rfl, (hmembers members' hb hnb).mpr h⟩
          | parsed => simp [JsValue.isJson] at hb
          | foreign => simp [JsValue.isJson] at hb
        | _ => simp [JsValue.json, Json.sorted] at h hb

/-! ### Reading the text back -/

mutual

/-- The numbers in the value are doubles. -/
def JsValue.HasDoubles : JsValue → Prop
  | .num x => x.IsDouble
  | .arr items => HaveDoubles items
  | .obj _ members => MembersHaveDoubles members
  | _ => True

def HaveDoubles : List (Option JsValue) → Prop
  | [] => True
  | none :: items => HaveDoubles items
  | some v :: items => v.HasDoubles ∧ HaveDoubles items

def MembersHaveDoubles : List (JsString × JsValue) → Prop
  | [] => True
  | (_, v) :: members => v.HasDoubles ∧ MembersHaveDoubles members

end

/-- A value of the program: an object has a name once, and a number is a double. -/
abbrev HeldValue := {v : JsValue // v.WellNamed ∧ v.HasDoubles}

theorem haveDoubles_iff : HaveDoubles items ↔ ∀ v, some v ∈ items → v.HasDoubles := by
  induction items with
  | nil => simp [HaveDoubles]
  | cons item items ih =>
    cases item with
    | none => simp [HaveDoubles, ih]
    | some v => simp [HaveDoubles, ih]

theorem membersHaveDoubles_iff :
    MembersHaveDoubles members ↔ ∀ m ∈ members, m.2.HasDoubles := by
  induction members with
  | nil => simp [MembersHaveDoubles]
  | cons m members ih => rw [MembersHaveDoubles, ih, List.forall_mem_cons]

theorem mem_jsonItems (hjson : areJson items = true) {u : Json} :
    u ∈ jsonItems items ↔ ∃ v, some v ∈ items ∧ v.json = u := by
  induction items with
  | nil => simp [jsonItems]
  | cons item items ih =>
    cases item with
    | none => cases hjson
    | some v =>
      rw [areJson, Bool.and_eq_true] at hjson
      simp [jsonItems, ih hjson.2, eq_comm]

/-- The sorted value of a value of the program is one that is read back. -/
theorem held_sorted {v : JsValue} (hjson : v.isJson = true) (hnamed : v.WellNamed)
    (hdoubles : v.HasDoubles) : v.json.sorted.Held := by
  induction v using JsValue.induction with
  | undefined => simp [JsValue.isJson] at hjson
  | nan => simp [JsValue.isJson] at hjson
  | other type => simp [JsValue.isJson] at hjson
  | null => trivial
  | bool b => trivial
  | str s => trivial
  | num x =>
    refine ⟨hdoubles, fun i hi ↦ ?_⟩
    subst hi
    cases hjson
  | arr items ih =>
    have hall := areJson_iff.mp hjson
    rw [JsValue.WellNamed, JsValue.wellNamedItems_iff] at hnamed
    rw [JsValue.HasDoubles, haveDoubles_iff] at hdoubles
    rw [JsValue.json_arr, Json.sorted, Json.Held, Audit.heldItems_iff, Audit.sortedItems_eq_map]
    intro u hu
    obtain ⟨u', hu', rfl⟩ := List.mem_map.mp hu
    obtain ⟨w, hw, rfl⟩ := (mem_jsonItems hjson).mp hu'
    obtain ⟨_, heq, hw'⟩ := hall _ hw
    obtain rfl := Option.some.inj heq
    exact ih w hw hw' (hnamed w hw) (hdoubles w hw)
  | obj prototype members ih =>
    cases prototype with
    | parsed => simp [JsValue.isJson] at hjson
    | foreign => simp [JsValue.isJson] at hjson
    | plain =>
      have hall := areJsonMembers_iff.mp hjson
      have hboth : (members.map (·.1)).Nodup ∧ JsValue.WellNamedMembers members :=
        hnamed
      obtain ⟨hnodup, hnamed⟩ := hboth
      rw [JsValue.wellNamedMembers_iff] at hnamed
      rw [JsValue.HasDoubles, membersHaveDoubles_iff] at hdoubles
      have hnames := nodup_names_jsonMembers hnodup hjson
      rw [← names_sortedMembers] at hnames
      rw [JsValue.json_plain, Json.sorted, Json.Held, Audit.heldMembers_iff]
      refine ⟨(Table.perm_orderBy.map _).nodup_iff.mpr hnames, fun m hm ↦ ?_⟩
      rw [Audit.sortMembers, Table.mem_orderBy, sortedMembers_jsonMembers, List.mem_map] at hm
      obtain ⟨m', hm', rfl⟩ := hm
      have hmem := List.mem_of_mem_filter hm'
      exact ih m' hmem (hall m' hm').2 (hnamed m' hmem) (hdoubles m' hmem)

theorem isUndefined_toValue (u : Json) : u.toValue.isUndefined = false := by
  cases u <;> rfl

theorem present_toMembers (members : List (String × Json)) :
    present (Audit.toMembers members) = Audit.toMembers members := by
  rw [present, List.filter_eq_self, Audit.toMembers_eq_map]
  intro m hm
  obtain ⟨m', -, rfl⟩ := List.mem_map.mp hm
  simp [isUndefined_toValue]

/-- A value is the one that the program holds it as. -/
theorem json_toValue (u : Json) : u.toValue.json = u := by
  induction u using Json.induction with
  | null => rfl
  | bool b => rfl
  | num x => rfl
  | str s => exact congrArg Json.str (textOf_units s)
  | arr items ih =>
    have hback : ∀ us : List Json, (∀ u ∈ us, u.toValue.json = u) →
        jsonItems ((Audit.toValues us).map some) = us := by
      intro us hus
      induction us with
      | nil => rfl
      | cons u us ihus =>
        rw [List.forall_mem_cons] at hus
        rw [Audit.toValues, List.map_cons, jsonItems, hus.1, ihus hus.2]
    rw [Json.toValue, JsValue.json_arr, hback items ih]
  | obj members ih =>
    have hback : (Audit.toMembers members).map (fun m ↦ (textOf m.1, m.2.json)) = members := by
      rw [Audit.toMembers_eq_map, List.map_map]
      conv_rhs => rw [← List.map_id members]
      exact List.map_congr_left fun m hm ↦ Prod.ext (textOf_units _) (ih m hm)
    rw [Json.toValue, JsValue.json_plain, jsonMembers_eq_map, present_toMembers, hback]

/-- What is read of a text is a value of the program, and the one that was written. -/
theorem toValue_spec {u : Json} (h : u.Held) : u.toValue.isJson = true ∧ u.toValue.WellNamed ∧
    u.toValue.HasDoubles ∧ u.toValue.json = u := by
  induction u using Json.induction with
  | null => exact ⟨rfl, trivial, trivial, rfl⟩
  | bool b => exact ⟨rfl, trivial, trivial, rfl⟩
  | num x =>
    refine ⟨?_, trivial, h.1, rfl⟩
    cases x with
    | infinite i => exact absurd rfl (h.2 i)
    | zero => rfl
    | finite x => rfl
  | str s => exact ⟨by simp [Json.toValue, JsValue.isJson], trivial, trivial, json_toValue _⟩
  | arr items ih =>
    have hitems := Audit.heldItems_iff.mp h
    have hmem : ∀ item ∈ (Audit.toValues items).map some, ∃ u ∈ items, item = some u.toValue := by
      intro item hitem
      obtain ⟨v, hv, rfl⟩ := List.mem_map.mp hitem
      rw [Audit.toValues_eq_map] at hv
      obtain ⟨u, hu, rfl⟩ := List.mem_map.mp hv
      exact ⟨u, hu, rfl⟩
    refine ⟨areJson_iff.mpr fun item hitem ↦ ?_, JsValue.wellNamedItems_iff.mpr fun v hv ↦ ?_,
      haveDoubles_iff.mpr fun v hv ↦ ?_, json_toValue _⟩
    · obtain ⟨u, hu, rfl⟩ := hmem item hitem
      exact ⟨_, rfl, (ih u hu (hitems u hu)).1⟩
    · obtain ⟨u, hu, heq⟩ := hmem _ hv
      obtain rfl := Option.some.inj heq
      exact (ih u hu (hitems u hu)).2.1
    · obtain ⟨u, hu, heq⟩ := hmem _ hv
      obtain rfl := Option.some.inj heq
      exact (ih u hu (hitems u hu)).2.2.1
  | obj members ih =>
    have hboth : (members.map (·.1)).Nodup ∧ Audit.HeldMembers members := h
    obtain ⟨hnodup, hheld⟩ := hboth
    rw [Audit.heldMembers_iff] at hheld
    have hmem : ∀ m ∈ Audit.toMembers members, ∃ m' ∈ members,
        m = (units m'.1, m'.2.toValue) := by
      intro m hm
      rw [Audit.toMembers_eq_map] at hm
      obtain ⟨m', hm', rfl⟩ := List.mem_map.mp hm
      exact ⟨m', hm', rfl⟩
    have hnames : ((Audit.toMembers members).map (·.1)).Nodup := by
      rw [Audit.toMembers_eq_map, List.map_map]
      have := hnodup.map (f := units) fun _ _ ↦ units_injective
      rwa [List.map_map] at this
    refine ⟨areJsonMembers_iff.mpr fun m hm ↦ ?_,
      ⟨hnames, JsValue.wellNamedMembers_iff.mpr fun m hm ↦ ?_⟩,
      membersHaveDoubles_iff.mpr fun m hm ↦ ?_, json_toValue _⟩
    · rw [present_toMembers] at hm
      obtain ⟨m', hm', rfl⟩ := hmem m hm
      exact ⟨loneSurrogate_units _, (ih m' hm' (hheld m' hm')).1⟩
    · obtain ⟨m', hm', rfl⟩ := hmem m hm
      exact (ih m' hm' (hheld m' hm')).2.1
    · obtain ⟨m', hm', rfl⟩ := hmem m hm
      exact (ih m' hm' (hheld m' hm')).2.2.1

theorem sorted_sorted (v : Json) : v.sorted.sorted = v.sorted := by
  induction v using Json.induction with
  | null => rfl
  | bool b => rfl
  | num x => rfl
  | str s => rfl
  | arr items ih =>
    rw [Json.sorted, Json.sorted, Audit.sortedItems_eq_map, Audit.sortedItems_eq_map, List.map_map,
      Json.arr.injEq]
    exact List.map_congr_left ih
  | obj members ih =>
    have hsort : sortedMembers (Audit.sortMembers (sortedMembers members)) =
        Audit.sortMembers (sortedMembers members) := by
      rw [Audit.sortedMembers_eq_map]
      conv_rhs => rw [← List.map_id (Audit.sortMembers (sortedMembers members))]
      refine List.map_congr_left fun m hm ↦ ?_
      rw [Audit.sortMembers, Table.mem_orderBy, Audit.sortedMembers_eq_map, List.mem_map] at hm
      obtain ⟨m', hm', rfl⟩ := hm
      exact Prod.ext rfl (ih m' hm')
    rw [Json.sorted, Json.sorted, hsort, Json.obj.injEq]
    exact Table.orderBy_eq_self Table.pairwise_orderBy

theorem exists_parse {v : JsValue} {text : List Char} (hnamed : v.WellNamed)
    (hdoubles : v.HasDoubles) (h : canonicalizeJson v = .ok text) :
    ∃ w : HeldValue, Audit.parse text = some w.1 ∧ v.Equal w.1 := by
  obtain ⟨hjson, rfl⟩ := serialize_eq_ok_iff.mp h
  have hheld := held_sorted hjson hnamed hdoubles
  obtain ⟨hread, hreadNamed, hreadDoubles, hback⟩ := toValue_spec hheld
  refine ⟨⟨_, hreadNamed, hreadDoubles⟩, Audit.parse_text hheld, ?_⟩
  rw [equal_iff_same hjson hread hnamed hreadNamed, JsValue.Same, Json.Same, hback, sorted_sorted]

/-- Every JSON value has a canonical text, and no other value of the program. Two of them have one
text exactly when they are equal, and the text of one is parsed as an equal value. -/
theorem canonicalizeJson_canonical :
    (∀ v : JsValue, (∃ text, canonicalizeJson v = .ok text) ↔ v.isJson = true) ∧
    (∀ (a b : Unknown) (s t : List Char), canonicalizeJson a.1 = .ok s →
      canonicalizeJson b.1 = .ok t → (s = t ↔ a.1.Equal b.1)) ∧
    ∀ (a : HeldValue) (text : List Char), canonicalizeJson a.1 = .ok text →
      ∃ b : HeldValue, Audit.parse text = some b.1 ∧ a.1.Equal b.1 := by
  refine ⟨fun v ↦ ?_, fun a b s t hs ht ↦ ?_, fun a text h ↦ exists_parse a.2.1 a.2.2 h⟩
  · constructor
    · rintro ⟨text, h⟩
      exact (serialize_eq_ok_iff.mp h).1
    · intro hjson
      exact ⟨_, serialize_eq_ok_iff.mpr ⟨hjson, rfl⟩⟩
  · obtain ⟨ha, rfl⟩ := serialize_eq_ok_iff.mp hs
    obtain ⟨hb, rfl⟩ := serialize_eq_ok_iff.mp ht
    rw [equal_iff_same ha hb a.2 b.2]
    exact ⟨text_injective, congrArg Json.text⟩

end QAuth.Approvals
