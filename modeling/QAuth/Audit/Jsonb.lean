import QAuth.Approvals.CanonicalForm

/-!
# Values in a `jsonb` column

A value that is written to a `jsonb` column keeps its numbers and strings. Its objects lose the
members that are undefined, and stand in the order of the database.
-/

namespace QAuth.Audit

open Text

/-- The order of `jsonb`: short names first, and those of one length by their bytes. -/
def jsonbOrder (members : List (String × Json)) : List (String × Json) :=
  Table.orderBy (fun member : String × Json ↦
    (utf8Bytes member.1.toList).length :: (utf8Bytes member.1.toList).map UInt8.toNat) members

mutual

/-- The value as the database holds it. -/
def Json.stored : Json → Json
  | .arr items => .arr (storedItems items)
  | .obj members => .obj (jsonbOrder (storedMembers members))
  | v => v

def storedItems : List Json → List Json
  | [] => []
  | v :: items => v.stored :: storedItems items

def storedMembers : List (String × Json) → List (String × Json)
  | [] => []
  | (key, v) :: members => (key, v.stored) :: storedMembers members

end

theorem storedItems_eq_map (items : List Json) : storedItems items = items.map Json.stored := by
  induction items with
  | nil => rfl
  | cons v items ih => rw [storedItems, ih, List.map_cons]

theorem storedMembers_eq_map (members : List (String × Json)) :
    storedMembers members = members.map fun m ↦ (m.1, m.2.stored) := by
  induction members with
  | nil => rfl
  | cons m members ih => rw [storedMembers, ih, List.map_cons]

end QAuth.Audit

namespace QAuth.Approvals

open Audit (Json JsNumber jsonbOrder sortedItems sortedMembers storedItems storedMembers)
open Text

mutual

/-- A string of the value, the names of members included, holds U+0000. -/
def JsValue.holdsNul : JsValue → Bool
  | .str s => s.contains 0
  | .arr items => itemsHoldNul items
  | .obj _ members => membersHoldNul members
  | _ => false

def itemsHoldNul : List (Option JsValue) → Bool
  | [] => false
  | none :: items => itemsHoldNul items
  | some v :: items => v.holdsNul || itemsHoldNul items

def membersHoldNul : List (JsString × JsValue) → Bool
  | [] => false
  | (key, v) :: members => key.contains 0 || v.holdsNul || membersHoldNul members

end

/-- What is read back is a JSON value, and the one that was written. -/
structure StoredAs (v : JsValue) : Prop where
  isJson : v.json.stored.toValue.isJson = true
  same : v.json.stored.Same v.json

variable {items : List (Option JsValue)} {members : List (JsString × JsValue)}

theorem storedAs_arr (hjson : areJson items = true) (h : ∀ v, some v ∈ items → StoredAs v) :
    StoredAs (.arr items) where
  isJson := by
    rw [JsValue.json_arr, Json.stored, Json.toValue, JsValue.isJson, areJson_iff,
      Audit.storedItems_eq_map, Audit.toValues_eq_map]
    intro item hitem
    simp only [List.map_map, List.mem_map, Function.comp_apply] at hitem
    obtain ⟨u, hu, rfl⟩ := hitem
    obtain ⟨v, hv, rfl⟩ := (mem_jsonItems hjson).mp hu
    exact ⟨_, rfl, (h v hv).isJson⟩
  same := by
    rw [JsValue.json_arr, Json.stored, Json.Same, Json.sorted, Json.sorted, Json.arr.injEq,
      Audit.storedItems_eq_map, Audit.sortedItems_eq_map, Audit.sortedItems_eq_map, List.map_map]
    refine List.map_congr_left fun u hu ↦ ?_
    obtain ⟨v, hv, rfl⟩ := (mem_jsonItems hjson).mp hu
    exact (h v hv).same

theorem mem_storedMembers {m : String × Json} :
    m ∈ jsonbOrder (storedMembers (jsonMembers members)) ↔
      ∃ m' ∈ present members, m = (textOf m'.1, m'.2.json.stored) := by
  rw [jsonbOrder, Table.mem_orderBy, Audit.storedMembers_eq_map, jsonMembers_eq_map]
  simp [eq_comm]

theorem storedAs_obj (hjson : areJsonMembers members = true)
    (hnodup : (members.map (·.1)).Nodup) (h : ∀ m ∈ present members, StoredAs m.2) :
    StoredAs (.obj .plain members) where
  isJson := by
    rw [JsValue.json_plain, Json.stored, Json.toValue, JsValue.isJson, areJsonMembers_iff,
      present_toMembers, Audit.toMembers_eq_map]
    intro m hm
    obtain ⟨m', hm', rfl⟩ := List.mem_map.mp hm
    obtain ⟨w, hw, rfl⟩ := mem_storedMembers.mp hm'
    exact ⟨loneSurrogate_units _, (h w hw).isJson⟩
  same := by
    have hmembers : sortedMembers (storedMembers (jsonMembers members)) =
        sortedMembers (jsonMembers members) := by
      rw [Audit.sortedMembers_eq_map, Audit.sortedMembers_eq_map, Audit.storedMembers_eq_map,
        jsonMembers_eq_map, List.map_map, List.map_map, List.map_map]
      exact List.map_congr_left fun m hm ↦ Prod.ext rfl (h m hm).same
    have hperm : (sortedMembers (jsonbOrder (storedMembers (jsonMembers members)))).Perm
        (sortedMembers (storedMembers (jsonMembers members))) := by
      rw [Audit.sortedMembers_eq_map, Audit.sortedMembers_eq_map]
      exact Table.perm_orderBy.map _
    have hnames : ((sortedMembers (jsonbOrder (storedMembers (jsonMembers members)))).map
        (·.1)).Nodup := by
      rw [(hperm.map _).nodup_iff, hmembers, names_sortedMembers]
      exact nodup_names_jsonMembers hnodup hjson
    rw [JsValue.json_plain, Json.stored, Json.Same, Json.sorted, Json.sorted, Json.obj.injEq,
      sortMembers_eq_of_perm hperm hnames, hmembers]

/-- What is read back of a `jsonb` column is the JSON value that was written. -/
theorem stored_spec {v : JsValue} (hjson : v.isJson = true) (hnamed : v.WellNamed) :
    StoredAs v := by
  induction v using JsValue.induction with
  | undefined => cases hjson
  | nan => cases hjson
  | other type => cases hjson
  | null => exact ⟨rfl, rfl⟩
  | bool b => exact ⟨rfl, rfl⟩
  | num x =>
    refine ⟨?_, rfl⟩
    cases x with
    | infinite => cases hjson
    | zero => rfl
    | finite x => rfl
  | str s => exact ⟨by simp [JsValue.json, Json.stored, Json.toValue, JsValue.isJson], rfl⟩
  | arr items ih =>
    rw [JsValue.WellNamed, JsValue.wellNamedItems_iff] at hnamed
    refine storedAs_arr hjson fun v hv ↦ ?_
    obtain ⟨_, heq, hv'⟩ := areJson_iff.mp hjson _ hv
    obtain rfl := Option.some.inj heq
    exact ih v hv hv' (hnamed v hv)
  | obj prototype members ih =>
    cases prototype with
    | parsed => cases hjson
    | foreign => cases hjson
    | plain =>
      have hboth : (members.map (·.1)).Nodup ∧ JsValue.WellNamedMembers members :=
        hnamed
      obtain ⟨hnodup, hnamed⟩ := hboth
      rw [JsValue.wellNamedMembers_iff] at hnamed
      refine storedAs_obj hjson hnodup fun m hm ↦ ?_
      have hmem := List.mem_of_mem_filter hm
      exact ih m hmem (areJsonMembers_iff.mp hjson m hm).2 (hnamed m hmem)

end QAuth.Approvals
