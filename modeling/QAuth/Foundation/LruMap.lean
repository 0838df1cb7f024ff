import Mathlib.Data.Finset.Card
import QAuth.Foundation.Table

/-!
# Bounded maps that drop the entry touched longest ago

A map is the list of its entries, the one touched longest ago first. Touching a key makes its
entry the newest, or creates it, and a map past its capacity then loses its oldest entries. A map
whose keys are too few to pass the capacity loses none: it is read as a plain function.
-/

namespace LruMap

variable {κ β : Type} {cap : ℕ} {ks : Finset κ} {m : List (κ × β)} {k k' : κ} {v : β}

/-- The map without its oldest entries past the capacity. -/
def evict (cap : ℕ) (m : List (κ × β)) : List (κ × β) :=
  m.drop (m.length - cap)

/-- The keys are distinct, and among `ks`, which are no more than the capacity. -/
structure Room (cap : ℕ) (ks : Finset κ) (m : List (κ × β)) : Prop where
  nodup : (m.map Prod.fst).Nodup
  mem : ∀ k ∈ m.map Prod.fst, k ∈ ks
  card : ks.card ≤ cap

theorem evict_of_le (h : m.length ≤ cap) : evict cap m = m := by
  rw [evict, Nat.sub_eq_zero_of_le h, List.drop_zero]

theorem Room.nil (h : ks.card ≤ cap) : Room cap ks ([] : List (κ × β)) where
  nodup := List.nodup_nil
  mem := by simp
  card := h

variable [DecidableEq κ]

/-- The value of `k`, which is `v` where the map has none, and the map with `k` as its newest. -/
def touch (cap : ℕ) (m : List (κ × β)) (k : κ) (v : β) : β × List (κ × β) :=
  match m.lookup k with
  | some w => (w, Table.upsert m k w)
  | none => (v, evict cap (m ++ [(k, v)]))

/-- The map after the value of `k` was changed in place. -/
def assign (m : List (κ × β)) (k : κ) (v : β) : List (κ × β) :=
  Table.updateWhere (fun e ↦ decide (e.1 = k)) (fun e ↦ (e.1, v)) m

theorem keys_assign : (assign m k v).map Prod.fst = m.map Prod.fst :=
  Table.map_updateWhere fun _ ↦ rfl

/-- A value changed in place is what its key then reads; no other key reads anything else. -/
theorem lookup_assign :
    (assign m k v).lookup k' = if k' = k then (m.lookup k).map fun _ ↦ v else m.lookup k' := by
  induction m with
  | nil => simp [assign, Table.updateWhere]
  | cons e m ih =>
    obtain ⟨x, w⟩ := e
    have hstep : assign ((x, w) :: m) k v = (x, if x = k then v else w) :: assign m k v := by
      by_cases hx : x = k <;> simp [assign, Table.updateWhere, hx]
    rw [hstep, List.lookup_cons, List.lookup_cons, List.lookup_cons, ih]
    by_cases hk : k' = k
    · subst hk
      by_cases hx : k' = x
      · simp [hx]
      · simp [beq_false_of_ne hx]
    · by_cases hx : k' = x
      · subst hx
        simp [hk]
      · simp [hk, beq_false_of_ne hx]

theorem lookup_isSome_iff : (m.lookup k).isSome ↔ k ∈ m.map Prod.fst := by
  rw [← not_iff_not, Bool.not_eq_true, Option.isSome_eq_false_iff, Option.isNone_iff_eq_none,
    List.lookup_eq_none_iff]
  constructor
  · rintro h hk
    obtain ⟨e, he, rfl⟩ := List.mem_map.mp hk
    simpa using h e he
  · rintro h e he
    rw [bne_iff_ne]
    rintro rfl
    exact h (List.mem_map_of_mem he)

@[simp] theorem touch_fst : (touch cap m k v).1 = (m.lookup k).getD v := by
  unfold touch
  cases m.lookup k <;> rfl

namespace Room

theorem length_le (h : Room cap ks m) : m.length ≤ cap := by
  have hsub : (m.map Prod.fst).toFinset ⊆ ks := by
    intro x hx
    exact h.mem x (List.mem_toFinset.mp hx)
  calc m.length = (m.map Prod.fst).toFinset.card := by
        rw [List.toFinset_card_of_nodup h.nodup, List.length_map]
    _ ≤ ks.card := Finset.card_le_card hsub
    _ ≤ cap := h.card

theorem assigned (h : Room cap ks m) : Room cap ks (assign m k v) where
  nodup := by
    rw [keys_assign]
    exact h.nodup
  mem := by
    rw [keys_assign]
    exact h.mem
  card := h.card

/-- A new key among those there is room for leaves that room. -/
theorem appended (h : Room cap ks m) (hk : k ∈ ks) (hnone : m.lookup k = none) :
    Room cap ks (m ++ [(k, v)]) where
  nodup := by
    have hnot : k ∉ m.map Prod.fst := by
      rw [← lookup_isSome_iff, hnone]
      simp
    rw [List.map_append, List.map_singleton, List.nodup_append]
    refine ⟨h.nodup, List.nodup_singleton _, ?_⟩
    rintro x hx y hy rfl
    rw [List.mem_singleton] at hy
    rw [hy] at hx
    exact hnot hx
  mem := by
    intro x hx
    rw [List.map_append, List.mem_append] at hx
    obtain hx | hx := hx
    · exact h.mem x hx
    · rw [List.map_singleton, List.mem_singleton] at hx
      exact hx ▸ hk
  card := h.card

theorem upserted (h : Room cap ks m) (hk : k ∈ ks) : Room cap ks (Table.upsert m k v) where
  nodup := by
    rw [Table.upsert, List.map_append, List.map_singleton, List.nodup_append]
    refine ⟨h.nodup.sublist (List.filter_sublist.map _), List.nodup_singleton _, ?_⟩
    rintro x hx y hy rfl
    rw [List.mem_singleton] at hy
    obtain ⟨e, he, rfl⟩ := List.mem_map.mp hx
    exact of_decide_eq_true (List.mem_filter.mp he).2 hy
  mem := by
    intro x hx
    obtain ⟨e, he, rfl⟩ := List.mem_map.mp hx
    obtain ⟨hmem, -⟩ | rfl := Table.mem_upsert.mp he
    · exact h.mem _ (List.mem_map_of_mem hmem)
    · exact hk
  card := h.card

theorem touch_snd (h : Room cap ks m) (hk : k ∈ ks) (hnone : m.lookup k = none) :
    (touch cap m k v).2 = m ++ [(k, v)] := by
  rw [touch, hnone]
  exact evict_of_le (h.appended hk hnone).length_le

theorem touched (h : Room cap ks m) (hk : k ∈ ks) : Room cap ks (touch cap m k v).2 := by
  cases hlookup : m.lookup k with
  | none =>
    rw [h.touch_snd hk hlookup]
    exact h.appended hk hlookup
  | some w =>
    rw [touch, hlookup]
    exact h.upserted hk

end Room

/-- Where there is room, a touched key reads its value and the others read what they did. -/
theorem lookup_touch (h : Room cap ks m) (hk : k ∈ ks) :
    (touch cap m k v).2.lookup k' = if k' = k then some ((m.lookup k).getD v) else m.lookup k' := by
  cases hlookup : m.lookup k with
  | none =>
    rw [h.touch_snd hk hlookup, List.lookup_append]
    by_cases hk' : k' = k
    · rw [if_pos hk', hk', hlookup]
      simp
    · rw [if_neg hk', List.lookup_cons, beq_false_of_ne hk']
      cases m.lookup k' <;> rfl
  | some w =>
    have htouch : (touch cap m k v).2 = Table.upsert m k w := by rw [touch, hlookup]
    rw [htouch]
    by_cases hk' : k' = k
    · rw [if_pos hk', hk', Table.lookup_upsert_self]
      rfl
    · rw [if_neg hk', Table.lookup_upsert_ne hk']

end LruMap
