import Mathlib.Algebra.Order.Ring.Rat
import Mathlib.Data.Finset.Card
import Mathlib.Data.Sum.Order
import Mathlib.Order.Basic
import QAuth.Foundation.Json

/-!
# The direction of a policy change

The comparison of `direction.ts`, and the equality by which the diff of two policy documents skips a
field. A direction places the values of its field in a partial order; the comparison calls a change
a tightening exactly when it climbs in that order.
-/

namespace QAuth.Policy

/-- A number as `JSON.parse` returns it: finite, with zero in two signs. -/
inductive Number
  | exact (q : ℚ)
  | negativeZero
deriving DecidableEq

/-- The number, with one zero, as `===` and `<` see it. -/
def Number.toRat : Number → ℚ
  | .exact q => q
  | .negativeZero => 0

/-- A value of a policy document. -/
abbrev Value := Json.Value Number

open Json

/-! ### Directions -/

/-- How the values of a field are ordered by strictness. -/
inductive Direction
  | lowerIsStricter
  | higherIsStricter
  | trueIsStricter
  | falseIsStricter
  /-- Every value of an enum, from the loosest to the strictest. -/
  | ordered (order : List String)
  | subsetIsStricter
  | supersetIsStricter
  /-- No order exists. -/
  | opaqueKind
deriving DecidableEq

/-- Which way one change of a field moves. -/
inductive ChangeDirection
  | tightening
  | loosening
  | neutral
deriving DecidableEq

/-- A direction that treats the value as a set of entries. -/
def isSetDirection : Direction → Bool
  | .subsetIsStricter | .supersetIsStricter => true
  | _ => false

def number? : Option Value → Option ℚ
  | some (.num x) => some x.toRat
  | _ => none

def flag? : Option Value → Option Bool
  | some (.bool b) => some b
  | _ => none

def text? : Value → Option String
  | .str s => some s
  | _ => none

/-- The entries of a set-valued field, where the value is a list of strings. -/
def entriesOf : Option Value → Option (Finset String)
  | some (.arr items) => (items.mapM text?).map List.toFinset
  | _ => none

/-- The place of a value in an explicit order. -/
def indexIn (order : List String) : Option Value → Option ℕ
  | some (.str s) => if s ∈ order then some (order.idxOf s) else none
  | _ => none

/-- Whether two values are the same set of entries, in any order. -/
def sameEntries (before after : Option Value) : Bool :=
  match entriesOf before, entriesOf after with
  | some a, some b => a.card == b.card && decide (a ⊆ b)
  | _, _ => false

/-- The direction of a change of two different values; one that cannot be placed is a loosening. -/
def compareDirection (direction : Direction) (before after : Option Value) : ChangeDirection :=
  let numbers (lowerIsStricter : Bool) : ChangeDirection :=
    match number? before, number? after with
    | some x, some y =>
      if x = y then .loosening
      else if decide (y < x) = lowerIsStricter then .tightening else .loosening
    | _, _ => .loosening
  let flags (trueIsStricter : Bool) : ChangeDirection :=
    match flag? before, flag? after with
    | some a, some b =>
      if a = b then .loosening else if b = trueIsStricter then .tightening else .loosening
    | _, _ => .loosening
  let entries (subsetIsStricter : Bool) : ChangeDirection :=
    match entriesOf before, entriesOf after with
    | some a, some b =>
      if (if subsetIsStricter then b ⊆ a else a ⊆ b) then .tightening else .loosening
    | _, _ => .loosening
  match direction with
  | .opaqueKind => .neutral
  | .lowerIsStricter => numbers true
  | .higherIsStricter => numbers false
  | .trueIsStricter => flags true
  | .falseIsStricter => flags false
  | .ordered order =>
    match indexIn order before, indexIn order after with
    | some i, some j => if i = j then .loosening else if i < j then .tightening else .loosening
    | _, _ => .loosening
  | .subsetIsStricter => entries true
  | .supersetIsStricter => entries false

/-! ### Equal values -/

/-- `===`, for two values that are not both objects. -/
def strictlyEqual : Option Value → Option Value → Bool
  | none, none => true
  | some .null, some .null => true
  | some (.bool a), some (.bool b) => a == b
  | some (.num x), some (.num y) => decide (x.toRat = y.toRat)
  | some (.str s), some (.str t) => s == t
  | _, _ => false

/-- `typeof value === 'object'`, `null` apart. -/
def isObject : Option Value → Bool
  | some (.arr _) | some (.obj _) => true
  | _ => false

/-- Whether two values of a field are the same; `0` and `-0` are. -/
def samePolicyValue (a b : Option Value) : Bool :=
  if !isObject a || !isObject b then strictlyEqual a b
  else
    match a, b with
    | some v, some w => decide (Value.Same v w)
    | _, _ => false

/-- What `samePolicyValue` compares of a value. -/
def comparedAs : Option Value → Option Value
  | some (.num x) => some (.num (.exact x.toRat))
  | some v => some v.sorted
  | none => none

theorem samePolicyValue_iff {a b : Option Value} :
    samePolicyValue a b = true ↔ comparedAs a = comparedAs b := by
  rcases a with _ | a
  · rcases b with _ | b
    · simp [samePolicyValue, isObject, strictlyEqual, comparedAs]
    · cases b <;> simp [samePolicyValue, isObject, strictlyEqual, comparedAs]
  · rcases b with _ | b
    · cases a <;> simp [samePolicyValue, isObject, strictlyEqual, comparedAs]
    · cases a <;> cases b <;>
        simp [samePolicyValue, isObject, strictlyEqual, comparedAs, Value.Same, Value.sorted]

/-- The two values of a field of the direction are one to the diff. -/
def Unchanged (direction : Direction) (a b : Option Value) : Prop :=
  samePolicyValue a b = true ∨ isSetDirection direction = true ∧ sameEntries a b = true

instance (direction : Direction) (a b : Option Value) : Decidable (Unchanged direction a b) :=
  inferInstanceAs (Decidable (_ ∨ _ ∧ _))

/-! ### Values in an order -/

/-- A preorder that holds of every step of a sequence holds from end to end. -/
theorem rel_of_steps {α : Type*} {R : α → α → Prop} (hrefl : ∀ a, R a a)
    (htrans : ∀ {a b c}, R a b → R b c → R a c) {x : ℕ → α} {n : ℕ}
    (h : ∀ i < n, R (x i) (x (i + 1))) : R (x 0) (x n) := by
  induction n with
  | zero => exact hrefl (x 0)
  | succ n ih => exact htrans (ih fun i hi ↦ h i (by omega)) (h n n.lt_succ_self)

section Placed

variable {α P : Type*} [PartialOrder P] {place : α → Option P} {a b c : α}

/-- Both values have a place, and the second one is higher. -/
def Below (place : α → Option P) (a b : α) : Prop := ∃ x ∈ place a, ∃ y ∈ place b, x < y

theorem Below.trans (h : Below place a b) (k : Below place b c) : Below place a c := by
  obtain ⟨x, hx, y, hy, hxy⟩ := h
  obtain ⟨y', hy', z, hz, hyz⟩ := k
  obtain rfl : y = y' := Option.mem_unique hy hy'
  exact ⟨x, hx, z, hz, hxy.trans hyz⟩

theorem Below.asymm (h : Below place a b) : ¬ Below place b a := by
  rintro ⟨y', hy', x', hx', hlt⟩
  obtain ⟨x, hx, y, hy, hxy⟩ := h
  obtain rfl : x = x' := Option.mem_unique hx hx'
  obtain rfl : y = y' := Option.mem_unique hy hy'
  exact hxy.asymm hlt

end Placed

/-- The orders the directions use: numbers, ranks, and sets of entries in either direction. -/
abbrev Level := ℚ ⊕ ℕ ⊕ Finset String ⊕ (Finset String)ᵒᵈ

/-- Where a direction places a value; a higher place is stricter. -/
def Direction.level : Direction → Option Value → Option Level
  | .lowerIsStricter, v => (number? v).map fun q ↦ .inl (-q)
  | .higherIsStricter, v => (number? v).map .inl
  | .trueIsStricter, v => (flag? v).map fun b ↦ .inr (.inl b.toNat)
  | .falseIsStricter, v => (flag? v).map fun b ↦ .inr (.inl (!b).toNat)
  | .ordered order, v => (indexIn order v).map fun i ↦ .inr (.inl i)
  | .subsetIsStricter, v => (entriesOf v).map fun s ↦ .inr (.inr (.inr (OrderDual.toDual s)))
  | .supersetIsStricter, v => (entriesOf v).map fun s ↦ .inr (.inr (.inl s))
  | .opaqueKind, _ => none

/-- The direction places the second value above the first. -/
def Stricter (direction : Direction) (a b : Option Value) : Prop := Below direction.level a b

/-! ### A direction sees equal values alike -/

theorem number?_comparedAs (v : Option Value) : number? (comparedAs v) = number? v := by
  rcases v with _ | v
  · rfl
  · cases v <;> rfl

theorem flag?_comparedAs (v : Option Value) : flag? (comparedAs v) = flag? v := by
  rcases v with _ | v
  · rfl
  · cases v <;> rfl

theorem indexIn_comparedAs (order : List String) (v : Option Value) :
    indexIn order (comparedAs v) = indexIn order v := by
  rcases v with _ | v
  · rfl
  · cases v <;> rfl

theorem mapM_text?_sortedItems (items : List Value) :
    (Value.sortedItems items).mapM text? = items.mapM text? := by
  induction items with
  | nil => rfl
  | cons v vs ih =>
    have hv : text? v.sorted = text? v := by cases v <;> rfl
    rw [Value.sortedItems, List.mapM_cons, List.mapM_cons, hv, ih]

theorem entriesOf_comparedAs (v : Option Value) : entriesOf (comparedAs v) = entriesOf v := by
  rcases v with _ | v
  · rfl
  · cases v with
    | arr items =>
      show (List.mapM text? (Value.sortedItems items)).map List.toFinset = _
      rw [mapM_text?_sortedItems]
      rfl
    | _ => rfl

theorem sameEntries_iff {a b : Option Value} :
    sameEntries a b = true ↔ ∃ s, entriesOf a = some s ∧ entriesOf b = some s := by
  unfold sameEntries
  rcases entriesOf a with _ | s
  · simp
  · rcases entriesOf b with _ | t
    · simp
    · simp only [Bool.and_eq_true, beq_iff_eq, decide_eq_true_eq, Option.some.injEq]
      constructor
      · rintro ⟨hcard, hsub⟩
        exact ⟨s, rfl, (Finset.eq_of_subset_of_card_le hsub hcard.ge).symm⟩
      · rintro ⟨_, rfl, rfl⟩
        exact ⟨rfl, Finset.Subset.refl _⟩

theorem level_comparedAs (direction : Direction) (v : Option Value) :
    direction.level (comparedAs v) = direction.level v := by
  cases direction <;>
    simp only [Direction.level, number?_comparedAs, flag?_comparedAs, indexIn_comparedAs,
      entriesOf_comparedAs]

theorem Unchanged.level_eq {direction : Direction} {a b : Option Value}
    (h : Unchanged direction a b) : direction.level a = direction.level b := by
  rcases h with h | ⟨hset, h⟩
  · rw [← level_comparedAs direction a, samePolicyValue_iff.mp h, level_comparedAs]
  · obtain ⟨s, ha, hb⟩ := sameEntries_iff.mp h
    cases direction with
    | subsetIsStricter => simp only [Direction.level, ha, hb]
    | supersetIsStricter => simp only [Direction.level, ha, hb]
    | _ => cases hset

/-! ### Equality of a field's values is an equivalence -/

namespace Unchanged

variable {direction : Direction} {a b c : Option Value}

protected theorem refl (direction : Direction) (a : Option Value) : Unchanged direction a a :=
  .inl (samePolicyValue_iff.mpr rfl)

protected theorem symm (h : Unchanged direction a b) : Unchanged direction b a := by
  rcases h with h | ⟨hset, h⟩
  · exact .inl (samePolicyValue_iff.mpr (samePolicyValue_iff.mp h).symm)
  · obtain ⟨s, ha, hb⟩ := sameEntries_iff.mp h
    exact .inr ⟨hset, sameEntries_iff.mpr ⟨s, hb, ha⟩⟩

theorem entriesOf_eq (h : samePolicyValue a b = true) : entriesOf a = entriesOf b := by
  rw [← entriesOf_comparedAs a, samePolicyValue_iff.mp h, entriesOf_comparedAs]

protected theorem trans (h : Unchanged direction a b) (k : Unchanged direction b c) :
    Unchanged direction a c := by
  rcases h with h | ⟨hset, h⟩ <;> rcases k with k | ⟨kset, k⟩
  · exact .inl (samePolicyValue_iff.mpr
      ((samePolicyValue_iff.mp h).trans (samePolicyValue_iff.mp k)))
  · obtain ⟨s, hb, hc⟩ := sameEntries_iff.mp k
    exact .inr ⟨kset, sameEntries_iff.mpr ⟨s, (entriesOf_eq h).trans hb, hc⟩⟩
  · obtain ⟨s, ha, hb⟩ := sameEntries_iff.mp h
    exact .inr ⟨hset, sameEntries_iff.mpr ⟨s, ha, (entriesOf_eq k).symm.trans hb⟩⟩
  · obtain ⟨s, ha, hb⟩ := sameEntries_iff.mp h
    obtain ⟨t, hb', hc⟩ := sameEntries_iff.mp k
    obtain rfl : s = t := Option.some.inj (hb.symm.trans hb')
    exact .inr ⟨hset, sameEntries_iff.mpr ⟨s, ha, hc⟩⟩

end Unchanged

/-! ### A tightening climbs -/

section Compare

variable {direction : Direction} {a b c : Option Value}

/-- Two numbers, flags, ranks or sets compare as the function says. -/
theorem compareDirection_eq_tightening_iff (h : ¬ Unchanged direction a b) :
    compareDirection direction a b = .tightening ↔ Stricter direction a b := by
  cases direction with
  | lowerIsStricter =>
    simp only [compareDirection, Stricter, Below, Direction.level]
    rcases number? a with _ | x <;> rcases number? b with _ | y <;> simp
    rcases lt_trichotomy x y with hlt | rfl | hlt
    · simp [hlt.ne, hlt.le]
    · simp
    · simp [hlt.ne', hlt]
  | higherIsStricter =>
    simp only [compareDirection, Stricter, Below, Direction.level]
    rcases number? a with _ | x <;> rcases number? b with _ | y <;> simp
    rcases lt_trichotomy x y with hlt | rfl | hlt
    · simp [hlt.ne, hlt.le, hlt]
    · simp
    · simp [hlt.ne', hlt, hlt.le]
  | trueIsStricter =>
    simp only [compareDirection, Stricter, Below, Direction.level]
    rcases flag? a with _ | x <;> rcases flag? b with _ | y <;> simp
    cases x <;> cases y <;> simp
  | falseIsStricter =>
    simp only [compareDirection, Stricter, Below, Direction.level]
    rcases flag? a with _ | x <;> rcases flag? b with _ | y <;> simp
    cases x <;> cases y <;> simp
  | ordered order =>
    simp only [compareDirection, Stricter, Below, Direction.level]
    rcases indexIn order a with _ | i <;> rcases indexIn order b with _ | j <;> simp
    rcases lt_trichotomy i j with hlt | rfl | hlt
    · simp [hlt.ne, hlt]
    · simp
    · simp [hlt.ne', hlt.le]
  | subsetIsStricter =>
    have hne : ¬ sameEntries a b = true := fun hab ↦ h (.inr ⟨rfl, hab⟩)
    rw [sameEntries_iff] at hne
    simp only [compareDirection, Stricter, Below, Direction.level]
    rcases hsa : entriesOf a with _ | s <;> rcases hsb : entriesOf b with _ | t <;> simp
    have hst : t ≠ s := by
      rintro rfl
      exact hne ⟨_, hsa, hsb⟩
    exact ⟨fun hsub ↦ lt_of_le_of_ne hsub hst, fun hlt ↦ hlt.le⟩
  | supersetIsStricter =>
    have hne : ¬ sameEntries a b = true := fun hab ↦ h (.inr ⟨rfl, hab⟩)
    rw [sameEntries_iff] at hne
    simp only [compareDirection, Stricter, Below, Direction.level]
    rcases hsa : entriesOf a with _ | s <;> rcases hsb : entriesOf b with _ | t <;> simp
    have hst : s ≠ t := by
      rintro rfl
      exact hne ⟨_, hsa, hsb⟩
    exact ⟨fun hsub ↦ lt_of_le_of_ne hsub hst, fun hlt ↦ hlt.le⟩
  | opaqueKind => simp [compareDirection, Stricter, Below, Direction.level]

/-- A tightening made the other way is a loosening. -/
theorem compareDirection_reverse (h : ¬ Unchanged direction a b)
    (ht : compareDirection direction a b = .tightening) :
    compareDirection direction b a = .loosening := by
  have hback : compareDirection direction b a ≠ .tightening := by
    rw [Ne, compareDirection_eq_tightening_iff fun k ↦ h k.symm]
    exact ((compareDirection_eq_tightening_iff h).mp ht).asymm
  have hneutral : compareDirection direction b a ≠ .neutral := by
    cases direction with
    | opaqueKind => cases ht
    | _ =>
      simp only [compareDirection]
      repeat' split
      all_goals decide
  cases hd : compareDirection direction b a with
  | loosening => rfl
  | tightening => exact absurd hd hback
  | neutral => exact absurd hd hneutral

/-- The field keeps its value or gets a stricter one. -/
def Climbs (direction : Direction) (a b : Option Value) : Prop :=
  Unchanged direction a b ∨ Stricter direction a b

theorem Climbs.refl (direction : Direction) (a : Option Value) : Climbs direction a a :=
  .inl (.refl direction a)

theorem Climbs.trans (h : Climbs direction a b) (k : Climbs direction b c) :
    Climbs direction a c := by
  rcases h with h | h <;> rcases k with k | k
  · exact .inl (h.trans k)
  · refine .inr ?_
    rw [Stricter, Below, h.level_eq]
    exact k
  · refine .inr ?_
    rw [Stricter, Below, ← k.level_eq]
    exact h
  · exact .inr (Below.trans h k)

end Compare

end QAuth.Policy
