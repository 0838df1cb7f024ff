import Mathlib.Data.List.Sort
import Mathlib.Data.String.Basic

/-!
# JSON values

JSON values over any type of numbers, an object being the list of its members in the order in which
they were defined.
-/

namespace QAuth.Json

variable {ν : Type}

/-- A JSON value with numbers in `ν`. -/
inductive Value (ν : Type)
  | null
  | bool (b : Bool)
  | num (x : ν)
  | str (s : String)
  | arr (items : List (Value ν))
  | obj (members : List (String × Value ν))

namespace Value

/-! ### Equality -/

section Equality

variable [DecidableEq ν]

mutual

/-- Whether two values are written alike. -/
def beq : Value ν → Value ν → Bool
  | .null, .null => true
  | .bool a, .bool b => a == b
  | .num x, .num y => decide (x = y)
  | .str s, .str t => s == t
  | .arr as, .arr bs => beqItems as bs
  | .obj as, .obj bs => beqMembers as bs
  | _, _ => false

/-- `beq` on the items of arrays. -/
def beqItems : List (Value ν) → List (Value ν) → Bool
  | [], [] => true
  | a :: as, b :: bs => beq a b && beqItems as bs
  | _, _ => false

/-- `beq` on the members of objects. -/
def beqMembers : List (String × Value ν) → List (String × Value ν) → Bool
  | [], [] => true
  | (m, a) :: as, (n, b) :: bs => m == n && beq a b && beqMembers as bs
  | _, _ => false

end

mutual

theorem beq_iff : ∀ {a b : Value ν}, beq a b = true ↔ a = b
  | .null, b => by cases b <;> simp [beq]
  | .bool _, b => by cases b <;> simp [beq]
  | .num _, b => by cases b <;> simp [beq]
  | .str _, b => by cases b <;> simp [beq]
  | .arr as, b => by cases b <;> simp [beq, @beqItems_iff as]
  | .obj as, b => by cases b <;> simp [beq, @beqMembers_iff as]

theorem beqItems_iff : ∀ {as bs : List (Value ν)}, beqItems as bs = true ↔ as = bs
  | [], bs => by cases bs <;> simp [beqItems]
  | a :: as, bs => by
    cases bs <;> simp [beqItems, beq_iff (a := a), @beqItems_iff as]

theorem beqMembers_iff : ∀ {as bs : List (String × Value ν)}, beqMembers as bs = true ↔ as = bs
  | [], bs => by cases bs <;> simp [beqMembers]
  | (m, a) :: as, [] => by simp [beqMembers]
  | (m, a) :: as, (n, b) :: bs => by
    simp [beqMembers, beq_iff (a := a), @beqMembers_iff as]

end

instance : DecidableEq (Value ν) := fun _ _ ↦ decidable_of_iff _ beq_iff

end Equality

/-! ### Members -/

/-- The value of a member of an object, where the value is an object that has it. -/
def member? : Value ν → String → Option (Value ν)
  | .obj members, name => members.lookup name
  | _, _ => none

def at? : Value ν → List String → Option (Value ν)
  | v, [] => some v
  | v, name :: rest => (v.member? name).bind (at? · rest)

@[simp] theorem at?_nil (v : Value ν) : v.at? [] = some v := by
  cases v <;> rfl

theorem at?_cons (v : Value ν) (name : String) (rest : List String) :
    v.at? (name :: rest) = (v.member? name).bind (at? · rest) := by
  cases v <;> rfl

/-! ### The order of members -/

/-- The members in the order of their names. -/
def sortMembers (members : List (String × Value ν)) : List (String × Value ν) :=
  members.insertionSort (fun m n ↦ m.1 ≤ n.1)

mutual

/-- The value with the members of every object in the order of their names. -/
def sorted : Value ν → Value ν
  | .arr items => .arr (sortedItems items)
  | .obj members => .obj (sortMembers (sortedMembers members))
  | v => v

/-- `sorted` on the items of an array. -/
def sortedItems : List (Value ν) → List (Value ν)
  | [] => []
  | v :: vs => v.sorted :: sortedItems vs

/-- `sorted` on the members of an object, each where it stands. -/
def sortedMembers : List (String × Value ν) → List (String × Value ν)
  | [] => []
  | (name, v) :: rest => (name, v.sorted) :: sortedMembers rest

end

/-- The same value, whatever the order of the members of its objects. -/
def Same (v w : Value ν) : Prop := v.sorted = w.sorted

instance [DecidableEq ν] (v w : Value ν) : Decidable (Same v w) :=
  inferInstanceAs (Decidable (v.sorted = w.sorted))

/-! ### The names of members -/

mutual

/-- No object in the value has two members of one name. -/
def WellNamed : Value ν → Prop
  | .arr items => WellNamedItems items
  | .obj members => (members.map Prod.fst).Nodup ∧ WellNamedMembers members
  | _ => True

/-- `WellNamed` of every item of an array. -/
def WellNamedItems : List (Value ν) → Prop
  | [] => True
  | v :: vs => v.WellNamed ∧ WellNamedItems vs

/-- `WellNamed` of every member of an object. -/
def WellNamedMembers : List (String × Value ν) → Prop
  | [] => True
  | (_, v) :: rest => v.WellNamed ∧ WellNamedMembers rest

end

@[simp] theorem wellNamed_arr {items : List (Value ν)} :
    WellNamed (.arr items) ↔ ∀ v ∈ items, v.WellNamed := by
  rw [WellNamed]
  induction items with
  | nil => simp [WellNamedItems]
  | cons v vs ih => simp [WellNamedItems, ih]

@[simp] theorem wellNamed_obj {members : List (String × Value ν)} :
    WellNamed (.obj members) ↔
      (members.map Prod.fst).Nodup ∧ ∀ m ∈ members, m.2.WellNamed := by
  rw [WellNamed]
  have hmembers : WellNamedMembers members ↔ ∀ m ∈ members, m.2.WellNamed := by
    induction members with
    | nil => simp [WellNamedMembers]
    | cons m rest ih =>
      obtain ⟨name, v⟩ := m
      simp [WellNamedMembers, ih]
  rw [hmembers]

end Value

/-- The value of a member is found under its name, where names do not repeat. -/
theorem lookup_eq_some_of_mem {β : Type*} {members : List (String × β)}
    (hnodup : (members.map Prod.fst).Nodup) {name : String} {v : β}
    (h : (name, v) ∈ members) : members.lookup name = some v := by
  induction members with
  | nil => simp at h
  | cons m rest ih =>
    obtain ⟨n, w⟩ := m
    rw [List.map_cons, List.nodup_cons] at hnodup
    rcases List.mem_cons.mp h with heq | hmem
    · cases heq
      simp
    · have hne : name ≠ n := by
        rintro rfl
        exact hnodup.1 (List.mem_map.mpr ⟨_, hmem, rfl⟩)
      rw [List.lookup_cons, beq_false_of_ne hne]
      exact ih hnodup.2 hmem

/-- A member is where its value is found. -/
theorem mem_of_lookup_eq_some {β : Type*} {members : List (String × β)} {name : String} {v : β}
    (h : members.lookup name = some v) : (name, v) ∈ members := by
  induction members with
  | nil => simp at h
  | cons m rest ih =>
    obtain ⟨n, w⟩ := m
    rw [List.lookup_cons] at h
    by_cases hn : name = n
    · subst hn
      simp_all
    · rw [beq_false_of_ne hn] at h
      exact List.mem_cons_of_mem _ (ih h)

end QAuth.Json
