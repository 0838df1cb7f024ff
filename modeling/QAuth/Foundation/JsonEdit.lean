import Mathlib.Data.List.Infix
import QAuth.Foundation.Json

/-!
# Edits of JSON objects

An object is edited as a program edits a plain one: a member is set in its place or added at the end,
a value is set at a path, with objects made on the way to it, and one object is merged into another.
What an edit leaves at the other paths is said by paths of which none leads through the other.
-/

namespace QAuth.Json

variable {ν : Type}

/-! ### Members -/

/-- `object[name] = value` -/
def setMember (members : List (String × Value ν)) (name : String) (value : Value ν) :
    List (String × Value ν) :=
  match members with
  | [] => [(name, value)]
  | (n, w) :: rest =>
    if n = name then (n, value) :: rest else (n, w) :: setMember rest name value

/-- The members of an object; nothing else has any. -/
def membersOf : Option (Value ν) → List (String × Value ν)
  | some (.obj members) => members
  | _ => []

variable {members target extra : List (String × Value ν)} {name other : String} {v : Value ν}
  {p q : List String}

@[simp] theorem lookup_setMember_self : (setMember members name v).lookup name = some v := by
  induction members with
  | nil => simp [setMember]
  | cons m rest ih =>
    obtain ⟨n, w⟩ := m
    rw [setMember]
    by_cases h : n = name
    · simp [h]
    · rw [if_neg h, List.lookup_cons, beq_false_of_ne (Ne.symm h)]
      exact ih

theorem lookup_setMember_ne (h : other ≠ name) :
    (setMember members name v).lookup other = members.lookup other := by
  have hbeq : (other == name) = false := beq_false_of_ne h
  induction members with
  | nil => rw [setMember, List.lookup_cons, hbeq]
  | cons m rest ih =>
    obtain ⟨n, w⟩ := m
    rw [setMember]
    by_cases hn : n = name
    · subst hn
      rw [if_pos rfl, List.lookup_cons, List.lookup_cons, hbeq]
    · rw [if_neg hn, List.lookup_cons, List.lookup_cons, ih]

theorem mem_setMember {m : String × Value ν} (h : m ∈ setMember members name v) :
    m = (name, v) ∨ m ∈ members := by
  induction members with
  | nil => exact .inl (by simpa [setMember] using h)
  | cons n rest ih =>
    obtain ⟨n, w⟩ := n
    rw [setMember] at h
    split_ifs at h with hn
    · subst hn
      obtain rfl | h := List.mem_cons.mp h
      · exact .inl rfl
      · exact .inr (List.mem_cons_of_mem _ h)
    · obtain rfl | h := List.mem_cons.mp h
      · exact .inr List.mem_cons_self
      · exact (ih h).imp_right (List.mem_cons_of_mem _)

/-! ### Paths -/

/-- The object with a value at a path, and an object made of what is none on the way. -/
def setAt (members : List (String × Value ν)) : List String → Value ν → List (String × Value ν)
  | [], _ => members
  | [name], v => setMember members name v
  | name :: rest, v =>
    setMember members name (.obj (setAt (membersOf (members.lookup name)) rest v))

/-- The object without the value at a path. -/
def removeAt (members : List (String × Value ν)) : List String → List (String × Value ν)
  | [] => members
  | [name] => members.filter (·.1 ≠ name)
  | name :: rest =>
    match members.lookup name with
    | some (.obj inner) => setMember members name (.obj (removeAt inner rest))
    | _ => members

/-- Neither of two paths leads to the other. -/
def Apart (p q : List String) : Prop := ¬ p <+: q ∧ ¬ q <+: p

theorem setAt_cons {rest : List String} (h : rest ≠ []) :
    setAt members (name :: rest) v =
      setMember members name (.obj (setAt (membersOf (members.lookup name)) rest v)) := by
  cases rest with
  | nil => exact absurd rfl h
  | cons n ns => rfl

/-- The members of an object are where its own path leads on. -/
theorem at?_obj_cons (rest : List String) :
    (Value.obj members).at? (name :: rest) = (members.lookup name).bind (Value.at? · rest) := rfl

theorem at?_membersOf {found : Option (Value ν)} (h : q ≠ []) :
    (Value.obj (membersOf found)).at? q = found.bind (Value.at? · q) := by
  obtain ⟨n, rest, rfl⟩ := List.exists_cons_of_ne_nil h
  cases found with
  | none => rfl
  | some w => cases w <;> rfl

theorem at?_setAt_self (h : p ≠ []) : (Value.obj (setAt members p v)).at? p = some v := by
  induction p generalizing members with
  | nil => exact absurd rfl h
  | cons name rest ih =>
    by_cases hrest : rest = []
    · subst hrest
      simp [setAt, at?_obj_cons]
    · rw [setAt_cons hrest, at?_obj_cons, lookup_setMember_self, Option.bind_some]
      exact ih hrest

theorem at?_setAt_of_apart (h : Apart p q) :
    (Value.obj (setAt members p v)).at? q = (Value.obj members).at? q := by
  obtain ⟨hpq, hqp⟩ := h
  induction p generalizing members q with
  | nil => exact absurd List.nil_prefix hpq
  | cons name rest ih =>
    cases q with
    | nil => exact absurd List.nil_prefix hqp
    | cons other tail =>
      by_cases hrest : rest = []
      · subst hrest
        have hne : other ≠ name := by
          rintro rfl
          exact hpq (List.prefix_cons_inj _ |>.mpr List.nil_prefix)
        rw [setAt, at?_obj_cons, at?_obj_cons, lookup_setMember_ne hne]
      · rw [setAt_cons hrest, at?_obj_cons, at?_obj_cons]
        by_cases hname : other = name
        · subst hname
          rw [List.prefix_cons_inj] at hpq hqp
          have htail : tail ≠ [] := by
            rintro rfl
            exact hqp List.nil_prefix
          rw [lookup_setMember_self, Option.bind_some, ih hpq hqp, at?_membersOf htail]
        · rw [lookup_setMember_ne hname]

/-! ### Merging -/

mutual

/-- The members of an object merged into another, one after the other. -/
def mergeMembers (target : List (String × Value ν)) :
    List (String × Value ν) → List (String × Value ν)
  | [] => target
  | (name, value) :: rest =>
    mergeMembers (setMember target name (mergeValue (target.lookup name) value)) rest

/-- A value merged into what its name holds: two objects are merged, and else it takes its place. -/
def mergeValue (existing : Option (Value ν)) : Value ν → Value ν
  | .obj inner =>
    match existing with
    | some (.obj members) => .obj (mergeMembers members inner)
    | _ => .obj inner
  | v => v

end

/-- The object sets nothing on the way to a path, nor at the path itself. -/
def Avoids : List String → List (String × Value ν) → Prop
  | [], _ => False
  | name :: rest, members => ∀ v, (name, v) ∈ members → ∃ inner, v = .obj inner ∧ Avoids rest inner

@[simp] theorem avoids_cons_iff {rest : List String} :
    Avoids (name :: rest) members ↔
      ∀ v, (name, v) ∈ members → ∃ inner, v = .obj inner ∧ Avoids rest inner := Iff.rfl

theorem Avoids.empty (h : p ≠ []) : Avoids p ([] : List (String × Value ν)) := by
  obtain ⟨name, rest, rfl⟩ := List.exists_cons_of_ne_nil h
  simp

theorem Avoids.at?_eq_none (h : Avoids p members) : (Value.obj members).at? p = none := by
  induction p generalizing members with
  | nil => exact absurd h id
  | cons name rest ih =>
    rw [at?_obj_cons]
    cases hlookup : members.lookup name with
    | none => rfl
    | some v =>
      obtain ⟨inner, rfl, hinner⟩ := h v (mem_of_lookup_eq_some hlookup)
      exact ih hinner

theorem Avoids.setAt (h : Avoids q members) (hp : Apart p q) : Avoids q (setAt members p v) := by
  obtain ⟨hpq, hqp⟩ := hp
  induction p generalizing members q with
  | nil => exact absurd List.nil_prefix hpq
  | cons name rest ih =>
    cases q with
    | nil => exact absurd List.nil_prefix hqp
    | cons other tail =>
      rintro w hw
      by_cases hrest : rest = []
      · subst hrest
        obtain heq | hmem := mem_setMember hw
        · obtain rfl : other = name := congrArg Prod.fst heq
          exact absurd (List.prefix_cons_inj _ |>.mpr List.nil_prefix) hpq
        · exact h w hmem
      · rw [setAt_cons hrest] at hw
        obtain heq | hmem := mem_setMember hw
        · obtain rfl : other = name := congrArg Prod.fst heq
          rw [List.prefix_cons_inj] at hpq hqp
          obtain rfl := congrArg Prod.snd heq
          refine ⟨_, rfl, ih ?_ hpq hqp⟩
          -- what the name holds avoids the rest of the path, and so does no object at all
          cases hlookup : members.lookup other with
          | none => exact Avoids.empty fun ht ↦ hqp (ht ▸ List.nil_prefix)
          | some u =>
            obtain ⟨inner, rfl, hinner⟩ := h u (mem_of_lookup_eq_some hlookup)
            exact hinner
        · exact h w hmem

/-- What avoids a path, merged in, leaves what the path holds. -/
theorem at?_mergeMembers (h : Avoids p extra) :
    (Value.obj (mergeMembers target extra)).at? p = (Value.obj target).at? p := by
  induction p generalizing target extra with
  | nil => exact absurd h id
  | cons name rest ih =>
    induction extra generalizing target with
    | nil => rfl
    | cons m extra iht =>
      obtain ⟨n, v⟩ := m
      rw [mergeMembers, iht fun w hw ↦ h w (List.mem_cons_of_mem _ hw), at?_obj_cons, at?_obj_cons]
      by_cases hn : name = n
      · subst hn
        obtain ⟨inner, rfl, hinner⟩ := h v List.mem_cons_self
        rw [lookup_setMember_self, Option.bind_some]
        have hrest : rest ≠ [] := by
          rintro rfl
          exact hinner
        -- what is no object holds nothing further down
        obtain ⟨r, rs, rfl⟩ := List.exists_cons_of_ne_nil hrest
        cases hlookup : target.lookup name with
        | none => exact hinner.at?_eq_none
        | some w =>
          cases w with
          | obj members =>
            rw [mergeValue, Option.bind_some, ih hinner]
          | _ => exact hinner.at?_eq_none
      · rw [lookup_setMember_ne hn]

/-! ### Deep equality -/

section DeepEqual

variable [DecidableEq ν]

mutual

/-- Whether two values are alike: their objects have the same members, in any order. -/
def deepEqual : Value ν → Value ν → Bool
  | .null, .null => true
  | .bool a, .bool b => a == b
  | .num x, .num y => decide (x = y)
  | .str s, .str t => s == t
  | .arr as, .arr bs => deepEqualItems as bs
  | .obj as, .obj bs => as.length == bs.length && deepEqualMembers bs as
  | _, _ => false

/-- `deepEqual` on the items of arrays. -/
def deepEqualItems : List (Value ν) → List (Value ν) → Bool
  | [], [] => true
  | a :: as, b :: bs => deepEqual a b && deepEqualItems as bs
  | _, _ => false

/-- The members of an object are alike to those of their names in another. -/
def deepEqualMembers (others : List (String × Value ν)) : List (String × Value ν) → Bool
  | [] => true
  | (name, v) :: rest =>
    (match others.lookup name with
      | some w => deepEqual v w
      | none => false) && deepEqualMembers others rest

end

theorem exists_lookup_of_deepEqualMembers {others : List (String × Value ν)}
    (h : deepEqualMembers others members = true) (hm : (name, v) ∈ members) :
    ∃ w, others.lookup name = some w ∧ deepEqual v w = true := by
  induction members with
  | nil => cases hm
  | cons m rest ih =>
    rw [deepEqualMembers, Bool.and_eq_true] at h
    obtain rfl | hm := List.mem_cons.mp hm
    · cases hlookup : others.lookup name with
      | none => simp [hlookup] at h
      | some w => exact ⟨w, rfl, by simpa [hlookup] using h.1⟩
    · exact ih h.2 hm

/-- Values that are alike hold values that are alike at every path. -/
theorem exists_at?_of_deepEqual {w x : Value ν} (h : deepEqual v w = true)
    (hx : v.at? p = some x) : ∃ y, w.at? p = some y ∧ deepEqual x y = true := by
  induction p generalizing v w with
  | nil =>
    obtain rfl : v = x := by simpa using hx
    exact ⟨w, by simp, h⟩
  | cons n rest ih =>
    rw [Value.at?_cons] at hx
    obtain ⟨u, hu, hux⟩ := Option.bind_eq_some_iff.mp hx
    cases v with
    | obj as =>
      cases w with
      | obj bs =>
        rw [deepEqual, Bool.and_eq_true] at h
        obtain ⟨y, hy, huy⟩ := exists_lookup_of_deepEqualMembers h.2 (mem_of_lookup_eq_some hu)
        obtain ⟨z, hz, hxz⟩ := ih huy hux
        exact ⟨z, by rw [at?_obj_cons, hy, Option.bind_some, hz], hxz⟩
      | _ => simp [deepEqual] at h
    | _ => cases hu

end DeepEqual

end QAuth.Json
