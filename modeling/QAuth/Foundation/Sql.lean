import Mathlib.Algebra.Order.Ring.Int
import Mathlib.Data.Int.Order.Basic

/-!
# Conditions of a database statement

A condition of SQL is true, false or unknown: a comparison with a null is unknown, and `and`, `or` and
`not` are Kleene's. Arithmetic is on 64-bit integers, and a result out of their range is an error of
the statement. Since a database may evaluate the parts of a condition in any order, or not at all, a
condition is evaluated here with all of its parts: where that is no error, none of them is.
-/

namespace Sql

/-- True, false or unknown. -/
abbrev Tri := Option Bool

namespace Tri

def and : Tri → Tri → Tri
  | some false, _ | _, some false => some false
  | some true, some true => some true
  | _, _ => none

def or : Tri → Tri → Tri
  | some true, _ | _, some true => some true
  | some false, some false => some false
  | _, _ => none

def not (t : Tri) : Tri := t.map (! ·)

@[simp] theorem and_some (a b : Bool) : and (some a) (some b) = some (a && b) := by
  cases a <;> cases b <;> rfl

@[simp] theorem or_some (a b : Bool) : or (some a) (some b) = some (a || b) := by
  cases a <;> cases b <;> rfl

/-- What is true needs no second condition. -/
@[simp] theorem true_or (t : Tri) : or (some true) t = some true := by
  rcases t with _ | _ | _ <;> rfl

end Tri

/-- An integer out of range. -/
inductive Error
  | outOfRange

/-- An integer expression: its value, or a null. -/
abbrev BigInt := Except Error (Option ℤ)

/-- A condition. -/
abbrev Cond := Except Error Tri

/-- Whether an integer has 64 bits. -/
def InRange (n : ℤ) : Prop := -2 ^ 63 ≤ n ∧ n < 2 ^ 63

instance (n : ℤ) : Decidable (InRange n) := inferInstanceAs (Decidable (_ ∧ _))

/-- The value of an arithmetic operator. -/
def bigint (n : ℤ) : BigInt := if InRange n then .ok (some n) else .error .outOfRange

/-- An operator that is strict in errors and in nulls. -/
def lift (f : ℤ → ℤ → ℤ) (x y : BigInt) : BigInt := do
  match ← x, ← y with
  | some a, some b => bigint (f a b)
  | _, _ => pure none

def add : BigInt → BigInt → BigInt := lift (· + ·)

def mul : BigInt → BigInt → BigInt := lift (· * ·)

/-- The least of two values that are not null. -/
def least (x y : BigInt) : BigInt := do
  match ← x, ← y with
  | some a, some b => pure (some (min a b))
  | some a, none | none, some a => pure (some a)
  | none, none => pure none

/-- The first of two values that is not null. -/
def coalesce (x y : BigInt) : BigInt := do return (← x).or (← y)

/-- A comparison, unknown where a side is null. -/
def compare (f : ℤ → ℤ → Bool) (x y : BigInt) : Cond := do
  match ← x, ← y with
  | some a, some b => pure (some (f a b))
  | _, _ => pure none

def gt : BigInt → BigInt → Cond := compare fun a b ↦ b < a

def lt : BigInt → BigInt → Cond := compare fun a b ↦ a < b

def le : BigInt → BigInt → Cond := compare fun a b ↦ a ≤ b

def isNull (x : BigInt) : Cond := do return some (← x).isNone

def isNotNull (x : BigInt) : Cond := do return some (← x).isSome

def and (s t : Cond) : Cond := do return Tri.and (← s) (← t)

def or (s t : Cond) : Cond := do return Tri.or (← s) (← t)

def not (t : Cond) : Cond := do return Tri.not (← t)

/-- A column that may be null. -/
def column (value : Option ℤ) : BigInt := .ok value

/-- A column that is never null, or a parameter. -/
def value (n : ℤ) : BigInt := .ok (some n)

/-- `case when t then a else b end`: a condition that is unknown is not met. -/
def caseWhen {α : Type} (t : Cond) (a b : α) : Except Error α := do
  return if (← t) = some true then a else b

/-- A truth value of a column. -/
def bool (b : Bool) : Cond := .ok (some b)

/-- The rows that a statement makes of those of a table; an error of one is one of the statement. -/
def collect {ρ σ : Type} (f : ρ → Except Error (Option σ)) : List ρ → Except Error (List σ)
  | [] => pure []
  | r :: t => do
    let row ← f r
    let rows ← collect f t
    return row.toList ++ rows

section Rules

variable {a b : ℤ} {p q : Bool}

@[simp] theorem column_some : column (some a) = value a := rfl

theorem add_eq (h : InRange (a + b)) : add (value a) (value b) = value (a + b) := if_pos h

theorem mul_eq (h : InRange (a * b)) : mul (value a) (value b) = value (a * b) := if_pos h

@[simp] theorem least_eq : least (value a) (value b) = value (min a b) := rfl

@[simp] theorem gt_eq : gt (value a) (value b) = bool (decide (b < a)) := rfl

@[simp] theorem lt_eq : lt (value a) (value b) = bool (decide (a < b)) := rfl

@[simp] theorem le_eq : le (value a) (value b) = bool (decide (a ≤ b)) := rfl

@[simp] theorem coalesce_value : coalesce (value a) (value b) = value a := rfl

@[simp] theorem coalesce_none : coalesce (column none) (value a) = value a := rfl

@[simp] theorem isNotNull_value : isNotNull (value a) = bool true := rfl

@[simp] theorem isNotNull_none : isNotNull (column none) = bool false := rfl

@[simp] theorem isNull_value : isNull (value a) = bool false := rfl

@[simp] theorem isNull_none : isNull (column none) = bool true := rfl

@[simp] theorem and_eq : and (bool p) (bool q) = bool (p && q) :=
  congrArg Except.ok (Tri.and_some p q)

@[simp] theorem or_eq : or (bool p) (bool q) = bool (p || q) :=
  congrArg Except.ok (Tri.or_some p q)

@[simp] theorem not_eq : not (bool p) = bool (!p) := rfl

@[simp] theorem and_false {t : Tri} : and (bool false) (.ok t) = bool false := by
  rcases t with _ | _ | _ <;> rfl

/-- A condition that is true beside any that is no error. -/
theorem true_or {t : Tri} : or (bool true) (.ok t) = bool true :=
  congrArg Except.ok (Tri.true_or t)

/-- A statement none of whose rows is an error. -/
theorem collect_eq {ρ σ : Type} {f : ρ → Except Error (Option σ)} {g : ρ → Option σ} {t : List ρ}
    (h : ∀ r ∈ t, f r = .ok (g r)) : collect f t = .ok (t.filterMap g) := by
  induction t with
  | nil => rfl
  | cons r t ih =>
    have hrest : collect f t = .ok (t.filterMap g) := ih fun x hx ↦ h x (List.mem_cons_of_mem _ hx)
    rw [collect, h r List.mem_cons_self, hrest, List.filterMap_cons]
    cases g r <;> rfl

end Rules

end Sql
