import Mathlib.Data.List.Basic

/-!
# Runs of a labelled transition system

A transition system is given by its executable step: a state and an action have at most one
successor, and `none` says that the action is not enabled. Everything the environment chooses
(the order of the parties, random values, clock readings) is part of the action, so a run is a
list of actions.
-/

namespace Transition

variable {σ α : Type*}

/-- `Run step s as t`: the actions `as`, taken one after the other from `s`, lead to `t`. -/
inductive Run (step : σ → α → Option σ) : σ → List α → σ → Prop
  | nil (s : σ) : Run step s [] s
  | cons {s t u : σ} {a : α} {as : List α} (head : step s a = some t)
      (tail : Run step t as u) : Run step s (a :: as) u

/-- `Along step C s as t`: a run from `s` to `t` whose every step, from a state `s'` by an
action `a`, satisfies `C s' a`. -/
inductive Run.Along (step : σ → α → Option σ) (C : σ → α → Prop) : σ → List α → σ → Prop
  | nil (s : σ) : Along step C s [] s
  | cons {s t u : σ} {a : α} {as : List α} (head : step s a = some t) (admitted : C s a)
      (tail : Along step C t as u) : Along step C s (a :: as) u

/-- The state a list of actions leads to, computed. -/
def exec (step : σ → α → Option σ) : σ → List α → Option σ
  | s, [] => some s
  | s, a :: as => (step s a).bind fun t ↦ exec step t as

variable {step : σ → α → Option σ} {C D : σ → α → Prop} {s t u : σ} {as bs : List α}

namespace Run

theorem of_exec (h : exec step s as = some t) : Run step s as t := by
  induction as generalizing s with
  | nil =>
    cases h
    exact .nil _
  | cons a as ih =>
    obtain ⟨s', head, tail⟩ := Option.bind_eq_some_iff.mp h
    exact .cons head (ih tail)

theorem append (h : Run step s as t) (k : Run step t bs u) : Run step s (as ++ bs) u := by
  induction h with
  | nil => exact k
  | cons head _ ih => exact .cons head (ih k)

/-- What every step keeps, every run keeps. -/
theorem induct {P : σ → Prop} (hP : ∀ s a t, P s → step s a = some t → P t)
    (h : Run step s as t) (hs : P s) : P t := by
  induction h with
  | nil => exact hs
  | cons head _ ih => exact ih (hP _ _ _ hs head)

namespace Along

/-- A run whose actions are all admitted wherever they are taken. -/
theorem of_run (h : Run step s as t) (hC : ∀ a ∈ as, ∀ s, C s a) : Along step C s as t := by
  induction h with
  | nil s => exact .nil s
  | cons head _ ih =>
    exact .cons head (hC _ List.mem_cons_self _) (ih fun a ha ↦ hC a (List.mem_cons_of_mem _ ha))

/-- A run of the step that stops where an action is not admitted. -/
theorem of_exec [∀ s a, Decidable (C s a)]
    (h : exec (fun s a ↦ if C s a then step s a else none) s as = some t) :
    Along step C s as t := by
  induction as generalizing s with
  | nil =>
    cases h
    exact .nil _
  | cons a as ih =>
    obtain ⟨s', head, tail⟩ := Option.bind_eq_some_iff.mp h
    obtain ⟨admitted, head⟩ := Option.ite_none_right_eq_some.mp head
    exact .cons head admitted (ih tail)

theorem toRun (h : Along step C s as t) : Run step s as t := by
  induction h with
  | nil s => exact .nil s
  | cons head _ _ ih => exact .cons head ih

/-- What every admitted step keeps, every admitted run keeps. -/
theorem induct {P : σ → Prop} (hP : ∀ s a t, P s → C s a → step s a = some t → P t)
    (h : Along step C s as t) (hs : P s) : P t := by
  induction h with
  | nil => exact hs
  | cons head admitted _ ih => exact ih (hP _ _ _ hs admitted head)

/-- Where no step increases `μ` and each step by an action marked by `mark` decreases it while it
is positive, a run with at least `μ s` marked actions ends with `μ` at zero. -/
theorem exhausts {P : σ → Prop} {μ : σ → ℕ} {mark : α → Bool}
    (hP : ∀ s a t, P s → C s a → step s a = some t → P t)
    (hle : ∀ s a t, P s → C s a → step s a = some t → μ t ≤ μ s)
    (hlt : ∀ s a t, P s → C s a → step s a = some t → mark a = true → μ t ≤ μ s - 1)
    (h : Along step C s as t) (hs : P s) (hμ : μ s ≤ as.countP mark) : μ t = 0 := by
  have key : μ t ≤ μ s - as.countP mark := by
    clear hμ
    induction h with
    | nil s => simp
    | @cons s t u a as head admitted _ ih =>
      have hle' := hle _ _ _ hs admitted head
      have ih' := ih (hP _ _ _ hs admitted head)
      by_cases hm : mark a = true
      · have hlt' := hlt _ _ _ hs admitted head hm
        rw [List.countP_cons_of_pos hm]
        omega
      · rw [List.countP_cons_of_neg hm]
        omega
  omega

end Along

end Run

/-- A transition system: its initial states and its executable step. -/
structure System (σ α : Type*) where
  initial : σ → Prop
  step : σ → α → Option σ

namespace System

variable (M : System σ α)

/-- A state some run leads to from an initial state. -/
def Reachable (t : σ) : Prop :=
  ∃ s as, M.initial s ∧ Run M.step s as t

/-- A predicate that holds in every initial state and that every step keeps. -/
structure Invariant (I : σ → Prop) : Prop where
  initial : ∀ s, M.initial s → I s
  step : ∀ s a t, I s → M.step s a = some t → I t

variable {M} {I : σ → Prop}

theorem Reachable.run (hs : M.Reachable s) (h : Run M.step s as t) : M.Reachable t := by
  obtain ⟨s₀, bs, h₀, hb⟩ := hs
  exact ⟨s₀, bs ++ as, h₀, hb.append h⟩

theorem Reachable.of_initial (hs : M.initial s) : M.Reachable s :=
  ⟨s, [], hs, .nil s⟩

theorem Invariant.reachable (hI : M.Invariant I) (hs : M.Reachable s) : I s := by
  obtain ⟨s₀, as, h₀, h⟩ := hs
  exact h.induct hI.step (hI.initial s₀ h₀)

end System

end Transition
