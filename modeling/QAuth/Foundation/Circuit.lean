import Mathlib.Algebra.Order.Monoid.Canonical.Defs
import Mathlib.Data.List.Induction

/-!
# Circuit breakers

A circuit counts the failures in a row of what it guards. The failure that reaches a threshold
opens it for a window, and so does each one after it. An open circuit refuses every request until
the window is over; the request it then admits is a probe, and opens it for another window. A
success closes it. Times are those of any ordered cancellative monoid.

A request carries two readings of the clock, one for the test and a later one from which a probe's
window is counted.
-/

/-- The failures in a row, and the end of the window while the circuit is open. -/
structure Circuit (τ : Type) where
  failures : ℕ
  openUntil : Option τ

namespace Circuit

variable {τ : Type}

/-- What happens at a circuit. -/
inductive Event (τ : Type)
  | ask (first second : τ)
  | success
  | failure (time : τ)

/-- The readings of the clock that an event carries. -/
def Event.readings : Event τ → List τ
  | .ask first second => [first, second]
  | .success => []
  | .failure time => [time]

/-- The circuit before anything happened. -/
def fresh : Circuit τ := ⟨0, none⟩

/-- The failures since the last success. -/
def failuresInARow (es : List (Event τ)) : ℕ :=
  es.foldl (fun n e ↦ match e with
    | .ask _ _ => n
    | .success => 0
    | .failure _ => n + 1) 0

variable [LinearOrder τ] [Add τ]

/-- What a circuit answers to a request, and what it is after an event. -/
def step (threshold : ℕ) (window : τ) (c : Circuit τ) : Event τ → Option Bool × Circuit τ
  | .ask first second =>
    match c.openUntil with
    | none => (some true, c)
    | some t =>
      if first < t then (some false, c)
      else (some true, { c with openUntil := some (second + window) })
  | .success => (none, fresh)
  | .failure time =>
    (none, ⟨c.failures + 1,
      if threshold ≤ c.failures + 1 then some (time + window) else c.openUntil⟩)

def after (threshold : ℕ) (window : τ) (c : Circuit τ) (es : List (Event τ)) : Circuit τ :=
  es.foldl (fun c e ↦ (step threshold window c e).2) c

variable {threshold : ℕ} {window t : τ} {c : Circuit τ} {e : Event τ} {es fs : List (Event τ)}

theorem after_append :
    after threshold window c (es ++ fs) = after threshold window (after threshold window c es) fs :=
  List.foldl_append

theorem after_cons :
    after threshold window c (e :: es) = after threshold window (step threshold window c e).2 es :=
  rfl

/-- A circuit counts the failures since the last success. -/
theorem failures_after : (after threshold window fresh es).failures = failuresInARow es := by
  induction es using List.reverseRecOn with
  | nil => rfl
  | append_singleton es e ih =>
    rw [after_append, failuresInARow, List.foldl_append]
    change (step threshold window (after threshold window fresh es) e).2.failures = _
    rw [failuresInARow] at ih
    cases e with
    | ask first second =>
      rw [step]
      cases (after threshold window fresh es).openUntil with
      | none => exact ih
      | some t =>
        dsimp only
        split
        · exact ih
        · exact ih
    | success => rfl
    | failure time => exact congrArg (· + 1) ih

/-- A circuit is open just when the failures in a row reach the threshold. -/
theorem isSome_openUntil_iff (hpos : 0 < threshold) :
    (after threshold window fresh es).openUntil.isSome ↔ threshold ≤ failuresInARow es := by
  induction es using List.reverseRecOn with
  | nil =>
    change (none : Option τ).isSome ↔ threshold ≤ 0
    simp [Nat.not_le.mpr hpos]
  | append_singleton es e ih =>
    have hcount : (after threshold window fresh es).failures = failuresInARow es := failures_after
    rw [after_append, failuresInARow, List.foldl_append]
    change (step threshold window (after threshold window fresh es) e).2.openUntil.isSome ↔ _
    rw [failuresInARow] at ih hcount
    cases e with
    | ask first second =>
      rw [step]
      cases hopen : (after threshold window fresh es).openUntil with
      | none =>
        rw [hopen] at ih
        simpa [hopen] using ih
      | some t =>
        rw [hopen] at ih
        dsimp only
        split
        · simpa [hopen] using ih
        · simpa using ih
    | success =>
      change (none : Option τ).isSome ↔ threshold ≤ 0
      simp [Nat.not_le.mpr hpos]
    | failure time =>
      change (if threshold ≤ _ + 1 then some (time + window) else _).isSome ↔ threshold ≤ _ + 1
      rw [hcount]
      split
      · rename_i hreached
        simpa using hreached
      · rename_i hreached
        rw [ih]
        omega

/-- The circuit is open, and no request is admitted before `t`. -/
def Holds (t : τ) (c : Circuit τ) : Prop := ∃ u, c.openUntil = some u ∧ t ≤ u

/-- A request that is admitted is no earlier than the end of the window. -/
theorem Holds.le_of_admitted {first second : τ} (h : c.Holds t)
    (hadmitted : (step threshold window c (.ask first second)).1 = some true) : t ≤ first := by
  obtain ⟨u, hu, htu⟩ := h
  rw [step, hu] at hadmitted
  dsimp only at hadmitted
  split at hadmitted
  · cases hadmitted
  · rename_i hlt
    exact htu.trans (not_lt.mp hlt)

/-- A request that is admitted at an open circuit opens it for another window. -/
theorem holds_of_admitted {first second : τ} (hopen : c.openUntil.isSome)
    (hadmitted : (step threshold window c (.ask first second)).1 = some true) :
    (step threshold window c (.ask first second)).2.openUntil = some (second + window) := by
  obtain ⟨u, hu⟩ := Option.isSome_iff_exists.mp hopen
  rw [step, hu] at hadmitted ⊢
  dsimp only at hadmitted ⊢
  split at hadmitted
  · cases hadmitted
  · rename_i hlt
    rw [if_neg hlt]

/-- Without a success, and with a clock that does not run back, a window ends no earlier. -/
theorem Holds.step [AddRightMono τ] (h : c.Holds (t + window)) (hlater : ∀ r ∈ e.readings, t ≤ r)
    (hsuccess : e ≠ .success) : (step threshold window c e).2.Holds (t + window) := by
  obtain ⟨u, hu, htu⟩ := h
  cases e with
  | ask first second =>
    rw [Circuit.step, hu]
    dsimp only
    split
    · exact ⟨u, hu, htu⟩
    · exact ⟨_, rfl, add_le_add_left (hlater second (by simp [Event.readings])) window⟩
  | success => exact absurd rfl hsuccess
  | failure time =>
    have hle : t + window ≤ time + window :=
      add_le_add_left (hlater time (by simp [Event.readings])) window
    by_cases hreached : threshold ≤ c.failures + 1
    · exact ⟨_, by rw [Circuit.step, if_pos hreached], hle⟩
    · exact ⟨u, by rw [Circuit.step, if_neg hreached, hu], htu⟩

theorem Holds.after [AddRightMono τ] (h : c.Holds (t + window))
    (hlater : ∀ e ∈ es, ∀ r ∈ e.readings, t ≤ r) (hsuccess : ∀ e ∈ es, e ≠ .success) :
    (after threshold window c es).Holds (t + window) := by
  induction es generalizing c with
  | nil => exact h
  | cons e es ih =>
    rw [after_cons]
    refine ih ?_ (fun f hf ↦ hlater f (List.mem_cons_of_mem _ hf))
      fun f hf ↦ hsuccess f (List.mem_cons_of_mem _ hf)
    exact h.step (hlater e List.mem_cons_self) (hsuccess e List.mem_cons_self)

/-- A request that is refused leaves the circuit as it is. -/
theorem step_of_refused {first second : τ}
    (h : (step threshold window c (.ask first second)).1 ≠ some true) :
    (step threshold window c (.ask first second)).2 = c := by
  rw [step] at h ⊢
  cases hopen : c.openUntil with
  | none => exact absurd (by rw [hopen]) h
  | some u =>
    rw [hopen] at h
    dsimp only at h ⊢
    by_cases hlt : first < u
    · rw [if_pos hlt]
    · rw [if_neg hlt] at h
      exact absurd rfl h

/-- From the end of its window on, an open circuit admits the next request. -/
theorem admitted_of_le {first second : τ} (h : ∀ u, c.openUntil = some u → u ≤ first) :
    (step threshold window c (.ask first second)).1 = some true := by
  rw [step]
  cases hopen : c.openUntil with
  | none => rfl
  | some u =>
    dsimp only
    rw [if_neg (not_lt.mpr (h u hopen))]

end Circuit
