import Mathlib.Algebra.BigOperators.Intervals
import Mathlib.Algebra.Order.BigOperators.Group.Finset

/-!
# Growing waits with a bounded exemption

Tries that each set a wait for those after them, where the wait grows with the number of tries. A
favoured try may be made inside a wait, as long as fewer than `bound` favoured ones were made
before it. Whatever the order and the times of the two kinds, at most `bound` tries skip a wait,
and the skipped waits count for no more than the longest ones of the climb.
-/

namespace Backoff

/-- A try: when it was made, the how many-th it is, and whether it comes from a favoured place. -/
structure Try where
  time : ℕ
  number : ℕ
  favoured : Bool

variable (wait : ℕ → ℕ) (bound : ℕ)

/-- Until when the tries after it wait. -/
def Try.waitEnd (t : Try) : ℕ := t.time + wait t.number

/-- The try is made inside a wait that one before it set. -/
def Inside (before : List Try) (t : Try) : Prop :=
  ∃ b ∈ before, t.time < b.waitEnd wait

instance (before : List Try) (t : Try) : Decidable (Inside wait before t) :=
  inferInstanceAs (Decidable (∃ b ∈ before, _))

/-- The try may skip a wait. -/
def Exempt (before : List Try) (t : Try) : Prop :=
  t.favoured = true ∧ before.countP (·.favoured) < bound

/-- The tries, first to last, were each admitted. -/
inductive Admitted : List Try → Prop
  | nil : Admitted []
  | snoc {before : List Try} {t : Try} (init : Admitted before)
      (order : ∀ b ∈ before, b.time ≤ t.time)
      (free : Exempt bound before t ∨ ¬ Inside wait before t) : Admitted (before ++ [t])

/-- How many of the tries after `before` were made inside a wait. -/
def skipsAfter (before : List Try) : List Try → ℕ
  | [] => 0
  | t :: rest =>
    (if Inside wait before t then 1 else 0) + skipsAfter (before ++ [t]) rest

/-- How many of the tries were made inside a wait. -/
def skips (tries : List Try) : ℕ := skipsAfter wait [] tries

variable {wait bound} {tries before after : List Try} {t first last : Try}

@[simp] theorem skips_nil : skips wait [] = 0 := rfl

theorem skipsAfter_append_singleton :
    skipsAfter wait before (tries ++ [t]) =
      skipsAfter wait before tries + if Inside wait (before ++ tries) t then 1 else 0 := by
  induction tries generalizing before with
  | nil => simp [skipsAfter]
  | cons u tries ih =>
    rw [List.cons_append, skipsAfter, skipsAfter, ih, List.append_assoc, List.singleton_append]
    omega

theorem skips_append_singleton :
    skips wait (tries ++ [t]) = skips wait tries + if Inside wait tries t then 1 else 0 :=
  skipsAfter_append_singleton

namespace Admitted

theorem of_append (h : Admitted wait bound (before ++ after)) : Admitted wait bound before := by
  induction after using List.reverseRecOn with
  | nil => rwa [List.append_nil] at h
  | append_singleton after t ih =>
    rw [← List.append_assoc] at h
    generalize hl : before ++ after ++ [t] = l at h
    cases h with
    | nil => simp at hl
    | snoc init =>
      obtain ⟨rfl, -⟩ := List.append_inj' hl rfl
      exact ih init

/-- The conditions of the last try. -/
theorem of_snoc (h : Admitted wait bound (before ++ [t])) :
    (∀ b ∈ before, b.time ≤ t.time) ∧ (Exempt bound before t ∨ ¬ Inside wait before t) := by
  generalize hl : before ++ [t] = l at h
  cases h with
  | nil => simp at hl
  | snoc _ order free =>
    obtain ⟨rfl, ht⟩ := List.append_inj' hl rfl
    cases ht
    exact ⟨order, free⟩

/-- A try outside the exemption is not inside a wait. -/
theorem not_inside (h : Admitted wait bound (before ++ t :: after))
    (ht : ¬ Exempt bound before t) : ¬ Inside wait before t := by
  rw [← List.singleton_append, ← List.append_assoc] at h
  exact h.of_append.of_snoc.2.resolve_left ht

/-- Each skipped wait uses the exemption of one favoured try. -/
theorem skips_le_countP (h : Admitted wait bound tries) :
    skips wait tries ≤ min (tries.countP (·.favoured)) bound := by
  induction h with
  | nil => simp
  | @snoc before t _ _ free ih =>
    rw [skips_append_singleton, List.countP_append, List.countP_singleton]
    by_cases hin : Inside wait before t
    · obtain ⟨hfavoured, hlt⟩ := free.resolve_right (not_not_intro hin)
      rw [if_pos hin, if_pos hfavoured]
      omega
    · rw [if_neg hin]
      omega

theorem skips_le (h : Admitted wait bound tries) : skips wait tries ≤ bound :=
  h.skips_le_countP.trans (Nat.min_le_right _ _)

/-- The time that a climb takes is at least the sum of its waits, shortest first, but for as many
as it skips. -/
theorem climb_le (hmono : Monotone wait) (hzero : wait 0 = 0) (h : Admitted wait bound tries)
    (hnumber : tries.map (·.number) = List.range' 1 tries.length)
    (hfirst : tries.head? = some first) (hlast : tries.getLast? = some last) :
    first.time + ∑ n ∈ Finset.range (tries.length - skips wait tries), wait n ≤ last.time := by
  induction h generalizing last with
  | nil => cases hfirst
  | @snoc before t init order free ih =>
    rw [List.getLast?_concat] at hlast
    cases hlast
    rw [List.map_append, List.length_append, List.length_singleton,
      List.range'_concat] at hnumber
    obtain ⟨hnumber, hone⟩ := List.append_inj' hnumber rfl
    rcases List.eq_nil_or_concat before with rfl | ⟨front, b, rfl⟩
    · cases hfirst
      simp [skips, skipsAfter, Inside, hzero]
    rw [List.concat_eq_append] at *
    have hhead : (front ++ [b]).head? = some first := by
      rw [List.head?_append] at hfirst
      cases front <;> simpa using hfirst
    have hb : first.time + ∑ n ∈ Finset.range ((front ++ [b]).length - skips wait (front ++ [b])),
        wait n ≤ b.time :=
      ih hnumber hhead List.getLast?_concat
    rw [skips_append_singleton, List.length_append, List.length_singleton]
    by_cases hin : Inside wait (front ++ [b]) t
    · -- The number of waits still to be met does not grow with a try that skips one.
      rw [if_pos hin, Nat.add_sub_add_right]
      exact hb.trans (order b (by simp))
    · rw [if_neg hin, Nat.add_zero (skips wait (front ++ [b]))]
      have hend : b.time + wait b.number ≤ t.time := by
        by_contra hlt
        exact hin ⟨b, by simp, Nat.lt_of_not_le hlt⟩
      have hbn : b.number = (front ++ [b]).length := by
        have := congrArg List.getLast? hnumber
        simpa [List.range'_concat, Nat.add_comm] using this
      have hle : skips wait (front ++ [b]) ≤ (front ++ [b]).length :=
        init.skips_le_countP.trans ((Nat.min_le_left _ _).trans List.countP_le_length)
      rw [show (front ++ [b]).length + 1 - skips wait (front ++ [b]) =
        (front ++ [b]).length - skips wait (front ++ [b]) + 1 by omega, Finset.sum_range_succ]
      have hshort := hmono (show (front ++ [b]).length - skips wait (front ++ [b]) ≤ b.number by
        rw [hbn]
        exact Nat.sub_le _ _)
      omega

end Admitted

end Backoff
