import Mathlib.Data.List.Basic

/-!
# Locks held by concurrent parties

A party of a concurrent system holds keys, each in shared or in exclusive mode. A lock manager lets
a party take a key only when no other party holds it in a conflicting mode, so that no two parties
ever hold conflicting keys. The parties are a list, and what each one holds is read off its state.
-/

namespace Locks

variable {κ τ : Type*}

/-- How a key is held. -/
inductive Mode
  | shared | exclusive
deriving DecidableEq

/-- Both parties may hold their keys: where they hold the same key, both share it. -/
def Compatible (xs ys : List (κ × Mode)) : Prop :=
  ∀ x ∈ xs, ∀ y ∈ ys, x.1 = y.1 → x.2 = .shared ∧ y.2 = .shared

instance [DecidableEq κ] (xs ys : List (κ × Mode)) : Decidable (Compatible xs ys) :=
  inferInstanceAs (Decidable (∀ x ∈ xs, ∀ y ∈ ys, x.1 = y.1 → x.2 = .shared ∧ y.2 = .shared))

section Compatible

variable {xs ys zs : List (κ × Mode)} {k : κ} {m : Mode}

theorem Compatible.symm (h : Compatible xs ys) : Compatible ys xs :=
  fun y hy x hx hk ↦ (h x hx y hy hk.symm).symm

theorem Compatible.mono_left (h : Compatible xs ys) (hsub : ∀ x ∈ zs, x ∈ xs) :
    Compatible zs ys :=
  fun x hx ↦ h x (hsub x hx)

/-- A key held exclusively by one party is not held by the other. -/
theorem Compatible.not_mem (h : Compatible xs ys) (hk : (k, .exclusive) ∈ xs) : (k, m) ∉ ys := by
  intro hm
  obtain ⟨hshared, -⟩ := h _ hk _ hm rfl
  cases hshared

end Compatible

variable (held : τ → List (κ × Mode))

/-- No two parties of the list hold conflicting keys. -/
def Apart (parties : List τ) : Prop :=
  ∀ (i j : ℕ) (a b : τ), i ≠ j → parties[i]? = some a → parties[j]? = some b →
    Compatible (held a) (held b)

/-- The lock manager lets the `i`th party go on as `a`: no other party holds a key that conflicts
with one of its keys. -/
def Grants (parties : List τ) (i : ℕ) (a : τ) : Prop :=
  ∀ b ∈ parties.eraseIdx i, Compatible (held a) (held b)

instance [DecidableEq κ] (parties : List τ) (i : ℕ) (a : τ) :
    Decidable (Grants held parties i a) :=
  inferInstanceAs (Decidable (∀ b ∈ parties.eraseIdx i, Compatible (held a) (held b)))

section Parties

variable {held} {parties : List τ} {i j : ℕ} {a b : τ}

theorem Grants.compatible (h : Grants held parties i a) (hij : i ≠ j)
    (hj : parties[j]? = some b) : Compatible (held a) (held b) :=
  h b (List.mem_eraseIdx_iff_getElem?.mpr ⟨j, hij.symm, hj⟩)

theorem Apart.compatible (h : Apart held parties) (hij : i ≠ j) (hi : parties[i]? = some a)
    (hj : parties[j]? = some b) : Compatible (held a) (held b) :=
  h i j a b hij hi hj

/-- A party of the list after the `i`th has gone on: that one, or another one as it was. -/
theorem getElem?_set_cases (h : (parties.set i a)[j]? = some b) :
    (j = i ∧ b = a) ∨ (j ≠ i ∧ parties[j]? = some b) := by
  rw [List.getElem?_set] at h
  split_ifs at h with hij hlt
  · exact .inl ⟨hij.symm, (Option.some.inj h).symm⟩
  · exact .inr ⟨fun hji ↦ hij hji.symm, h⟩

/-- A party of the list after one has joined: an earlier one, or the new one. -/
theorem getElem?_append_cases (h : (parties ++ [a])[j]? = some b) :
    parties[j]? = some b ∨ (j = parties.length ∧ b = a) := by
  rw [List.getElem?_append] at h
  split_ifs at h with hlt
  · exact .inl h
  · obtain ⟨hlen, hb⟩ := List.getElem?_eq_some_iff.mp h
    simp only [List.length_singleton] at hlen
    exact .inr ⟨by omega, by simpa using hb.symm⟩

/-- A party that gives up keys, or keeps them, is granted what is left. -/
theorem Apart.grants_of_subset (h : Apart held parties) (hi : parties[i]? = some a)
    (hsub : ∀ x ∈ held b, x ∈ held a) : Grants held parties i b := by
  intro c hc
  obtain ⟨j, hij, hj⟩ := List.mem_eraseIdx_iff_getElem?.mp hc
  exact (h.compatible hij.symm hi hj).mono_left hsub

/-- What the lock manager grants keeps the parties apart. -/
theorem Apart.set (h : Apart held parties) (hgrants : Grants held parties i a) :
    Apart held (parties.set i a) := by
  intro j k b c hjk hj hk
  rcases getElem?_set_cases hj with ⟨rfl, rfl⟩ | ⟨hji, hj'⟩ <;>
    rcases getElem?_set_cases hk with ⟨rfl, rfl⟩ | ⟨hki, hk'⟩
  · exact absurd rfl hjk
  · exact hgrants.compatible hjk hk'
  · exact (hgrants.compatible hji.symm hj').symm
  · exact h.compatible hjk hj' hk'

/-- A party that holds nothing yet joins. -/
theorem Apart.append (h : Apart held parties) (ha : held a = []) :
    Apart held (parties ++ [a]) := by
  intro j k b c hjk hj hk
  rcases getElem?_append_cases hj with hj | ⟨-, rfl⟩
  · rcases getElem?_append_cases hk with hk | ⟨-, rfl⟩
    · exact h.compatible hjk hj hk
    · rw [ha]
      exact fun _ _ _ hy ↦ absurd hy List.not_mem_nil
  · rw [ha]
    exact fun _ hx ↦ absurd hx List.not_mem_nil

end Parties

end Locks
