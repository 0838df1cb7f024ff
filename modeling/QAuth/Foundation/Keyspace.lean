import Mathlib.Data.Option.Basic
import Mathlib.Data.Nat.Basic

/-!
# Keys that expire

A key of a store that keeps a value for a time: the value is there until its time is over, and a
write replaces both. Whether a key was written once and ran out or was never written makes no
difference to a reader.
-/

namespace Keyspace

variable {α : Type*}

/-- A value of a key, and when it ends. -/
structure Held (α : Type*) where
  value : α
  expireAt : ℕ

def get (now : ℕ) (key : Option (Held α)) : Option α :=
  match key with
  | none => none
  | some held => if now < held.expireAt then some held.value else none

/-- The key with a value for a time from now. -/
def set (now ttl : ℕ) (value : α) : Option (Held α) := some ⟨value, now + ttl⟩

def setNew (now ttl : ℕ) (value : α) (key : Option (Held α)) : Option (Held α) :=
  if get now key = none then set now ttl value else key

variable {now now' ttl : ℕ} {key : Option (Held α)} {value : α}

@[simp] theorem get_none : get now (none : Option (Held α)) = none := rfl

theorem get_eq_some_iff : get now key = some value ↔
    ∃ expireAt, key = some ⟨value, expireAt⟩ ∧ now < expireAt := by
  cases key with
  | none => simp
  | some held =>
    rw [get]
    constructor
    · intro h
      split_ifs at h with hlive
      obtain rfl := Option.some.inj h
      exact ⟨held.expireAt, rfl, hlive⟩
    · rintro ⟨expireAt, heq, hlive⟩
      obtain rfl := Option.some.inj heq
      exact if_pos hlive

@[simp] theorem get_set : get now' (set now ttl value) = if now' < now + ttl then some value else none :=
  rfl

theorem get_set_self (httl : 0 < ttl) : get now (set now ttl value) = some value := by
  rw [get_set, if_pos (Nat.lt_add_of_pos_right httl)]

/-- What is there later was there before. -/
theorem get_of_le (hle : now ≤ now') (h : get now' key = some value) : get now key = some value := by
  obtain ⟨expireAt, rfl, hlive⟩ := get_eq_some_iff.mp h
  exact get_eq_some_iff.mpr ⟨expireAt, rfl, lt_of_le_of_lt hle hlive⟩

theorem setNew_of_none (h : get now key = none) : setNew now ttl value key = set now ttl value :=
  if_pos h

theorem setNew_of_some {value' : α} (h : get now key = some value') :
    setNew now ttl value key = key := by
  rw [setNew, if_neg]
  rw [h]
  exact Option.some_ne_none _

end Keyspace
