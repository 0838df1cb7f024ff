import Mathlib.Algebra.Ring.Int.Defs
import QAuth.Foundation.Table

/-!
# Hashes of counts

A hash whose fields hold how often a member is in a list that is kept elsewhere: a member that comes
in counts one more, one that goes counts one less, and a field that counts none is deleted, so that
nothing that goes adds a field.
-/

/-- The fields of a hash with their counts. -/
abbrev CountHash (α : Type) := List (α × ℤ)

namespace CountHash

variable {α : Type} [DecidableEq α]

/-- `HGET`, 0 for no field. -/
def value (h : CountHash α) (a : α) : ℤ := (h.lookup a).getD 0

/-- `HINCRBY`. -/
def incrBy (h : CountHash α) (a : α) (d : ℤ) : CountHash α := Table.upsert h a (h.value a + d)

/-- `HDEL`. -/
def del (h : CountHash α) (a : α) : CountHash α := h.filter (·.1 ≠ a)

/-- Count one less; a field that counts none goes. -/
def drop (h : CountHash α) (a : α) : CountHash α :=
  let left := h.incrBy a (-1)
  if left.value a ≤ 0 then left.del a else left

variable {h : CountHash α} {a : α}

end CountHash
