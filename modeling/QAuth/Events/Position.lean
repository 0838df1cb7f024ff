import Mathlib.Data.Prod.Lex
import Mathlib.Order.Basic
import Mathlib.Tactic.Linarith

/-!
# Places in an event stream

Events are read in `(xid, seq)` order: the writing transaction's id, then the row's insertion
number. A position is the `(xid, seq)` of the last event a reader has, or `(horizon, 0)`.
-/

namespace QAuth.Events

/-- A place in a realm's event stream. -/
@[ext] structure Position where
  xid : ℕ
  seq : ℕ
  deriving DecidableEq

namespace Position

instance : LT Position := ⟨fun a b ↦ a.xid < b.xid ∨ a.xid = b.xid ∧ a.seq < b.seq⟩

instance : LE Position := ⟨fun a b ↦ a.xid < b.xid ∨ a.xid = b.xid ∧ a.seq ≤ b.seq⟩

theorem lt_iff {a b : Position} : a < b ↔ a.xid < b.xid ∨ a.xid = b.xid ∧ a.seq < b.seq :=
  Iff.rfl

theorem le_iff {a b : Position} : a ≤ b ↔ a.xid < b.xid ∨ a.xid = b.xid ∧ a.seq ≤ b.seq :=
  Iff.rfl

instance (a b : Position) : Decidable (a < b) :=
  inferInstanceAs (Decidable (a.xid < b.xid ∨ a.xid = b.xid ∧ a.seq < b.seq))

instance (a b : Position) : Decidable (a ≤ b) :=
  inferInstanceAs (Decidable (a.xid < b.xid ∨ a.xid = b.xid ∧ a.seq ≤ b.seq))

/-- Positions are linearly ordered by `(xid, seq)`, as the store reads the events. -/
instance : LinearOrder Position where
  le_refl a := Or.inr ⟨rfl, le_rfl⟩
  le_trans a b c := by simp only [le_iff]; omega
  le_antisymm a b hab hba := by
    simp only [le_iff] at hab hba
    ext <;> omega
  le_total a b := by simp only [le_iff]; omega
  lt_iff_le_not_ge a b := by simp only [lt_iff, le_iff]; omega
  toDecidableLE := inferInstance
  toDecidableLT := inferInstance
  toDecidableEq := inferInstance

/-- The place before the first event of the transaction `horizon`: every event of an earlier
transaction is at or before it, and no event of `horizon` is. -/
def atHorizon (horizon : ℕ) : Position := ⟨horizon, 0⟩

@[simp] theorem atHorizon_xid (horizon : ℕ) : (atHorizon horizon).xid = horizon := rfl

@[simp] theorem atHorizon_seq (horizon : ℕ) : (atHorizon horizon).seq = 0 := rfl

theorem atHorizon_le_atHorizon {a b : ℕ} (h : a ≤ b) : atHorizon a ≤ atHorizon b := by
  simp only [le_iff, atHorizon_xid, atHorizon_seq]
  omega

theorem le_atHorizon_of_xid_lt {p : Position} {horizon : ℕ} (h : p.xid < horizon) :
    p ≤ atHorizon horizon :=
  Or.inl h

/-- An event of transaction `horizon` or a later one comes after the place at the horizon. -/
theorem atHorizon_lt {p : Position} {horizon : ℕ} (hxid : horizon ≤ p.xid) (hseq : 1 ≤ p.seq) :
    atHorizon horizon < p := by
  simp only [lt_iff, atHorizon_xid, atHorizon_seq]
  omega

end Position

end QAuth.Events
