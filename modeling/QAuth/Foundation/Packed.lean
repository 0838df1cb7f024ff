import Mathlib.Data.Nat.Digits.Defs
import Mathlib.Tactic.Ring

/-!
# Packed arrays

Entries of a few bits each, packed into bytes from the least significant bit upward: the bytes are
one number, the first byte the lowest, and an entry is a digit of it.
-/

namespace Packed

/-- The number that some bytes are, the first byte the lowest. -/
def number (bytes : List UInt8) : ℕ := Nat.ofDigits 256 (bytes.map UInt8.toNat)

/-- The entry at an index, of entries of so many bits. -/
def entry (bits : ℕ) (bytes : List UInt8) (i : ℕ) : ℕ := number bytes / (2 ^ bits) ^ i % 2 ^ bits

theorem number_cons (b : UInt8) (bytes : List UInt8) :
    number (b :: bytes) = b.toNat + 256 * number bytes := by
  rw [number, List.map_cons, Nat.ofDigits_cons, number]

theorem number_div_mod {bytes : List UInt8} {q : ℕ} (hq : q < bytes.length) :
    number bytes / 256 ^ q % 256 = bytes[q].toNat := by
  induction bytes generalizing q with
  | nil => simp at hq
  | cons b bytes ih =>
    have hb : b.toNat < 256 := b.toNat_lt
    rw [number_cons]
    cases q with
    | zero =>
      rw [Nat.pow_zero, Nat.div_one, Nat.add_mul_mod_self_left, List.getElem_cons_zero]
      exact Nat.mod_eq_of_lt hb
    | succ q =>
      have hdiv : (b.toNat + 256 * number bytes) / 256 = number bytes := by omega
      rw [Nat.pow_succ, Nat.mul_comm (256 ^ q), ← Nat.div_div_eq_div_mul, hdiv,
        List.getElem_cons_succ]
      exact ih (Nat.lt_of_succ_lt_succ hq)

/-- Bits within the lowest ones are those of the number cut to these. -/
theorem div_mod_of_add_le {n s bits k : ℕ} (h : s + bits ≤ k) :
    n / 2 ^ s % 2 ^ bits = n % 2 ^ k / 2 ^ s % 2 ^ bits := by
  have hdvd : 2 ^ s * 2 ^ bits ∣ 2 ^ k := by
    rw [← Nat.pow_add]
    exact Nat.pow_dvd_pow 2 h
  rw [← Nat.mod_mul_right_div_self, ← Nat.mod_mul_right_div_self, Nat.mod_mod_of_dvd n hdvd]

theorem shiftRight_and_mask {bits perByte i : ℕ} {bytes : List UInt8} (hbits : bits * perByte = 8)
    (hi : i / perByte < bytes.length) :
    bytes[i / perByte].toNat >>> (i % perByte * bits) &&& (2 ^ bits - 1) = entry bits bytes i := by
  have hr : i % perByte < perByte := Nat.mod_lt _ (Nat.pos_of_ne_zero (by rintro rfl; omega))
  -- the bits before the entry are whole bytes and whole entries of its own byte
  have hsplit : bits * i = 8 * (i / perByte) + i % perByte * bits := by
    calc bits * i = bits * (perByte * (i / perByte) + i % perByte) := by rw [Nat.div_add_mod]
      _ = bits * perByte * (i / perByte) + i % perByte * bits := by ring
      _ = 8 * (i / perByte) + i % perByte * bits := by rw [hbits]
  have hfit : i % perByte * bits + bits ≤ 8 := by
    calc i % perByte * bits + bits = (i % perByte + 1) * bits := by ring
      _ ≤ perByte * bits := Nat.mul_le_mul_right _ hr
      _ = 8 := by rw [Nat.mul_comm, hbits]
  rw [Nat.and_two_pow_sub_one_eq_mod, Nat.shiftRight_eq_div_pow, entry, ← number_div_mod hi,
    ← Nat.pow_mul, hsplit, Nat.pow_add, Nat.pow_mul 2 8, ← Nat.div_div_eq_div_mul]
  exact (div_mod_of_add_le hfit).symm

end Packed
