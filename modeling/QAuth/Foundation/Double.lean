import Mathlib

/-!
# Numbers as doubles

A whole number of a program whose numbers are IEEE 754 doubles is exact below `2 ^ 53`; from there
on a sum or a product is the nearest double. Nothing here needs more of the rounding than two
facts: it changes nothing below `2 ^ 53`, and it leads nothing from above to below. Of a result that
need not be whole, only these are asked.
-/

namespace Double

/-- The largest whole number with all smaller ones exact. -/
def maxSafe : ℕ := 2 ^ 53 - 1

/-- The nearest double of a whole number, ties to the even significand. -/
def round (n : ℕ) : ℕ :=
  if n < 2 ^ 53 then n
  else
    let ulp := 2 ^ (Nat.log 2 n - 52)
    let q := n / ulp
    let r := n % ulp
    if ulp < 2 * r ∨ (2 * r = ulp ∧ q % 2 = 1) then (q + 1) * ulp else q * ulp

/-- The sum of two doubles. -/
def add (a b : ℕ) : ℕ := round (a + b)

/-- The product of two doubles. -/
def mul (a b : ℕ) : ℕ := round (a * b)

/-- The double that a whole number written out reads as: infinite past the largest double. -/
def number (n : ℕ) : WithTop ℕ := if round n < 2 ^ 1024 then (round n : ℕ) else ⊤

variable {a b c m n x y z w : ℕ}

theorem round_of_lt (h : n < 2 ^ 53) : round n = n :=
  if_pos h

theorem number_of_lt (h : n < 2 ^ 53) : number n = n := by
  have hsmall : (2 : ℕ) ^ 53 ≤ 2 ^ 1024 := Nat.pow_le_pow_right (by decide) (by decide)
  rw [number, round_of_lt h, if_pos (lt_of_lt_of_le h hsmall)]

/-- Rounding leads nothing past a power of two back before it. -/
theorem two_pow_le_round {k : ℕ} (hk : 53 ≤ k) (h : 2 ^ k ≤ n) : 2 ^ k ≤ round n := by
  have hn : n ≠ 0 := by
    have := Nat.two_pow_pos k
    omega
  have hlog : k ≤ Nat.log 2 n := Nat.le_log_of_pow_le (by decide) h
  have hexact : 2 ^ 53 ≤ 2 ^ k := Nat.pow_le_pow_right (by decide) hk
  have hq : 2 ^ 52 ≤ n / 2 ^ (Nat.log 2 n - 52) := by
    rw [Nat.le_div_iff_mul_le (Nat.two_pow_pos _), ← Nat.pow_add,
      show 52 + (Nat.log 2 n - 52) = Nat.log 2 n by omega]
    exact Nat.pow_log_le_self 2 hn
  have hulp : 2 ^ (k - 52) ≤ 2 ^ (Nat.log 2 n - 52) :=
    Nat.pow_le_pow_right (by decide) (by omega)
  have hdown : 2 ^ k ≤ n / 2 ^ (Nat.log 2 n - 52) * 2 ^ (Nat.log 2 n - 52) := by
    calc 2 ^ k = 2 ^ 52 * 2 ^ (k - 52) := by rw [← Nat.pow_add, Nat.add_sub_cancel' (by omega)]
      _ ≤ n / 2 ^ (Nat.log 2 n - 52) * 2 ^ (Nat.log 2 n - 52) := Nat.mul_le_mul hq hulp
  rw [round, if_neg (by omega)]
  dsimp only
  split
  · exact hdown.trans (Nat.mul_le_mul_right _ (Nat.le_succ _))
  · exact hdown

/-- Rounding leads nothing from past the exact range into it. -/
theorem le_round (h : 2 ^ 53 ≤ n) : 2 ^ 53 ≤ round n := two_pow_le_round le_rfl h

/-- The gap between two doubles divides this number, which therefore is one. -/
theorem round_of_dvd {k : ℕ} (hdvd : 2 ^ k ∣ n) (hn : n < 2 ^ (53 + k)) : round n = n := by
  by_cases hsmall : n < 2 ^ 53
  · exact round_of_lt hsmall
  · have hne : n ≠ 0 := by
      have := Nat.two_pow_pos 53
      omega
    have hlog : Nat.log 2 n < 53 + k := (Nat.log_lt_iff_lt_pow (by decide) hne).mpr hn
    have hulp : 2 ^ (Nat.log 2 n - 52) ∣ n :=
      (Nat.pow_dvd_pow 2 (by omega)).trans hdvd
    have hpos := Nat.two_pow_pos (Nat.log 2 n - 52)
    rw [round, if_neg hsmall]
    dsimp only
    rw [Nat.mod_eq_zero_of_dvd hulp, if_neg (by omega), Nat.div_mul_cancel hulp]

/-- An exact number compares with a rounded one as with the number itself. -/
theorem lt_round_iff (hm : m < 2 ^ 53) : m < round n ↔ m < n := by
  by_cases hn : n < 2 ^ 53
  · rw [round_of_lt hn]
  · have := le_round (Nat.le_of_not_lt hn)
    omega

/-- `x` is `y`, or both are past the exact range. -/
def Agrees (x y : ℕ) : Prop :=
  x = y ∨ (2 ^ 53 ≤ x ∧ 2 ^ 53 ≤ y)

namespace Agrees

theorem refl (x : ℕ) : Agrees x x := .inl rfl

/-- Within the exact range there is no difference. -/
theorem eq_of_lt (h : Agrees x y) (hx : x < 2 ^ 53 ∨ y < 2 ^ 53) : x = y := by
  rcases h with rfl | ⟨hx', hy'⟩
  · rfl
  · omega

/-- A bound within the exact range cuts both at the same value. -/
theorem min_eq (h : Agrees x y) (hb : b < 2 ^ 53) : min x b = min y b := by
  rcases h with rfl | ⟨hx, hy⟩
  · rfl
  · rw [Nat.min_eq_right (by omega), Nat.min_eq_right (by omega)]

end Agrees

theorem agrees_round (n : ℕ) : Agrees (round n) n := by
  by_cases h : n < 2 ^ 53
  · exact .inl (round_of_lt h)
  · exact .inr ⟨le_round (Nat.le_of_not_lt h), Nat.le_of_not_lt h⟩

theorem agrees_mul (a b : ℕ) : Agrees (mul a b) (a * b) :=
  agrees_round _

theorem agrees_add (h : Agrees x y) (k : Agrees z w) : Agrees (add x z) (y + w) := by
  have hround := agrees_round (x + z)
  rw [add]
  simp only [Agrees] at *
  omega

/-- A sum taken one rounded addition after the other agrees with the sum. -/
theorem agrees_foldl_add (f : ℕ → ℕ) (l : List ℕ) (h : Agrees x y) :
    Agrees (l.foldl (fun total i ↦ add total (f i)) x) (y + (l.map f).sum) := by
  induction l generalizing x y with
  | nil => exact h
  | cons i l ih =>
    rw [List.foldl_cons, List.map_cons, List.sum_cons, ← Nat.add_assoc]
    exact ih (agrees_add h (.refl _))

/-! ### Numbers of any sign -/

/-- The nearest double of a whole number of any sign. -/
def roundInt (n : ℤ) : ℤ := n.sign * round n.natAbs

/-- The sum of two doubles of any sign. -/
def addInt (a b : ℤ) : ℤ := roundInt (a + b)

/-- A number that is exact, and so are those next to it. -/
abbrev SafeInt : Type := {n : ℤ // n.natAbs ≤ maxSafe}

theorem roundInt_of_lt {n : ℤ} (h : n.natAbs < 2 ^ 53) : roundInt n = n := by
  rw [roundInt, round_of_lt h, Int.sign_mul_natAbs]

/-- A safe number compares with a rounded one as with the number itself. -/
theorem lt_roundInt_iff {z n : ℤ} (hz : z.natAbs < 2 ^ 53) : z < roundInt n ↔ z < n := by
  by_cases hn : n.natAbs < 2 ^ 53
  · rw [roundInt_of_lt hn]
  · have hround := le_round (Nat.le_of_not_lt hn)
    rcases Int.lt_trichotomy n 0 with hneg | rfl | hpos
    · rw [roundInt, Int.sign_eq_neg_one_of_neg hneg]
      omega
    · simp [roundInt]
    · rw [roundInt, Int.sign_eq_one_of_pos hpos]
      omega

theorem le_roundInt_iff {z n : ℤ} (hz : z.natAbs < 2 ^ 53) : z ≤ roundInt n ↔ z ≤ n := by
  by_cases hn : n.natAbs < 2 ^ 53
  · rw [roundInt_of_lt hn]
  · have hround := le_round (Nat.le_of_not_lt hn)
    rcases Int.lt_trichotomy n 0 with hneg | rfl | hpos
    · rw [roundInt, Int.sign_eq_neg_one_of_neg hneg]
      omega
    · simp [roundInt]
    · rw [roundInt, Int.sign_eq_one_of_pos hpos]
      omega

/-- A safe number compares with the sum of a safe number and a rounded product as with the exact
sum, where a power of two divides a factor. -/
theorem lt_addInt_mul_iff {z a : ℤ} {m : ℕ} (hz : z.natAbs < 2 ^ 53) (ha : a.natAbs < 2 ^ 53)
    (hdvd : 2 ∣ b) : z < addInt a (mul m b) ↔ z < a + (m * b : ℕ) := by
  rw [addInt, lt_roundInt_iff hz, mul]
  by_cases hsmall : m * b < 2 ^ 54
  · rw [round_of_dvd (k := 1) (Dvd.dvd.mul_left hdvd m) hsmall]
  · have hround := two_pow_le_round (k := 54) (by decide) (Nat.le_of_not_lt hsmall)
    omega

/-! ### Results that need not be whole -/

/-- Numbers of a program, and how results are rounded; an infinite result is any number past the
finite ones. -/
structure Rounding (ν : Type) where
  /-- the value of a finite number -/
  finite : ν → Option ℚ
  /-- the nearest number -/
  nearest : ℚ → ℚ
  mono : Monotone nearest
  exact : ∀ z : ℤ, |z| ≤ 2 ^ 53 → nearest z = z

/-- A whole number below a rounded one is below the number itself. -/
theorem Rounding.lt_of_lt_nearest {ν : Type} (R : Rounding ν) {z : ℤ} {q : ℚ} (hz : |z| ≤ 2 ^ 53)
    (h : (z : ℚ) < R.nearest q) : (z : ℚ) < q := by
  by_contra hle
  have hmono := R.mono (not_lt.mp hle)
  rw [R.exact z hz] at hmono
  exact absurd h (not_lt.mpr hmono)

end Double
