import Mathlib.Algebra.Order.Field.Rat
import Mathlib.Data.Int.Log
import Mathlib.Data.Rat.Floor
import QAuth.Foundation.Decimal

/-!
# The number that a decimal text is read as

A decimal is read as the double nearest to it, and a double is printed with as few digits as tell it
from every other. The numbers that a program holds are named by what is printed of them.
-/

namespace Double

/-- The whole number nearest to `r`, of two the even one. -/
def roundEven (r : ℚ) : ℤ :=
  if r - r.floor < 1 / 2 then r.floor
  else if 1 / 2 < r - r.floor then r.floor + 1
  else if r.floor % 2 = 0 then r.floor
  else r.floor + 1

/-- The double nearest to `q`: 53 binary digits, none of them below `2 ^ -1074`. -/
def nearest (q : ℚ) : Option ℚ :=
  let ulp : ℚ := 2 ^ max (Int.log 2 |q| - 52) (-1074)
  let d := roundEven (q / ulp) * ulp
  if |d| < 2 ^ 1024 then some d else none

/-- The digits of a positive double, with the point before the last `n` of them shifted back: the
nearer of the two decimals of `k` digits around it that are read as it. -/
def digitsOf (d : ℚ) (n : ℤ) (k : ℕ) : Option ℤ :=
  let t := d * 10 ^ (k - n)
  let other := if roundEven t = t.floor then t.floor + 1 else t.floor
  [roundEven t, other].find? fun s ↦ nearest (s * 10 ^ (n - k)) = some d

/-- What is printed of a double: the fewest digits that are read as it. Seventeen are always
enough. -/
def printed (d : ℚ) : Option Decimal.Shortest :=
  let n := Int.log 10 |d| + 1
  (List.range' 1 17).findSome? fun k ↦ (digitsOf |d| n k).bind fun s ↦
    let stripped := Decimal.stripZeros s.toNat s.toNat
    if h : stripped.1 % 10 ≠ 0 then
      some ⟨d < 0, stripped.1, n + (Decimal.digits s.toNat).length - k, h⟩
    else none

end Double

namespace Decimal

/-- The number that the digits and the exponent stand for. -/
def Shortest.value (x : Shortest) : ℚ :=
  (if x.negative then -1 else 1) * (x.s * 10 ^ (x.n - (digits x.s).length))

/-- The decimal is what is printed of a double. -/
def Shortest.IsDouble (x : Shortest) : Prop :=
  (Double.nearest x.value).bind Double.printed = some x

end Decimal
