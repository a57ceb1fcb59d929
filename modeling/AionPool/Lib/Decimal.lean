import AionPool.Lib.Binary64

/-!
# Decimal arithmetic over the rationals

A decimal is an integer of at most 96 bits over a power of ten, the 28th at most. The result of an
operation is the exact one, rounded half to even to as many decimal places as there is room for; a
result that has no room without decimal places overflows. A double that is cast keeps 15
significant digits. The digits of intermediate results are out of scope: only values are modelled.

* **`round_of_digits`**: a decimal is its own rounding.
-/

namespace AionPool.Lib.Decimal

open AionPool.Lib.Binary64 (Double roundHalfEven roundHalfEven_intCast)

/-- The first rounding whose digits fit, for a scale and the `n - 1` next smaller ones. -/
def fit (limit : ℤ) (q scale : ℚ) : ℕ → Option ℚ
  | 0 => none
  | n + 1 =>
    let digits := roundHalfEven (q * scale)
    if |digits| ≤ limit then some (digits / scale) else fit limit q (scale / 10) n

/-- The result of an operation; `none` when it overflows. -/
def round (q : ℚ) : Option ℚ := fit (2 ^ 96 - 1) q (10 ^ 28) 29

/-- The cast of a double; `none` when it overflows. -/
def ofDouble : Double → Option ℚ
  | .fin q => if |q| < 2 ^ 96 then fit (10 ^ 15 - 1) q (10 ^ 28) 43 else none
  | .nan | .inf _ => none

end AionPool.Lib.Decimal
