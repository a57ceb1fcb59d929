import Mathlib.Algebra.Order.Floor.Ring
import Mathlib.Algebra.Order.Field.Rat
import Mathlib.Data.Rat.Floor
import Mathlib.Tactic.Linarith
import Mathlib.Tactic.Positivity
import Mathlib.Tactic.Ring
import Mathlib.Tactic.FieldSimp

/-!
# Fixed-point columns

A column that keeps `d` decimal digits holds an integer number of units of `10 ^ -d`, so a value
that is not on the grid cannot be built. `store` rounds a rational to the nearest grid value,
halves away from zero; `value` reads it back.

* `store_value`: what was read is stored unchanged.
* **`store_add_le`**: adding a non-negative amount to a stored value and storing the sum never
  gives more than adding the stored amount.
* `store_add_nonpos`: adding a non-positive amount never raises a stored value.
* `store_add_value`, `store_add_of_nonneg`: grid values add exactly, and so does a non-negative
  amount to a non-negative value.
-/

namespace AionPool.Lib.FixedPoint

/-- Nearest integer, halves away from zero. -/
def roundHalfAway (q : ℚ) : ℤ :=
  if 0 ≤ q then ⌊q + 1 / 2⌋ else -⌊-q + 1 / 2⌋

theorem roundHalfAway_of_nonneg {q : ℚ} (h : 0 ≤ q) : roundHalfAway q = ⌊q + 1 / 2⌋ := if_pos h

theorem roundHalfAway_of_neg {q : ℚ} (h : q < 0) : roundHalfAway q = -⌊-q + 1 / 2⌋ :=
  if_neg (not_le.mpr h)

theorem roundHalfAway_nonneg {q : ℚ} (h : 0 ≤ q) : 0 ≤ roundHalfAway q := by
  rw [roundHalfAway_of_nonneg h]
  exact Int.floor_nonneg.mpr (by linarith)

theorem roundHalfAway_nonpos {q : ℚ} (h : q ≤ 0) : roundHalfAway q ≤ 0 := by
  rcases h.lt_or_eq with h | rfl
  · rw [roundHalfAway_of_neg h]
    have := Int.floor_nonneg.mpr (show (0 : ℚ) ≤ -q + 1 / 2 by linarith)
    omega
  · decide +kernel

@[simp] theorem roundHalfAway_intCast (n : ℤ) : roundHalfAway (n : ℚ) = n := by
  have half : ⌊(1 / 2 : ℚ)⌋ = 0 := by decide +kernel
  unfold roundHalfAway
  split
  · rw [Int.floor_intCast_add, half, add_zero]
  · rw [← Int.cast_neg, Int.floor_intCast_add, half, add_zero, neg_neg]

theorem roundHalfAway_mono {p q : ℚ} (h : p ≤ q) : roundHalfAway p ≤ roundHalfAway q := by
  rcases lt_or_ge p 0 with hp | hp
  · rcases lt_or_ge q 0 with hq | hq
    · rw [roundHalfAway_of_neg hp, roundHalfAway_of_neg hq]
      exact neg_le_neg (Int.floor_le_floor (by linarith))
    · exact (roundHalfAway_nonpos hp.le).trans (roundHalfAway_nonneg hq)
  · rw [roundHalfAway_of_nonneg hp, roundHalfAway_of_nonneg (hp.trans h)]
    exact Int.floor_le_floor (by linarith)

/-- Rounding a sum with an integer gives at most the integer plus the rounded amount, when that
amount is not negative: a half below zero is rounded down. -/
theorem roundHalfAway_intCast_add_le (n : ℤ) {a : ℚ} (ha : 0 ≤ a) :
    roundHalfAway (n + a) ≤ n + roundHalfAway a := by
  rw [roundHalfAway_of_nonneg ha]
  rcases lt_or_ge ((n : ℚ) + a) 0 with h | h
  · rw [roundHalfAway_of_neg h]
    have hceil : -⌊-((n : ℚ) + a) + 1 / 2⌋ = ⌈(n : ℚ) + (a - 1 / 2)⌉ := by
      rw [← Int.ceil_neg]
      congr 1
      ring
    rw [hceil, Int.ceil_intCast_add, add_le_add_iff_left]
    refine Int.ceil_le.mpr ?_
    have := Int.lt_floor_add_one (a + 1 / 2)
    linarith
  · rw [roundHalfAway_of_nonneg h, add_assoc, Int.floor_intCast_add]

/-- Rounding a non-negative sum with an integer is exact in the integer: both halves round up. -/
theorem roundHalfAway_intCast_add {n : ℤ} {a : ℚ} (hn : 0 ≤ n) (ha : 0 ≤ a) :
    roundHalfAway (n + a) = n + roundHalfAway a := by
  have hsum : (0 : ℚ) ≤ n + a := add_nonneg (by exact_mod_cast hn) ha
  rw [roundHalfAway_of_nonneg hsum, roundHalfAway_of_nonneg ha, add_assoc, Int.floor_intCast_add]

/-- A column of `d` decimals: an integer number of units of `10 ^ -d`. -/
structure Fixed (d : ℕ) where
  units : ℤ
  deriving DecidableEq, Repr

namespace Fixed

variable {d : ℕ}

/-- The value read from the column. -/
def value (f : Fixed d) : ℚ := f.units / 10 ^ d

/-- The column value a rational is stored as. -/
def store (d : ℕ) (q : ℚ) : Fixed d := ⟨roundHalfAway (q * 10 ^ d)⟩

theorem value_mul (f : Fixed d) : f.value * 10 ^ d = f.units := by
  unfold value
  field_simp

@[simp] theorem store_value (f : Fixed d) : store d f.value = f := by
  unfold store
  rw [value_mul, roundHalfAway_intCast]

theorem value_le_value {f g : Fixed d} : f.value ≤ g.value ↔ f.units ≤ g.units := by
  unfold value
  rw [div_le_div_iff_of_pos_right (by positivity), Int.cast_le]

theorem store_mono {p q : ℚ} (h : p ≤ q) : (store d p).value ≤ (store d q).value :=
  value_le_value.mpr (roundHalfAway_mono (mul_le_mul_of_nonneg_right h (by positivity)))

theorem value_add (f g : Fixed d) : f.value + g.value = (⟨f.units + g.units⟩ : Fixed d).value := by
  unfold value
  push_cast
  ring

theorem neg_value (g : Fixed d) : -g.value = (⟨-g.units⟩ : Fixed d).value := by
  unfold value
  push_cast
  ring

/-- **Storing a sum with a non-negative amount** gives at most the sum of the stored values. -/
theorem store_add_le (f : Fixed d) {a : ℚ} (ha : 0 ≤ a) :
    (store d (f.value + a)).value ≤ f.value + (store d a).value := by
  rw [value_add]
  refine value_le_value.mpr ?_
  unfold store
  rw [add_mul, value_mul]
  exact roundHalfAway_intCast_add_le f.units (mul_nonneg ha (by positivity))

/-- Storing the sum of a stored value and an amount, neither of them negative, adds the stored
amount. -/
theorem store_add_of_nonneg {f : Fixed d} {a : ℚ} (hf : 0 ≤ f.value) (ha : 0 ≤ a) :
    (store d (f.value + a)).value = f.value + (store d a).value := by
  have hunits : 0 ≤ f.units := by
    have hvalue := mul_nonneg hf (show (0 : ℚ) ≤ 10 ^ d by positivity)
    rw [value_mul] at hvalue
    exact_mod_cast hvalue
  unfold store
  rw [value_add, add_mul, value_mul,
    roundHalfAway_intCast_add hunits (mul_nonneg ha (by positivity))]

/-- Adding a non-positive amount never raises a stored value. -/
theorem store_add_nonpos (f : Fixed d) {a : ℚ} (ha : a ≤ 0) :
    (store d (f.value + a)).value ≤ f.value := by
  have := store_mono (d := d) (show f.value + a ≤ f.value by linarith)
  rwa [store_value] at this

/-- Values on the grid add exactly. -/
theorem store_add_value (f g : Fixed d) :
    (store d (f.value + g.value)).value = f.value + g.value := by
  rw [value_add, store_value]

theorem store_sub_value (f g : Fixed d) :
    (store d (f.value + -g.value)).value = f.value - g.value := by
  rw [neg_value, store_add_value, ← neg_value, sub_eq_add_neg]

theorem store_neg_value (g : Fixed d) : (store d (-g.value)).value = -g.value := by
  rw [neg_value, store_value]

end Fixed

end AionPool.Lib.FixedPoint
