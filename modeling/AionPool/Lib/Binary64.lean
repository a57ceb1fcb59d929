import Mathlib.Algebra.Order.Floor.Ring
import Mathlib.Data.Int.Log
import Mathlib.Data.Rat.Floor
import Mathlib.Tactic.Linarith
import Mathlib.Tactic.Positivity
import Mathlib.Tactic.FieldSimp

/-!
# Binary64 arithmetic over the rationals

A `Double` is a rational, an infinity or NaN. `nearest` rounds a rational to 53 significant bits
(at most 1074 fractional ones), ties to even; `ofRat` is that rounding with the overflow to an
infinity. The two zeros are not told apart: a zero divisor is the positive one.

* **`nearest_mono`**: rounding is monotone.
* `nearest_of_grid`: a rational with at most 53 significant bits is its own rounding.
* `ofRat_of_nearest`: a rounding in range is the double; `ofRat_of_le_one` places it.
-/

namespace AionPool.Lib.Binary64

/-! ## Rounding to an integer -/

/-- Nearest integer, halves to the even one. -/
def roundHalfEven (q : ℚ) : ℤ :=
  if q - ⌊q⌋ < 1 / 2 then ⌊q⌋
  else if 1 / 2 < q - ⌊q⌋ then ⌊q⌋ + 1
  else if ⌊q⌋ % 2 = 0 then ⌊q⌋ else ⌊q⌋ + 1

theorem floor_le_roundHalfEven (q : ℚ) : ⌊q⌋ ≤ roundHalfEven q := by
  unfold roundHalfEven
  split_ifs <;> omega

theorem roundHalfEven_le_floor_add_one (q : ℚ) : roundHalfEven q ≤ ⌊q⌋ + 1 := by
  unfold roundHalfEven
  split_ifs <;> omega

@[simp] theorem roundHalfEven_intCast (n : ℤ) : roundHalfEven (n : ℚ) = n := by
  unfold roundHalfEven
  rw [Int.floor_intCast, sub_self, if_pos (by norm_num)]

theorem roundHalfEven_mono {p q : ℚ} (h : p ≤ q) : roundHalfEven p ≤ roundHalfEven q := by
  have hf : ⌊p⌋ ≤ ⌊q⌋ := Int.floor_le_floor h
  rcases hf.lt_or_eq with hlt | heq
  · have h1 := roundHalfEven_le_floor_add_one p
    have h2 := floor_le_roundHalfEven q
    omega
  · -- one cell: the remainders are ordered as the numbers are
    have hr : p - ⌊p⌋ ≤ q - ⌊q⌋ := by rw [heq]; linarith
    unfold roundHalfEven
    rw [heq] at hr ⊢
    split_ifs <;> first | omega | (exfalso; linarith)

theorem roundHalfEven_neg (q : ℚ) : roundHalfEven (-q) = -roundHalfEven q := by
  have hq := Int.fract_add_floor q
  rcases eq_or_ne (Int.fract q) 0 with h0 | h0
  · have : q = (⌊q⌋ : ℤ) := by rw [h0, zero_add] at hq; exact hq.symm
    rw [this, ← Int.cast_neg, roundHalfEven_intCast, roundHalfEven_intCast]
  · have hfl : ⌊-q⌋ = -⌊q⌋ - 1 := by
      rw [Int.floor_eq_iff]
      have h1 := (Int.fract_nonneg q).lt_of_ne' h0
      have h2 := Int.fract_lt_one q
      push_cast
      constructor <;> linarith
    have e1 : q - ⌊q⌋ = Int.fract q := rfl
    have e2 : -q - ((-⌊q⌋ - 1 : ℤ) : ℚ) = 1 - Int.fract q := by
      rw [← e1]; push_cast; ring
    unfold roundHalfEven
    rw [hfl, e1, e2]
    split_ifs <;> first | omega | (exfalso; linarith)

/-! ## Rounding to 53 bits -/

/-- The exponent of the last place kept at `q`. -/
def lastPlace (q : ℚ) : ℤ := max (Int.log 2 |q| - 52) (-1074)

/-- `q` rounded to the grid of binary64 values, the range of the exponent not bounded above. -/
def nearest (q : ℚ) : ℚ := roundHalfEven (q / 2 ^ lastPlace q) * 2 ^ lastPlace q

theorem two_zpow_pos (e : ℤ) : (0 : ℚ) < 2 ^ e := zpow_pos (by norm_num) e

theorem lastPlace_neg (q : ℚ) : lastPlace (-q) = lastPlace q := by
  unfold lastPlace; rw [abs_neg]

theorem nearest_neg (q : ℚ) : nearest (-q) = -nearest q := by
  unfold nearest
  rw [lastPlace_neg, neg_div, roundHalfEven_neg]
  push_cast
  ring

@[simp] theorem nearest_zero : nearest 0 = 0 := by
  unfold nearest
  rw [zero_div, ← Int.cast_zero, roundHalfEven_intCast]
  simp

theorem nearest_nonneg {q : ℚ} (h : 0 ≤ q) : 0 ≤ nearest q := by
  have hq : 0 ≤ q / 2 ^ lastPlace q := div_nonneg h (two_zpow_pos _).le
  have hr := roundHalfEven_mono hq
  rw [← Int.cast_zero, roundHalfEven_intCast] at hr
  exact mul_nonneg (by exact_mod_cast hr) (two_zpow_pos _).le

/-- A power of two is a multiple of every smaller one. -/
theorem exists_zpow_eq {l E : ℤ} (h : l ≤ E) : ∃ n : ℤ, (2 : ℚ) ^ E = n * 2 ^ l := by
  obtain ⟨k, hk⟩ := Int.eq_ofNat_of_zero_le (sub_nonneg.mpr h)
  refine ⟨2 ^ k, ?_⟩
  rw [Int.cast_pow, Int.cast_ofNat, ← zpow_natCast, ← zpow_add₀ (by norm_num)]
  congr 1
  omega

/-- A power of two at or above the last place bounds the rounding as it bounds the number. -/
theorem nearest_le_zpow {q : ℚ} {E : ℤ} (hE : lastPlace q ≤ E) (h : q ≤ 2 ^ E) :
    nearest q ≤ 2 ^ E := by
  obtain ⟨n, hpow⟩ := exists_zpow_eq hE
  unfold nearest
  rw [hpow] at h ⊢
  refine mul_le_mul_of_nonneg_right ?_ (two_zpow_pos _).le
  have := roundHalfEven_mono ((div_le_iff₀ (two_zpow_pos _)).mpr h)
  rw [roundHalfEven_intCast] at this
  exact_mod_cast this

theorem zpow_le_nearest {q : ℚ} {E : ℤ} (hE : lastPlace q ≤ E) (h : 2 ^ E ≤ q) :
    2 ^ E ≤ nearest q := by
  obtain ⟨n, hpow⟩ := exists_zpow_eq hE
  unfold nearest
  rw [hpow] at h ⊢
  refine mul_le_mul_of_nonneg_right ?_ (two_zpow_pos _).le
  have := roundHalfEven_mono ((le_div_iff₀ (two_zpow_pos _)).mpr h)
  rw [roundHalfEven_intCast] at this
  exact_mod_cast this

theorem nearest_mono_of_pos {p q : ℚ} (hp : 0 < p) (h : p ≤ q) : nearest p ≤ nearest q := by
  have hq : 0 < q := hp.trans_le h
  have hlog : Int.log 2 p ≤ Int.log 2 q := Int.log_mono_right hp h
  have hle : lastPlace p ≤ lastPlace q := by
    unfold lastPlace
    rw [abs_of_pos hp, abs_of_pos hq]
    omega
  rcases hle.lt_or_eq with hlt | heq
  · -- a power of two lies between them and on both grids
    have hE : lastPlace q = Int.log 2 q - 52 := by
      unfold lastPlace at hlt ⊢
      rw [abs_of_pos hp, abs_of_pos hq] at *
      omega
    have hpE : Int.log 2 p + 1 ≤ Int.log 2 q := by
      unfold lastPlace at hlt
      rw [abs_of_pos hp, abs_of_pos hq] at hlt
      omega
    have h1 : p ≤ 2 ^ Int.log 2 q := by
      have := Int.lt_zpow_succ_log_self (b := 2) (by norm_num) p
      exact this.le.trans (zpow_le_zpow_right₀ (by norm_num) hpE)
    have h2 : (2 : ℚ) ^ Int.log 2 q ≤ q := by
      have := Int.zpow_log_le_self (b := 2) (by norm_num) hq
      exact_mod_cast this
    calc nearest p ≤ 2 ^ Int.log 2 q := nearest_le_zpow (by omega) h1
      _ ≤ nearest q := zpow_le_nearest (by omega) h2
  · unfold nearest
    rw [heq]
    refine mul_le_mul_of_nonneg_right ?_ (two_zpow_pos _).le
    exact_mod_cast roundHalfEven_mono (div_le_div_of_nonneg_right h (two_zpow_pos _).le)

/-- **Rounding is monotone.** -/
theorem nearest_mono : Monotone nearest := by
  intro p q h
  rcases lt_trichotomy p 0 with hp | rfl | hp
  · rcases lt_or_ge q 0 with hq | hq
    · have := nearest_mono_of_pos (neg_pos.mpr hq) (neg_le_neg h)
      rw [nearest_neg, nearest_neg] at this
      exact neg_le_neg_iff.mp this
    · have hn := nearest_nonneg (neg_nonneg.mpr hp.le)
      rw [nearest_neg] at hn
      exact (neg_nonneg.mp hn).trans (nearest_nonneg hq)
  · rw [nearest_zero]
    exact nearest_nonneg h
  · exact nearest_mono_of_pos hp h

/-- A multiple of a power of two with at most 53 bits is its own rounding. -/
theorem nearest_of_grid {q : ℚ} (n e : ℤ) (hq : q = n * 2 ^ e) (hn : |n| < 2 ^ 53)
    (he : -1074 ≤ e) : nearest q = q := by
  rcases eq_or_ne n 0 with rfl | h0
  · rw [hq, Int.cast_zero, zero_mul, nearest_zero]
  have habs : |q| = |(n : ℚ)| * 2 ^ e := by rw [hq, abs_mul, abs_of_pos (two_zpow_pos e)]
  have hpos : 0 < |q| := by
    rw [habs]
    exact mul_pos (abs_pos.mpr (by exact_mod_cast h0)) (two_zpow_pos e)
  have hlt : |q| < ((2 : ℕ) : ℚ) ^ (53 + e) := by
    have hn' : |(n : ℚ)| < 2 ^ (53 : ℤ) := by exact_mod_cast hn
    rw [habs, Nat.cast_ofNat, zpow_add₀ (by norm_num)]
    exact mul_lt_mul_of_pos_right hn' (two_zpow_pos e)
  have hlog := (Int.lt_zpow_iff_log_lt (b := 2) (by norm_num) hpos).mp hlt
  have hle : lastPlace q ≤ e := by unfold lastPlace; omega
  unfold nearest
  generalize lastPlace q = l at hle
  obtain ⟨m, hm⟩ := exists_zpow_eq hle
  have hdiv : q / 2 ^ l = ((n * m : ℤ) : ℚ) := by
    rw [div_eq_iff (two_zpow_pos l).ne', hq, hm, Int.cast_mul, mul_assoc]
  rw [hdiv, roundHalfEven_intCast, ← hdiv, div_mul_cancel₀ _ (two_zpow_pos l).ne']

/-! ## Doubles -/

/-- A binary64 value. -/
inductive Double where
  | nan
  | inf (negative : Bool)
  | fin (q : ℚ)
  deriving DecidableEq, Repr

namespace Double

/-- The value a rational is rounded to. -/
def ofRat (q : ℚ) : Double :=
  if |nearest q| < 2 ^ 1024 then .fin (nearest q) else .inf (decide (q < 0))

/-- IEEE division, every zero divisor taken as the positive one. -/
def div : Double → Double → Double
  | .nan, _ | _, .nan => .nan
  | .inf _, .inf _ => .nan
  | .inf s, .fin b => .inf (s ^^ decide (b < 0))
  | .fin _, .inf _ => .fin 0
  | .fin a, .fin b =>
    if b = 0 then (if a = 0 then .nan else .inf (decide (a < 0))) else ofRat (a / b)

theorem div_fin {a b : ℚ} (h : b ≠ 0) : (fin a).div (.fin b) = ofRat (a / b) := by
  unfold div
  dsimp only
  rw [if_neg h]

/-- IEEE `<`: false as soon as one side is NaN. -/
def lt : Double → Double → Bool
  | .nan, _ | _, .nan => false
  | .inf s, .inf t => s && !t
  | .inf s, .fin _ => s
  | .fin _, .inf t => !t
  | .fin a, .fin b => decide (a < b)

/-- IEEE `≤`: false as soon as one side is NaN. -/
def le : Double → Double → Bool
  | .nan, _ | _, .nan => false
  | .inf s, .inf t => s || !t
  | .inf s, .fin _ => s
  | .fin _, .inf t => !t
  | .fin a, .fin b => decide (a ≤ b)

/-- The smaller of two values, NaN when either is. -/
def min (x y : Double) : Double :=
  match x, y with
  | .nan, _ | _, .nan => .nan
  | x, y => if lt x y then x else y

theorem min_fin {a b : ℚ} : min (.fin a) (.fin b) = .fin (Min.min a b) := by
  unfold min
  dsimp only
  by_cases h : lt (.fin a) (.fin b) = true
  · rw [if_pos h, min_eq_left (of_decide_eq_true h).le]
  · rw [if_neg h, min_eq_right (not_lt.mp fun hlt => h (decide_eq_true hlt))]

/-- What is not below the smallest positive value and not above one is rounded to a value between
zero and one. -/
theorem ofRat_of_le_one {q : ℚ} (hlo : (2 : ℚ) ^ (-1074 : ℤ) ≤ q) (hhi : q ≤ 1) :
    ∃ r, ofRat q = .fin r ∧ 0 < r ∧ r ≤ 1 := by
  have hpos : 0 < nearest q := by
    have hsmallest := nearest_of_grid (q := (2 : ℚ) ^ (-1074 : ℤ)) 1 (-1074) (by simp) (by norm_num)
      le_rfl
    have hmono := nearest_mono hlo
    rw [hsmallest] at hmono
    exact (two_zpow_pos _).trans_le hmono
  have hle : nearest q ≤ 1 := by
    have hone := nearest_of_grid (q := 1) 1 0 (by simp) (by norm_num) (by norm_num)
    have hmono := nearest_mono hhi
    rwa [hone] at hmono
  refine ⟨nearest q, if_pos ?_, hpos, hle⟩
  rw [abs_of_pos hpos]
  exact hle.trans_lt (one_lt_pow₀ (by norm_num) (by norm_num))

theorem ofRat_of_nearest {q b : ℚ} (h : nearest q = b) (hb : |b| < 2 ^ 1024) :
    ofRat q = .fin b := by
  unfold ofRat
  rw [h, if_pos hb]

end Double

end AionPool.Lib.Binary64
