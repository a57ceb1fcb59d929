import AionPool.Lib.Binary64

/-!
# Arithmetic with a rounding of its own

The operations of binary64 take the rounding as a parameter: with `Double.ofRat` they are those of
IEEE 754, with `Double.fin` they are exact, and only a division by zero leaves the rationals. What
is proved for every rounding holds of both.

`le?` is the order of `CompareTo`, in which NaN is below every value.
-/

namespace AionPool.Lib.Binary64.Double

variable (rnd : ℚ → Double)

def neg : Double → Double
  | .nan => .nan
  | .inf s => .inf (!s)
  | .fin q => .fin (-q)

def abs : Double → Double
  | .nan => .nan
  | .inf _ => .inf false
  | .fin q => .fin |q|

def add : Double → Double → Double
  | .nan, _ | _, .nan => .nan
  | .inf s, .inf t => if s = t then .inf s else .nan
  | .inf s, .fin _ => .inf s
  | .fin _, .inf t => .inf t
  | .fin a, .fin b => rnd (a + b)

def sub (x y : Double) : Double := add rnd x (neg y)

def mul : Double → Double → Double
  | .nan, _ | _, .nan => .nan
  | .inf s, .inf t => .inf (s ^^ t)
  | .inf s, .fin b => if b = 0 then .nan else .inf (s ^^ decide (b < 0))
  | .fin a, .inf t => if a = 0 then .nan else .inf (t ^^ decide (a < 0))
  | .fin a, .fin b => rnd (a * b)

/-- Division, every zero divisor taken as the positive one. -/
def quot : Double → Double → Double
  | .nan, _ | _, .nan => .nan
  | .inf _, .inf _ => .nan
  | .inf s, .fin b => .inf (s ^^ decide (b < 0))
  | .fin _, .inf _ => .fin 0
  | .fin a, .fin b =>
    if b = 0 then (if a = 0 then .nan else .inf (decide (a < 0))) else rnd (a / b)

/-- The larger of two values, NaN when either is. -/
def max (x y : Double) : Double :=
  match x, y with
  | .nan, _ | _, .nan => .nan
  | x, y => if lt x y then y else x

/-- The order of `CompareTo`. -/
def le? : Double → Double → Bool
  | .nan, _ => true
  | _, .nan => false
  | x, y => le x y

/-- The sum of a list, from the left. -/
def sum (xs : List Double) : Double := xs.foldl (add rnd) (.fin 0)

/-- The least integer that is not below a value. -/
def ceil : Double → Double
  | .fin q => .fin ⌈q⌉
  | x => x

/-- `double.MaxValue`. -/
def maxValue : Double := .fin ((2 ^ 53 - 1) * 2 ^ 971)

variable (a b : ℚ)

@[simp] theorem lt_fin : lt (.fin a) (.fin b) = decide (a < b) := rfl
@[simp] theorem le_fin : le (.fin a) (.fin b) = decide (a ≤ b) := rfl
@[simp] theorem le?_fin : le? (.fin a) (.fin b) = decide (a ≤ b) := rfl
@[simp] theorem abs_fin : abs (.fin a) = .fin |a| := rfl
@[simp] theorem add_fin : add rnd (.fin a) (.fin b) = rnd (a + b) := rfl
@[simp] theorem sub_fin : sub rnd (.fin a) (.fin b) = rnd (a - b) := by
  rw [sub_eq_add_neg]
  rfl
@[simp] theorem mul_fin : mul rnd (.fin a) (.fin b) = rnd (a * b) := rfl

variable {a b}

theorem max_fin : max (.fin a) (.fin b) = .fin (Max.max a b) := by
  unfold max
  dsimp only
  by_cases h : lt (.fin a) (.fin b) = true
  · rw [if_pos h, max_eq_right (of_decide_eq_true h).le]
  · rw [if_neg h, max_eq_left (not_lt.mp fun hlt => h (decide_eq_true hlt))]

theorem quot_fin (h : b ≠ 0) : quot rnd (.fin a) (.fin b) = rnd (a / b) := if_neg h

theorem sum_concat (xs : List Double) (x : Double) :
    sum rnd (xs ++ [x]) = add rnd (sum rnd xs) x := by
  unfold sum
  rw [List.foldl_append]
  rfl

/-- A value that is below or above another is not NaN. -/
theorem ne_nan_of_lt {x y : Double} (h : lt x y = true) : x ≠ .nan ∧ y ≠ .nan := by
  constructor
  · rintro rfl
    exact nomatch h
  · rintro rfl
    cases x <;> exact nomatch h

end AionPool.Lib.Binary64.Double
