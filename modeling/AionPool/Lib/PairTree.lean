import Mathlib.Data.List.Basic

/-!
# Trees of pairs

The root of a list: each level joins its elements in pairs, the last one of an odd level with
itself, until one element is left.

* `level`: one level up; `length_level`.
* `root`: what is left of a list that is not empty.
* `branch xs`: what the first element of a list is joined with on its way up, when `xs` are the
  others. **`root_cons`**: this is all that is needed of them.
-/

namespace AionPool.Lib.PairTree

variable {α : Type} (join : α → α → α)

/-- One level up. -/
def level : List α → List α
  | [] => []
  | [a] => [join a a]
  | a :: b :: rest => join a b :: level rest

theorem length_level (xs : List α) : (level join xs).length = (xs.length + 1) / 2 := by
  induction xs using level.induct with
  | case1 => simp [level]
  | case2 a => simp [level]
  | case3 a b rest ih =>
    rw [level, List.length_cons, ih, List.length_cons, List.length_cons]
    omega

/-- The last element of an odd level is joined with itself. -/
theorem level_append_getLast {xs : List α} {last : α} (hodd : xs.length % 2 = 1)
    (hlast : xs.getLast? = some last) : level join (xs ++ [last]) = level join xs := by
  induction xs using level.induct with
  | case1 => exact nomatch hlast
  | case2 a =>
    obtain rfl := Option.some.inj hlast
    rfl
  | case3 a b rest ih =>
    simp only [List.length_cons] at hodd
    have hne : rest ≠ [] := by
      rintro rfl
      exact absurd hodd (by simp)
    have hrest : rest.getLast? = some last := by
      rw [← hlast, List.getLast?_cons_of_ne_nil (List.cons_ne_nil b rest),
        List.getLast?_cons_of_ne_nil hne]
    rw [List.cons_append, List.cons_append, level, level, ih (by omega) hrest]

/-- The root of a list. -/
def root : List α → Option α
  | [] => none
  | [a] => some a
  | a :: b :: rest => root (level join (a :: b :: rest))
termination_by xs => xs.length
decreasing_by
  rw [length_level, List.length_cons, List.length_cons]
  omega

/-- The partners of the first element, level by level. -/
def branch : List α → List α
  | [] => []
  | a :: rest => a :: branch (level join rest)
termination_by xs => xs.length
decreasing_by
  rw [length_level, List.length_cons]
  omega

/-- **The branch gives the root**, whatever the first element is. -/
theorem root_cons (a : α) (xs : List α) :
    root join (a :: xs) = some ((branch join xs).foldl join a) := by
  induction xs using branch.induct join generalizing a with
  | case1 => rw [root, branch, List.foldl_nil]
  | case2 b rest ih => rw [root, level, ih, branch, List.foldl_cons]

end AionPool.Lib.PairTree
