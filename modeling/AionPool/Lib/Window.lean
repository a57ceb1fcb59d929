import Mathlib.Algebra.Order.Group.MinMax
import Mathlib.Algebra.BigOperators.Group.List.Basic
import Mathlib.Algebra.Order.BigOperators.Group.List
import Mathlib.Data.List.Basic
import Mathlib.Tactic.Abel

/-!
# Filling a window from a list of scores

Scores are laid end to end from `0` and fill a window `[0, w]`. The score that reaches the end of
the window crosses it and counts only up to the end; what comes later counts nothing.

* `part w a x` is what a score `x` laid at `a` covers of the window; `part_of_le`,
  `part_of_crosses` and `part_of_past` are its three cases.
* `keyPart` adds up the parts of the elements with one key.
* `crossing?` is the element that crosses; **`crossing?_isSome_iff`** says when there is one.
-/

namespace AionPool.Lib.Window

variable {V : Type*} [AddCommGroup V] [LinearOrder V] [IsOrderedAddMonoid V]

/-- What a score `x` laid at `a` covers of the window `[0, w]`. -/
def part (w a x : V) : V := min w (a + x) - min w a

/-- A score inside the window counts whole. -/
theorem part_of_le {w a x : V} (hx : 0 ≤ x) (h : a + x ≤ w) : part w a x = x := by
  unfold part
  rw [min_eq_right h, min_eq_right ((le_add_of_nonneg_right hx).trans h), add_sub_cancel_left]

omit [IsOrderedAddMonoid V] in
/-- The crossing score counts up to the end of the window. -/
theorem part_of_crosses {w a x : V} (ha : a ≤ w) (h : w ≤ a + x) : part w a x = w - a := by
  unfold part
  rw [min_eq_left h, min_eq_right ha]

/-- Past the end of the window nothing counts. -/
theorem part_of_past {w a x : V} (hx : 0 ≤ x) (h : w ≤ a) : part w a x = 0 := by
  unfold part
  rw [min_eq_left h, min_eq_left (h.trans (le_add_of_nonneg_right hx)), sub_self]

section Lists

variable {α K : Type*} [DecidableEq K] (score : α → V) (w : V)

/-- What the elements with key `k` cover of the window when the list is laid from `a` on. -/
def keyPart (key : α → K) (k : K) : V → List α → V
  | _, [] => 0
  | a, x :: xs =>
    (if key x = k then part w a (score x) else 0) + keyPart key k (a + score x) xs

/-- The element at which the list, laid from `a` on, reaches the end of the window. -/
def crossing? : V → List α → Option α
  | _, [] => none
  | a, x :: xs => if w ≤ a + score x then some x else crossing? (a + score x) xs

variable {score w}

/-- A list laid past the end of the window fills nothing. -/
theorem keyPart_of_past (key : α → K) (k : K) {a : V} {xs : List α}
    (h : ∀ x ∈ xs, 0 ≤ score x) (ha : w ≤ a) : keyPart score w key k a xs = 0 := by
  induction xs generalizing a with
  | nil => rfl
  | cons x xs ih =>
    have hx := h x List.mem_cons_self
    have hxs : ∀ y ∈ xs, 0 ≤ score y := fun y hy => h y (List.mem_cons_of_mem x hy)
    rw [keyPart, part_of_past hx ha, ite_self, zero_add]
    exact ih hxs (ha.trans (le_add_of_nonneg_right hx))

omit [DecidableEq K] in
/-- Some element crosses iff there is one and the scores reach the end of the window. -/
theorem crossing?_isSome_iff {a : V} {xs : List α} (h : ∀ x ∈ xs, 0 ≤ score x) :
    (crossing? score w a xs).isSome ↔ xs ≠ [] ∧ w ≤ a + (xs.map score).sum := by
  induction xs generalizing a with
  | nil => simp [crossing?]
  | cons x xs ih =>
    have hx := h x List.mem_cons_self
    have hxs : ∀ y ∈ xs, 0 ≤ score y := fun y hy => h y (List.mem_cons_of_mem x hy)
    have hsum : 0 ≤ (xs.map score).sum := List.sum_nonneg fun v hv => by
      obtain ⟨y, hy, rfl⟩ := List.mem_map.mp hv
      exact hxs y hy
    simp only [crossing?, List.map_cons, List.sum_cons, ← add_assoc]
    split
    · rename_i hc
      simp [hc.trans (le_add_of_nonneg_right hsum)]
    · rename_i hc
      rw [ih hxs]
      constructor
      · rintro ⟨-, hw⟩
        exact ⟨List.cons_ne_nil x xs, hw⟩
      · rintro ⟨-, hw⟩
        refine ⟨fun hnil => hc ?_, hw⟩
        simpa [hnil] using hw

omit [IsOrderedAddMonoid V] [DecidableEq K] in
theorem mem_of_crossing? {a : V} {xs : List α} {c : α} (h : crossing? score w a xs = some c) :
    c ∈ xs := by
  induction xs generalizing a with
  | nil => simp [crossing?] at h
  | cons x xs ih =>
    rw [crossing?] at h
    split at h
    · rw [Option.some.inj h]
      exact List.mem_cons_self
    · exact List.mem_cons_of_mem x (ih h)

omit [IsOrderedAddMonoid V] [DecidableEq K] in
/-- In a list of descending keys, the elements below the crossing one are not needed. -/
theorem crossing?_filter {κ : Type*} [LinearOrder κ] {key : α → κ} {a : V} {xs : List α} {c : α}
    (hs : xs.Pairwise fun x y => key y ≤ key x) (h : crossing? score w a xs = some c) :
    crossing? score w a (xs.filter fun x => key c ≤ key x) = some c := by
  induction xs generalizing a with
  | nil => simp [crossing?] at h
  | cons x xs ih =>
    obtain ⟨hx, hxs⟩ := List.pairwise_cons.mp hs
    rw [crossing?] at h
    split at h
    · rename_i hc
      obtain rfl := Option.some.inj h
      rw [List.filter_cons_of_pos (by simp), crossing?, if_pos hc]
    · rename_i hc
      rw [List.filter_cons_of_pos (by simpa using hx c (mem_of_crossing? h)), crossing?, if_neg hc]
      exact ih hxs h

end Lists

end AionPool.Lib.Window
