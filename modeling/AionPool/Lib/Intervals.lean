import Mathlib.Data.List.MinMax
import Mathlib.Order.BoundedOrder.Basic

/-!
# Consecutive open intervals

A finite family of points cuts what lies below its greatest point into intervals: the one that ends
at a point starts at the greatest point before it, or at the bottom.

* `IsStart`: where the interval of a point starts.
* **`existsUnique_interval_iff`**: a value lies in exactly one of the open intervals if it is
  neither the bottom nor one of the points, which no open interval contains.
-/

namespace AionPool.Lib.Intervals

variable {ι T : Type*} [LinearOrder T] [OrderBot T]

/-- `start` is the greatest point before `stop i`, or the bottom if there is none. -/
structure IsStart (stop : ι → T) (l : List ι) (start : T) (i : ι) : Prop where
  point : start = ⊥ ∨ ∃ j ∈ l, stop j = start ∧ stop j < stop i
  greatest : ∀ j ∈ l, stop j < stop i → stop j ≤ start

variable {stop start : ι → T} {l : List ι}

/-- A point is in no interval: the interval of a later point starts there or after it. -/
theorem not_mem_interval (hstart : ∀ i ∈ l, IsStart stop l (start i) i) {i j : ι} (hi : i ∈ l)
    (hj : j ∈ l) : ¬ (start i < stop j ∧ stop j < stop i) := fun ⟨hlow, hhigh⟩ =>
  absurd ((hstart i hi).greatest j hj hhigh) (not_le_of_gt hlow)

omit [OrderBot T] in
/-- Of a finite family some points are at or after `x`, and one of these is the first. -/
theorem exists_first (x : T) (hx : ∃ i ∈ l, x ≤ stop i) :
    ∃ i ∈ l, x ≤ stop i ∧ ∀ j ∈ l, x ≤ stop j → stop i ≤ stop j := by
  obtain ⟨i, hi, hxi⟩ := hx
  have hne : l.filter (fun i => x ≤ stop i) ≠ [] :=
    List.ne_nil_of_mem (List.mem_filter.mpr ⟨hi, decide_eq_true hxi⟩)
  obtain ⟨m, hm⟩ := Option.ne_none_iff_exists'.mp fun h =>
    hne (List.argmin_eq_none (f := stop).mp h)
  obtain ⟨hml, hxm⟩ := List.mem_filter.mp (List.argmin_mem hm)
  refine ⟨m, hml, of_decide_eq_true hxm, fun j hj hxj => ?_⟩
  exact List.le_of_mem_argmin (List.mem_filter.mpr ⟨hj, decide_eq_true hxj⟩) hm

/-- **One interval for each value**, except the bottom and the points themselves. -/
theorem existsUnique_interval_iff (hinj : ∀ i ∈ l, ∀ j ∈ l, stop i = stop j → i = j)
    (hstart : ∀ i ∈ l, IsStart stop l (start i) i) {x : T} (hx : ∃ i ∈ l, x ≤ stop i) :
    (∃! i, i ∈ l ∧ start i < x ∧ x < stop i) ↔ x ≠ ⊥ ∧ ∀ i ∈ l, x ≠ stop i := by
  constructor
  · rintro ⟨i, ⟨hi, hlow, hhigh⟩, _⟩
    refine ⟨(bot_le.trans_lt hlow).ne', fun j hj hxj => ?_⟩
    rw [hxj] at hlow hhigh
    exact not_mem_interval hstart hi hj ⟨hlow, hhigh⟩
  · rintro ⟨hbot, hne⟩
    obtain ⟨i, hi, hxi, hfirst⟩ := exists_first x hx
    have hlow : start i < x := by
      rcases (hstart i hi).point with h | ⟨j, hj, hji, hlt⟩
      · rw [h]
        exact bot_lt_iff_ne_bot.mpr hbot
      · rw [← hji]
        exact not_le.mp fun hxj => absurd (hfirst j hj hxj) (not_le_of_gt hlt)
    refine ⟨i, ⟨hi, hlow, lt_of_le_of_ne hxi (hne i hi)⟩, ?_⟩
    rintro j ⟨hj, hlowj, hhighj⟩
    rcases (hfirst j hj hhighj.le).lt_or_eq with hlt | heq
    · -- then the interval of `j` starts at `i` or later, after `x`
      exact absurd (hxi.trans ((hstart j hj).greatest i hi hlt)) (not_le_of_gt hlowj)
    · exact (hinj i hi j hj heq).symm

end AionPool.Lib.Intervals
