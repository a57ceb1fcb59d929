import Mathlib.Data.List.Perm.Basic
import Mathlib.Data.List.Nodup
import Mathlib.Tactic.Ring

/-!
# Brackets

The elements of a list are joined two by two, round after round, until one is left. A join may fail,
and then the bracket fails.

* `round` and `play`.
* `block h j`: what the element `j` of round `h` was made of. `AllJoins`: each pair of blocks that
  meet may meet. **`play_spec`**: this decides a bracket, and the last element stands for the list.
* `Rearranged`: the two sides of joins are exchanged. **`rearranged_unique`**,
  **`exists_rearranged`**: of all the rearrangements of a list without duplicates exactly one has
  the smaller first element on the left of each join.
-/

namespace AionPool.Lib.Bracket

/-! ## Rounds -/

section Rounds

variable {ε α : Type} (join : ℕ → α → α → Except ε α) (odd : ε)

/-- A round: an element without a partner is an error. -/
def round (h : ℕ) : List α → Except ε (List α)
  | [] => .ok []
  | [_] => .error odd
  | a :: b :: rest => do
    let c ← join h a b
    let cs ← round h rest
    return c :: cs

variable {join odd}

theorem round_cons {h : ℕ} {a b c : α} {rest cs : List α} (hjoin : join h a b = .ok c)
    (hrest : round join odd h rest = .ok cs) :
    round join odd h (a :: b :: rest) = .ok (c :: cs) := by
  rw [round, hjoin]
  change (do let cs ← round join odd h rest; return c :: cs) = _
  rw [hrest]
  rfl

theorem length_round {h : ℕ} {xs ys : List α} (hround : round join odd h xs = .ok ys) :
    xs.length = 2 * ys.length := by
  induction xs using round.induct generalizing ys with
  | case1 =>
    obtain rfl := Except.ok.inj hround
    rfl
  | case2 a => exact nomatch hround
  | case3 a b rest ih =>
    rw [round] at hround
    cases hjoin : join h a b with
    | error e => rw [hjoin] at hround; exact nomatch hround
    | ok c =>
      cases hrest : round join odd h rest with
      | error e => rw [hjoin, hrest] at hround; exact nomatch hround
      | ok cs =>
        rw [hjoin, hrest] at hround
        obtain rfl := Except.ok.inj hround
        rw [List.length_cons, List.length_cons, ih hrest, List.length_cons]
        ring

variable (join odd)

/-- Rounds are played as long as there is more than one element; the last one comes with their
number. -/
def play (h : ℕ) (xs : List α) : Except ε (ℕ × α) :=
  match xs with
  | [] => .error odd
  | [a] => .ok (h, a)
  | a :: b :: rest =>
    match hround : round join odd h (a :: b :: rest) with
    | .error e => .error e
    | .ok ys => play (h + 1) ys
termination_by xs.length
decreasing_by
  have := length_round hround
  rw [List.length_cons, List.length_cons] at *
  omega

variable {join odd}

theorem play_of_round_ok {h : ℕ} {a b : α} {rest ys : List α}
    (hround : round join odd h (a :: b :: rest) = .ok ys) :
    play join odd h (a :: b :: rest) = play join odd (h + 1) ys := by
  rw [play]
  split
  · rename_i e he
    exact nomatch hround.symm.trans he
  · rename_i ys' hys'
    rw [Except.ok.inj (hround.symm.trans hys')]

theorem play_of_round_error {h : ℕ} {a b : α} {rest : List α} {e : ε}
    (hround : round join odd h (a :: b :: rest) = .error e) :
    play join odd h (a :: b :: rest) = .error e := by
  rw [play]
  split
  · rename_i e' he'
    rw [Except.error.inj (hround.symm.trans he')]
  · rename_i ys hys
    exact nomatch hround.symm.trans hys

end Rounds

/-! ## Blocks -/

section Blocks

variable {ι : Type}

/-- The block `j` of `2 ^ h` elements. -/
def block (h j : ℕ) (is : List ι) : List ι := (is.drop (j * 2 ^ h)).take (2 ^ h)

/-- Each pair of blocks that meet, in a bracket of `k` rounds, may meet. -/
def AllJoins (Ok : ℕ → List ι → List ι → Prop) (k : ℕ) (is : List ι) : Prop :=
  ∀ h < k, ∀ j < 2 ^ (k - h - 1), Ok h (block h (2 * j) is) (block h (2 * j + 1) is)

/-- The same, from the round `h` on. -/
def JoinsFrom (Ok : ℕ → List ι → List ι → Prop) (k : ℕ) (is : List ι) (h : ℕ) : Prop :=
  ∀ h' < k, h ≤ h' → ∀ j < 2 ^ (k - h' - 1), Ok h' (block h' (2 * j) is) (block h' (2 * j + 1) is)

theorem joinsFrom_zero {Ok : ℕ → List ι → List ι → Prop} {k : ℕ} {is : List ι} :
    JoinsFrom Ok k is 0 ↔ AllJoins Ok k is :=
  ⟨fun hall h hlt => hall h hlt (Nat.zero_le h), fun hall h hlt _ => hall h hlt⟩

theorem joinsFrom_self (Ok : ℕ → List ι → List ι → Prop) (k : ℕ) (is : List ι) :
    JoinsFrom Ok k is k :=
  fun _ hlt hle => absurd hle (Nat.not_le.mpr hlt)

/-- One round and the rounds after it. -/
theorem joinsFrom_iff {Ok : ℕ → List ι → List ι → Prop} {k h : ℕ} {is : List ι} (hh : h < k) :
    JoinsFrom Ok k is h ↔
      (∀ j < 2 ^ (k - h - 1), Ok h (block h (2 * j) is) (block h (2 * j + 1) is)) ∧
        JoinsFrom Ok k is (h + 1) := by
  constructor
  · intro hall
    exact ⟨hall h hh le_rfl, fun h' hlt hle => hall h' hlt (Nat.le_of_succ_le hle)⟩
  · rintro ⟨hfirst, hrest⟩ h' hlt hle
    rcases Nat.eq_or_lt_of_le hle with rfl | hlt'
    · exact hfirst
    · exact hrest h' hlt hlt'

theorem block_append (h j : ℕ) (is : List ι) :
    block h (2 * j) is ++ block h (2 * j + 1) is = block (h + 1) j is := by
  have hsecond : is.drop ((2 * j + 1) * 2 ^ h) = (is.drop (2 * j * 2 ^ h)).drop (2 ^ h) := by
    rw [List.drop_drop]
    congr 1
    ring
  have hfirst : 2 * j * 2 ^ h = j * 2 ^ (h + 1) := by ring
  have hsize : 2 ^ (h + 1) = 2 ^ h + 2 ^ h := by ring
  unfold block
  rw [hsecond, hfirst, ← List.take_add, ← hsize]

theorem block_zero_left {k : ℕ} {is : List ι} (hlen : is.length = 2 ^ k) : block k 0 is = is := by
  unfold block
  rw [Nat.zero_mul, List.drop_zero, List.take_of_length_le hlen.le]

theorem map_block_zero {k : ℕ} {is : List ι} (hlen : is.length = 2 ^ k) :
    (List.range (2 ^ k)).map (fun j => block 0 j is) = is.map fun i => [i] := by
  refine List.ext_getElem (by simp [hlen]) fun j _ hj => ?_
  have hj : j < is.length := by simpa using hj
  rw [List.getElem_map, List.getElem_map, List.getElem_range]
  unfold block
  rw [pow_zero, Nat.mul_one, List.drop_eq_getElem_cons hj]
  rfl

theorem length_block {k h j : ℕ} {is : List ι} (hlen : is.length = 2 ^ k) (hh : h ≤ k)
    (hj : j < 2 ^ (k - h)) : (block h j is).length = 2 ^ h := by
  have hpow : 2 ^ k = 2 ^ (k - h) * 2 ^ h := by rw [← pow_add, Nat.sub_add_cancel hh]
  have hle : (j + 1) * 2 ^ h ≤ 2 ^ (k - h) * 2 ^ h := Nat.mul_le_mul_right _ hj
  rw [Nat.succ_mul] at hle
  unfold block
  rw [List.length_take, List.length_drop, hlen]
  omega

end Blocks

/-! ## The outcome of a bracket -/

section Outcome

variable {ε α ι : Type} {join : ℕ → α → α → Except ε α} {odd bad : ε}
  {Rep : ℕ → List ι → α → Prop} {Ok : ℕ → List ι → List ι → Prop}

/-- In a bracket of `k` rounds, joining what stands for two blocks decides whether they may meet. -/
def Decides (join : ℕ → α → α → Except ε α) (bad : ε) (Rep : ℕ → List ι → α → Prop)
    (Ok : ℕ → List ι → List ι → Prop) (k : ℕ) : Prop :=
  ∀ h < k, ∀ x y a b, x.length = 2 ^ h → y.length = 2 ^ h → Rep h x a → Rep h y b →
    (Ok h x y → ∃ c, join h a b = .ok c ∧ Rep (h + 1) (x ++ y) c) ∧
    (¬ Ok h x y → join h a b = .error bad)

/-- The round lemma: the blocks of one round after those of the other. -/
theorem round_spec (odd : ε) {k h : ℕ} (hjoin : Decides join bad Rep Ok k) (hh : h < k) (n : ℕ)
    (f : ℕ → List ι)
    (hlen : ∀ j < 2 * n, (f j).length = 2 ^ h) {xs : List α}
    (hxs : List.Forall₂ (Rep h) ((List.range (2 * n)).map f) xs) :
    ((∀ j < n, Ok h (f (2 * j)) (f (2 * j + 1))) →
      ∃ ys, round join odd h xs = .ok ys ∧
        List.Forall₂ (Rep (h + 1)) ((List.range n).map fun j => f (2 * j) ++ f (2 * j + 1)) ys) ∧
    (¬ (∀ j < n, Ok h (f (2 * j)) (f (2 * j + 1))) → round join odd h xs = .error bad) := by
  induction n generalizing f xs with
  | zero =>
    obtain rfl := List.forall₂_nil_left_iff.mp hxs
    refine ⟨fun _ => ⟨[], rfl, .nil⟩, fun hnot => absurd (fun j hj => ?_) hnot⟩
    exact absurd hj (Nat.not_lt_zero j)
  | succ n ih =>
    have hrange : (List.range (2 * (n + 1))).map f =
        f 0 :: f 1 :: (List.range (2 * n)).map fun j => f (j + 2) := by
      rw [Nat.mul_succ, List.range_succ_eq_map, List.map_cons, List.range_succ_eq_map,
        List.map_cons, List.map_cons, List.map_map, List.map_map]
      rfl
    rw [hrange] at hxs
    obtain ⟨a, xs', ha, hxs', rfl⟩ := List.forall₂_cons_left_iff.mp hxs
    obtain ⟨b, xs, hb, hrest, rfl⟩ := List.forall₂_cons_left_iff.mp hxs'
    obtain ⟨hgood, hbad⟩ := ih (fun j => f (j + 2)) (fun j hj => hlen (j + 2) (by omega)) hrest
    obtain ⟨hmeet, hmiss⟩ := hjoin h hh (f 0) (f 1) a b (hlen 0 (by omega))
      (hlen 1 (by omega)) ha hb
    have hsplit : (∀ j < n + 1, Ok h (f (2 * j)) (f (2 * j + 1))) ↔
        Ok h (f 0) (f 1) ∧ ∀ j < n, Ok h (f (2 * j + 2)) (f (2 * j + 1 + 2)) := by
      constructor
      · exact fun hall => ⟨hall 0 (Nat.succ_pos n), fun j hj => hall (j + 1) (Nat.succ_lt_succ hj)⟩
      · rintro ⟨hfirst, hrest⟩ (_ | j) hj
        · exact hfirst
        · exact hrest j (Nat.lt_of_succ_lt_succ hj)
    rw [hsplit]
    constructor
    · rintro ⟨hfirst, hrest⟩
      obtain ⟨c, hc, hrep⟩ := hmeet hfirst
      obtain ⟨ys, hys, hreps⟩ := hgood hrest
      refine ⟨c :: ys, round_cons hc hys, ?_⟩
      rw [List.range_succ_eq_map, List.map_cons, List.map_map]
      exact .cons hrep hreps
    · intro hnot
      by_cases hfirst : Ok h (f 0) (f 1)
      · obtain ⟨c, hc, -⟩ := hmeet hfirst
        have hrest := hbad fun hall => hnot ⟨hfirst, hall⟩
        rw [round, hc]
        change (do let cs ← round join odd h xs; return c :: cs) = _
        rw [hrest]
        rfl
      · rw [round, hmiss hfirst]
        rfl

/-- The rounds from `h` on, with `m` of them left. -/
theorem rounds_spec {k : ℕ} (hjoin : Decides join bad Rep Ok k) {is : List ι}
    (hlen : is.length = 2 ^ k) (m : ℕ) {h : ℕ} (hk : h + m = k) {xs : List α}
    (hxs : List.Forall₂ (Rep h) ((List.range (2 ^ m)).map fun j => block h j is) xs) :
    (JoinsFrom Ok k is h → ∃ r, play join odd h xs = .ok (k, r) ∧ Rep k is r) ∧
    (¬ JoinsFrom Ok k is h → play join odd h xs = .error bad) := by
  induction m generalizing h xs with
  | zero =>
    obtain rfl : h = k := hk
    obtain ⟨r, xs', hr, hxs', rfl⟩ := List.forall₂_cons_left_iff.mp hxs
    obtain rfl := List.forall₂_nil_left_iff.mp hxs'
    replace hr : Rep h (block h 0 is) r := hr
    rw [block_zero_left hlen] at hr
    exact ⟨fun _ => ⟨r, by rw [play], hr⟩, fun hnot => absurd (joinsFrom_self Ok h is) hnot⟩
  | succ m ih =>
    have hh : h < k := by omega
    have hsub : k - h - 1 = m := by omega
    rw [pow_succ, Nat.mul_comm] at hxs
    obtain ⟨hgood, hbad⟩ := round_spec odd hjoin hh (2 ^ m) (fun j => block h j is)
      (fun j hj => length_block hlen hh.le (by
        rw [show k - h = m + 1 by omega, pow_succ, Nat.mul_comm]
        exact hj)) hxs
    simp only [block_append] at hgood
    have hcount : 2 * 2 ^ m = xs.length := by
      have := hxs.length_eq
      rwa [List.length_map, List.length_range] at this
    obtain ⟨a, b, rest, rfl⟩ : ∃ a b rest, xs = a :: b :: rest := by
      have hpos := Nat.two_pow_pos m
      match xs, hcount with
      | [], hcount => exact absurd hcount (by rw [List.length_nil]; omega)
      | [_], hcount => exact absurd hcount (by rw [List.length_singleton]; omega)
      | a :: b :: rest, _ => exact ⟨a, b, rest, rfl⟩
    rw [joinsFrom_iff hh, hsub]
    by_cases hfirst : ∀ j < 2 ^ m, Ok h (block h (2 * j) is) (block h (2 * j + 1) is)
    · obtain ⟨ys, hys, hreps⟩ := hgood hfirst
      obtain ⟨hrest, hmiss⟩ := ih (by omega) hreps
      rw [play_of_round_ok hys]
      exact ⟨fun hall => hrest hall.2, fun hnot => hmiss fun hall => hnot ⟨hfirst, hall⟩⟩
    · rw [play_of_round_error (hbad hfirst)]
      exact ⟨fun hall => absurd hall.1 hfirst, fun _ => rfl⟩

/-- **A bracket** of `2 ^ k` elements succeeds if each pair of blocks that meet may meet, and then
the last element stands for all of them; otherwise it fails as the join does. -/
theorem play_spec {k : ℕ} (hjoin : Decides join bad Rep Ok k) {is : List ι}
    (hlen : is.length = 2 ^ k)
    {leaves : List α} (hleaves : List.Forall₂ (fun i a => Rep 0 [i] a) is leaves) :
    (AllJoins Ok k is → ∃ r, play join odd 0 leaves = .ok (k, r) ∧ Rep k is r) ∧
    (¬ AllJoins Ok k is → play join odd 0 leaves = .error bad) := by
  have hstart : List.Forall₂ (Rep 0) ((List.range (2 ^ k)).map fun j => block 0 j is) leaves := by
    rw [map_block_zero hlen, List.forall₂_map_left_iff]
    exact hleaves
  rw [← joinsFrom_zero]
  exact rounds_spec hjoin hlen k (Nat.zero_add k) hstart

end Outcome

/-! ## Halves -/

section Halves

variable {ι : Type} {k : ℕ} {xs ys : List ι}

theorem block_append_left (hx : xs.length = 2 ^ k) {h j : ℕ} (hh : h ≤ k) (hj : j < 2 ^ (k - h)) :
    block h j (xs ++ ys) = block h j xs := by
  have hpow : 2 ^ k = 2 ^ (k - h) * 2 ^ h := by rw [← pow_add, Nat.sub_add_cancel hh]
  have hle : j * 2 ^ h + 2 ^ h ≤ xs.length := by
    rw [hx, hpow, ← Nat.succ_mul]
    exact Nat.mul_le_mul_right _ hj
  unfold block
  rw [List.drop_append_of_le_length ((Nat.le_add_right _ _).trans hle),
    List.take_append_of_le_length]
  rw [List.length_drop]
  exact Nat.le_sub_of_add_le' hle

theorem block_append_right (hx : xs.length = 2 ^ k) (ys : List ι) {h : ℕ} (hh : h ≤ k) (j : ℕ) :
    block h (2 ^ (k - h) + j) (xs ++ ys) = block h j ys := by
  have hpow : 2 ^ k = 2 ^ (k - h) * 2 ^ h := by rw [← pow_add, Nat.sub_add_cancel hh]
  unfold block
  rw [Nat.add_mul, ← hpow, ← hx, List.drop_length_add_append]

theorem block_zero_append (hx : xs.length = 2 ^ k) : block k 0 (xs ++ ys) = xs := by
  rw [block_append_left hx le_rfl (Nat.two_pow_pos _), block_zero_left hx]

theorem block_one_append (hx : xs.length = 2 ^ k) (hy : ys.length = 2 ^ k) :
    block k 1 (xs ++ ys) = ys := by
  have := block_append_right hx ys le_rfl 0
  rwa [Nat.sub_self, pow_zero, Nat.add_zero, block_zero_left hy] at this

variable {Ok : ℕ → List ι → List ι → Prop}

/-- A bracket is one of either half, and the last join. -/
theorem allJoins_append (hx : xs.length = 2 ^ k) (hy : ys.length = 2 ^ k) :
    AllJoins Ok (k + 1) (xs ++ ys) ↔ AllJoins Ok k xs ∧ AllJoins Ok k ys ∧ Ok k xs ys := by
  -- the blocks of a round but the last one are those of the halves
  have hleft : ∀ h < k, ∀ j < 2 ^ (k - h - 1),
      block h (2 * j) (xs ++ ys) = block h (2 * j) xs ∧
      block h (2 * j + 1) (xs ++ ys) = block h (2 * j + 1) xs := by
    intro h hh j hj
    have hsize : 2 ^ (k - h) = 2 * 2 ^ (k - h - 1) := by
      rw [← pow_succ']
      congr 1
      omega
    exact ⟨block_append_left hx hh.le (by omega), block_append_left hx hh.le (by omega)⟩
  have hright : ∀ h < k, ∀ j,
      block h (2 * (2 ^ (k - h - 1) + j)) (xs ++ ys) = block h (2 * j) ys ∧
      block h (2 * (2 ^ (k - h - 1) + j) + 1) (xs ++ ys) = block h (2 * j + 1) ys := by
    intro h hh j
    have hsize : 2 * (2 ^ (k - h - 1) + j) = 2 ^ (k - h) + 2 * j := by
      rw [Nat.mul_add, ← pow_succ']
      congr 2
      omega
    rw [hsize, Nat.add_assoc]
    exact ⟨block_append_right hx ys hh.le _, block_append_right hx ys hh.le _⟩
  have hlast : block k (2 * 0) (xs ++ ys) = xs ∧ block k (2 * 0 + 1) (xs ++ ys) = ys :=
    ⟨block_zero_append hx, block_one_append hx hy⟩
  constructor
  · intro hall
    refine ⟨fun h hh j hj => ?_, fun h hh j hj => ?_, ?_⟩
    · have := hall h (by omega) j (hj.trans_le (Nat.pow_le_pow_right (by decide) (by omega)))
      rwa [(hleft h hh j hj).1, (hleft h hh j hj).2] at this
    · have hsize : 2 ^ (k + 1 - h - 1) = 2 ^ (k - h - 1) + 2 ^ (k - h - 1) := by
        rw [← Nat.two_mul, ← pow_succ']
        congr 1
        omega
      have := hall h (by omega) (2 ^ (k - h - 1) + j) (by omega)
      rwa [(hright h hh j).1, (hright h hh j).2] at this
    · have := hall k (Nat.lt_succ_self k) 0 (Nat.two_pow_pos _)
      rwa [hlast.1, hlast.2] at this
  · rintro ⟨hxs, hys, hmeet⟩ h hh j hj
    rcases Nat.eq_or_lt_of_le (Nat.le_of_lt_succ hh) with rfl | hlt
    · obtain rfl : j = 0 := by
        rw [Nat.add_sub_cancel_left, Nat.sub_self, pow_zero] at hj
        exact Nat.lt_one_iff.mp hj
      rwa [hlast.1, hlast.2]
    · by_cases hhalf : j < 2 ^ (k - h - 1)
      · rw [(hleft h hlt j hhalf).1, (hleft h hlt j hhalf).2]
        exact hxs h hlt j hhalf
      · have hsize : 2 ^ (k + 1 - h - 1) = 2 ^ (k - h - 1) + 2 ^ (k - h - 1) := by
          rw [← Nat.two_mul, ← pow_succ']
          congr 1
          omega
        obtain ⟨i, rfl⟩ := Nat.exists_eq_add_of_le (Nat.not_lt.mp hhalf)
        rw [(hright h hlt i).1, (hright h hlt i).2]
        exact hys h hlt i (by omega)

theorem AllJoins.and {Ok' : ℕ → List ι → List ι → Prop} :
    AllJoins (fun h x y => Ok h x y ∧ Ok' h x y) k xs ↔ AllJoins Ok k xs ∧ AllJoins Ok' k xs :=
  ⟨fun h => ⟨fun i hi j hj => (h i hi j hj).1, fun i hi j hj => (h i hi j hj).2⟩,
    fun h i hi j hj => ⟨h.1 i hi j hj, h.2 i hi j hj⟩⟩

/-- That the elements are distinct is checked when two blocks meet. -/
theorem allJoins_nodup (hx : xs.length = 2 ^ k) :
    AllJoins (fun _ x y => (x ++ y).Nodup) k xs ↔ xs.Nodup := by
  constructor
  · intro hall
    rcases k with _ | k
    · obtain ⟨a, rfl⟩ := List.length_eq_one_iff.mp hx
      exact List.nodup_singleton a
    · have := hall k (Nat.lt_succ_self k) 0 (Nat.two_pow_pos _)
      dsimp only at this
      rwa [block_append, block_zero_left hx] at this
  · intro hnodup h _ j _
    rw [block_append]
    exact hnodup.sublist ((List.take_sublist _ _).trans (List.drop_sublist _ _))

end Halves

/-! ## Rearrangements -/

section Rearrangements

variable {ι : Type}

/-- The sides of some joins are exchanged. -/
inductive Rearranged : ℕ → List ι → List ι → Prop
  | leaf (i : ι) : Rearranged 0 [i] [i]
  | keep {k : ℕ} {xs ys xs' ys' : List ι} : Rearranged k xs xs' → Rearranged k ys ys' →
      Rearranged (k + 1) (xs ++ ys) (xs' ++ ys')
  | swap {k : ℕ} {xs ys xs' ys' : List ι} : Rearranged k xs xs' → Rearranged k ys ys' →
      Rearranged (k + 1) (xs ++ ys) (ys' ++ xs')

namespace Rearranged

variable {k : ℕ} {is js : List ι}

theorem perm (h : Rearranged k is js) : is.Perm js := by
  induction h with
  | leaf i => exact .refl _
  | keep _ _ ihx ihy => exact ihx.append ihy
  | swap _ _ ihx ihy => exact (ihx.append ihy).trans List.perm_append_comm

theorem length_left (h : Rearranged k is js) : is.length = 2 ^ k := by
  induction h with
  | leaf i => rfl
  | keep _ _ ihx ihy => rw [List.length_append, ihx, ihy, pow_succ, Nat.mul_two]
  | swap _ _ ihx ihy => rw [List.length_append, ihx, ihy, pow_succ, Nat.mul_two]

theorem symm (h : Rearranged k is js) : Rearranged k js is := by
  induction h with
  | leaf i => exact .leaf i
  | keep _ _ ihx ihy => exact .keep ihx ihy
  | swap _ _ ihx ihy => exact .swap ihy ihx

theorem length_right (h : Rearranged k is js) : js.length = 2 ^ k := by
  rw [← h.perm.length_eq, h.length_left]

/-- A condition that depends on what meets, not on the order, is kept. -/
theorem allJoins {Ok : ℕ → List ι → List ι → Prop}
    (hperm : ∀ h x y x' y', x.Perm x' → y.Perm y' → (Ok h x y ↔ Ok h x' y'))
    (hsymm : ∀ h x y, Ok h x y ↔ Ok h y x) (h : Rearranged k is js) :
    AllJoins Ok k is ↔ AllJoins Ok k js := by
  induction h with
  | leaf i => exact Iff.rfl
  | keep hx hy ihx ihy =>
    rw [allJoins_append hx.length_left hy.length_left, allJoins_append hx.length_right
      hy.length_right, ihx, ihy, hperm _ _ _ _ _ hx.perm hy.perm]
  | swap hx hy ihx ihy =>
    rw [allJoins_append hx.length_left hy.length_left, allJoins_append hy.length_right
      hx.length_right, ihx, ihy, hperm _ _ _ _ _ hx.perm hy.perm, hsymm]
    tauto

end Rearranged

variable [LT ι]

/-- The first element of one list is smaller than that of the other. -/
def HeadLt (xs ys : List ι) : Prop := ∃ a ∈ xs.head?, ∃ b ∈ ys.head?, a < b

theorem HeadLt.asymm [Std.Asymm (LT.lt : ι → ι → Prop)] {xs ys : List ι} (h : HeadLt xs ys) :
    ¬ HeadLt ys xs := by
  rintro ⟨b, hb, a, ha, hlt⟩
  obtain ⟨a', ha', b', hb', hlt'⟩ := h
  obtain rfl := Option.mem_unique ha ha'
  obtain rfl := Option.mem_unique hb hb'
  exact Std.Asymm.asymm _ _ hlt hlt'

/-- Lists without a common element are ordered one way or the other. -/
theorem headLt_or_headLt [Std.Trichotomous (LT.lt : ι → ι → Prop)] {xs ys : List ι} (hx : xs ≠ [])
    (hy : ys ≠ []) (h : xs.Disjoint ys) :
    HeadLt xs ys ∨ HeadLt ys xs := by
  obtain ⟨a, xs, rfl⟩ := List.exists_cons_of_ne_nil hx
  obtain ⟨b, ys, rfl⟩ := List.exists_cons_of_ne_nil hy
  have hne : a ≠ b := fun heq => h List.mem_cons_self (heq ▸ List.mem_cons_self)
  rcases Std.lt_trichotomy a b with hlt | heq | hlt
  · exact .inl ⟨a, rfl, b, rfl, hlt⟩
  · exact absurd heq hne
  · exact .inr ⟨b, rfl, a, rfl, hlt⟩

/-- Each left block has the smaller first element. -/
def Ordered (k : ℕ) (is : List ι) : Prop := AllJoins (fun _ x y => HeadLt x y) k is

omit [LT ι] in
theorem exists_halves {k : ℕ} {is : List ι} (hlen : is.length = 2 ^ (k + 1)) :
    ∃ xs ys, is = xs ++ ys ∧ xs.length = 2 ^ k :=
  ⟨is.take (2 ^ k), is.drop (2 ^ k), (List.take_append_drop _ _).symm, by
    rw [List.length_take, hlen, pow_succ]
    omega⟩

/-- A list without duplicates has an ordered rearrangement. -/
theorem exists_rearranged [Std.Trichotomous (LT.lt : ι → ι → Prop)] {k : ℕ} {is : List ι}
    (hlen : is.length = 2 ^ k) (hnodup : is.Nodup) :
    ∃ js, Rearranged k is js ∧ Ordered k js := by
  induction k generalizing is with
  | zero =>
    obtain ⟨i, rfl⟩ := List.length_eq_one_iff.mp hlen
    exact ⟨[i], .leaf i, fun h hh => absurd hh (Nat.not_lt_zero h)⟩
  | succ k ih =>
    obtain ⟨xs, ys, rfl, hx⟩ := exists_halves hlen
    have hy : ys.length = 2 ^ k := by
      rw [List.length_append, hx, pow_succ] at hlen
      omega
    obtain ⟨hxn, hyn, hdisjoint⟩ := List.nodup_append'.mp hnodup
    obtain ⟨xs', hxs, hxo⟩ := ih hx hxn
    obtain ⟨ys', hys, hyo⟩ := ih hy hyn
    have hne : ∀ {zs : List ι}, zs.length = 2 ^ k → zs ≠ [] := fun hz hnil =>
      absurd (Nat.two_pow_pos k) (by rw [← hz, hnil, List.length_nil]; exact lt_irrefl 0)
    have hdisjoint' : xs'.Disjoint ys' := fun a ha hb =>
      hdisjoint (hxs.perm.mem_iff.mpr ha) (hys.perm.mem_iff.mpr hb)
    rcases headLt_or_headLt (hne hxs.length_right) (hne hys.length_right) hdisjoint' with hlt | hlt
    · exact ⟨xs' ++ ys', .keep hxs hys,
        (allJoins_append hxs.length_right hys.length_right).mpr ⟨hxo, hyo, hlt⟩⟩
    · exact ⟨ys' ++ xs', .swap hxs hys,
        (allJoins_append hys.length_right hxs.length_right).mpr ⟨hyo, hxo, hlt⟩⟩

omit [LT ι] in
theorem Rearranged.of_append {k : ℕ} {xs ys js : List ι} (h : Rearranged (k + 1) (xs ++ ys) js)
    (hx : xs.length = 2 ^ k) :
    ∃ xs' ys', Rearranged k xs xs' ∧ Rearranged k ys ys' ∧ (js = xs' ++ ys' ∨ js = ys' ++ xs') := by
  generalize his : xs ++ ys = is at h
  cases h with
  | keep hxs hys =>
    obtain ⟨rfl, rfl⟩ := List.append_inj his (hx.trans hxs.length_left.symm)
    exact ⟨_, _, hxs, hys, .inl rfl⟩
  | swap hxs hys =>
    obtain ⟨rfl, rfl⟩ := List.append_inj his (hx.trans hxs.length_left.symm)
    exact ⟨_, _, hxs, hys, .inr rfl⟩

/-- An ordered rearrangement is made of ordered rearrangements of the halves. -/
theorem Rearranged.ordered_halves {k : ℕ} {xs ys js : List ι}
    (h : Rearranged (k + 1) (xs ++ ys) js) (hx : xs.length = 2 ^ k) (ho : Ordered (k + 1) js) :
    ∃ xs' ys', (Rearranged k xs xs' ∧ Ordered k xs') ∧ (Rearranged k ys ys' ∧ Ordered k ys') ∧
      (js = xs' ++ ys' ∧ HeadLt xs' ys' ∨ js = ys' ++ xs' ∧ HeadLt ys' xs') := by
  rcases h.of_append hx with ⟨xs', ys', hxs, hys, rfl | rfl⟩
  · obtain ⟨hxo, hyo, hlt⟩ := (allJoins_append hxs.length_right hys.length_right).mp ho
    exact ⟨xs', ys', ⟨hxs, hxo⟩, ⟨hys, hyo⟩, .inl ⟨rfl, hlt⟩⟩
  · obtain ⟨hyo, hxo, hlt⟩ := (allJoins_append hys.length_right hxs.length_right).mp ho
    exact ⟨xs', ys', ⟨hxs, hxo⟩, ⟨hys, hyo⟩, .inr ⟨rfl, hlt⟩⟩

/-- Of the rearrangements of a list at most one is ordered. -/
theorem rearranged_unique [Std.Asymm (LT.lt : ι → ι → Prop)] {k : ℕ} {is js js' : List ι}
    (h : Rearranged k is js) (h' : Rearranged k is js') (ho : Ordered k js) (ho' : Ordered k js') :
    js = js' := by
  induction k generalizing is js js' with
  | zero =>
    cases h
    cases h'
    rfl
  | succ k ih =>
    obtain ⟨xs, ys, rfl, hx⟩ := exists_halves h.length_left
    obtain ⟨xs₁, ys₁, ⟨hx₁, hxo₁⟩, ⟨hy₁, hyo₁⟩, hcase⟩ := h.ordered_halves hx ho
    obtain ⟨xs₂, ys₂, ⟨hx₂, hxo₂⟩, ⟨hy₂, hyo₂⟩, hcase'⟩ := h'.ordered_halves hx ho'
    obtain rfl := ih hx₁ hx₂ hxo₁ hxo₂
    obtain rfl := ih hy₁ hy₂ hyo₁ hyo₂
    rcases hcase with ⟨rfl, hlt⟩ | ⟨rfl, hlt⟩
    · rcases hcase' with ⟨rfl, -⟩ | ⟨-, hgt⟩
      · rfl
      · exact absurd hgt hlt.asymm
    · rcases hcase' with ⟨-, hgt⟩ | ⟨rfl, -⟩
      · exact absurd hgt hlt.asymm
      · rfl

end Rearrangements

end AionPool.Lib.Bracket
