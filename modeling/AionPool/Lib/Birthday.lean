import AionPool.Lib.Bracket
import Mathlib.Data.Nat.Bitwise

/-!
# The generalized birthday problem

Each index has a hash value of `w * (k + 1)` bits. A solution is `2 ^ k` different indices whose
hash values cancel out, and they do so in the way they were found: where two blocks of a bracket
meet, `w` more of the leading bits cancel out.

* `IsSolution.of_rearranged`: which side of a join a block is on makes no difference.
* **`existsUnique_ordered`**: when the left block of each join has to have the smaller first index,
  the rearrangements of a solution have one representative.
-/

namespace AionPool.Lib.Birthday

open AionPool.Lib.Bracket

variable {ι : Type} (hash : ι → ℕ)

/-- The exclusive or of the hash values. -/
def total (is : List ι) : ℕ := is.foldr (fun i n => hash i ^^^ n) 0

@[simp] theorem total_singleton (i : ι) : total hash [i] = hash i := Nat.xor_zero _

theorem total_append (is js : List ι) :
    total hash (is ++ js) = total hash is ^^^ total hash js := by
  induction is with
  | nil => exact (Nat.zero_xor _).symm
  | cons i is ih =>
    change hash i ^^^ total hash (is ++ js) = hash i ^^^ total hash is ^^^ total hash js
    rw [ih, Nat.xor_assoc]

theorem total_perm {is js : List ι} (h : is.Perm js) : total hash is = total hash js :=
  h.foldr_eq' (fun i _ j _ n => by rw [← Nat.xor_assoc, ← Nat.xor_assoc, Nat.xor_comm (hash i)]) 0

/-- Where two blocks meet in round `h`, `w * (k - h)` bits are left. -/
def Cancels (w k h : ℕ) (xs ys : List ι) : Prop := total hash (xs ++ ys) < 2 ^ (w * (k - h))

instance {w k h : ℕ} {xs ys : List ι} : Decidable (Cancels hash w k h xs ys) :=
  inferInstanceAs (Decidable (_ < _))

structure IsSolution (w k : ℕ) (is : List ι) : Prop where
  length_eq : is.length = 2 ^ k
  nodup : is.Nodup
  cancels : AllJoins (Cancels hash w k) k is
  total_eq : total hash is = 0

variable {hash}

theorem Cancels.symm_iff {w k h : ℕ} {xs ys : List ι} :
    Cancels hash w k h xs ys ↔ Cancels hash w k h ys xs := by
  unfold Cancels
  rw [total_perm hash List.perm_append_comm]

theorem Cancels.perm_iff {w k h : ℕ} {xs ys xs' ys' : List ι} (hx : xs.Perm xs')
    (hy : ys.Perm ys') : Cancels hash w k h xs ys ↔ Cancels hash w k h xs' ys' := by
  unfold Cancels
  rw [total_perm hash (hx.append hy)]

/-- A rearrangement of a solution is one. -/
theorem IsSolution.of_rearranged {w k : ℕ} {is js : List ι} (h : IsSolution hash w k is)
    (hr : Rearranged k is js) : IsSolution hash w k js where
  length_eq := hr.length_right
  nodup := hr.perm.nodup_iff.mp h.nodup
  cancels := by
    have hkept := @Rearranged.allJoins _ _ _ _ (Cancels hash w k)
      (fun _ _ _ _ _ hx hy => Cancels.perm_iff hx hy) (fun _ _ _ => Cancels.symm_iff) hr
    exact hkept.mp h.cancels
  total_eq := (total_perm hash hr.perm).symm.trans h.total_eq

/-- **One representative**: exactly one of the rearrangements of a solution is ordered. -/
theorem existsUnique_ordered [LT ι] [Std.Asymm (LT.lt : ι → ι → Prop)]
    [Std.Trichotomous (LT.lt : ι → ι → Prop)] {w k : ℕ} {is : List ι} (h : IsSolution hash w k is) :
    ∃! js, Rearranged k is js ∧ IsSolution hash w k js ∧ Ordered k js := by
  obtain ⟨js, hr, ho⟩ := exists_rearranged h.length_eq h.nodup
  refine ⟨js, ⟨hr, h.of_rearranged hr, ho⟩, ?_⟩
  rintro js' ⟨hr', -, ho'⟩
  exact rearranged_unique hr' hr ho' ho

/-- The conditions of the joins, and the last one. -/
theorem solution_iff [LT ι] {w k : ℕ} {is : List ι} (hlen : is.length = 2 ^ k) :
    IsSolution hash w k is ∧ Ordered k is ↔
      AllJoins (fun h xs ys => Cancels hash w k h xs ys ∧ (xs ++ ys).Nodup ∧ HeadLt xs ys) k is ∧
        total hash is = 0 := by
  rw [AllJoins.and, AllJoins.and, allJoins_nodup hlen]
  constructor
  · exact fun ⟨h, ho⟩ => ⟨⟨h.cancels, h.nodup, ho⟩, h.total_eq⟩
  · exact fun ⟨⟨hc, hn, ho⟩, ht⟩ => ⟨⟨hlen, hn, hc, ht⟩, ho⟩

end AionPool.Lib.Birthday
