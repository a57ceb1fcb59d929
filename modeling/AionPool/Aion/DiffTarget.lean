import AionPool.Aion.Job

/-!
# The target of a difficulty

`diffToTarget` divides `2 ^ 256` by the integral part of a difficulty and writes the two's
complement of the quotient into 32 bytes; the share check reads these bytes as a two's complement
again. Both ways lose something: a quotient of `2 ^ 256` does not fit, one of `2 ^ 255` is read as a
negative number, and a negative quotient is written without its sign.

* `unsigned_targetBytes`: the 32 bytes, read without a sign.
* `sentTarget_spec`: the share target is `shareTarget` of the integral part, or not positive.
* `shareTarget_of_three_le`: from a difficulty of 3 on it is the quotient.

About `AionUtils.cs:11-31` and `AionJob.cs:115-172`.
-/

namespace AionPool.Aion

open AionPool.Extensions AionPool.Lib.Bytes AionJob
open AionPool.Lib.Binary64 (Double)

/-! ## Thirty-two bytes -/

theorem length_targetBytes (bytes : List UInt8) : (targetBytes bytes).length = 32 := by
  unfold targetBytes
  split
  · assumption
  · dsimp only
    split_ifs
    all_goals simp only [List.length_replicate, List.length_append, List.length_drop]
    all_goals omega

/-- What does not fit 32 bytes is written as zero. -/
theorem unsigned_targetBytes {bs : List UInt8} (h : bs.length ≤ 33) :
    unsigned (targetBytes bs.reverse).reverse =
      if unsigned bs < 256 ^ 32 then unsigned bs else 0 := by
  unfold targetBytes
  rw [List.length_reverse]
  split
  · rename_i hlen
    rw [List.reverse_reverse, if_pos (hlen ▸ unsigned_lt bs)]
  rename_i hlen
  dsimp only
  rcases List.eq_nil_or_concat bs with rfl | ⟨init, top, rfl⟩
  · rfl
  rw [List.concat_eq_append] at h hlen ⊢
  rw [List.reverse_append, List.reverse_singleton, List.singleton_append, List.length_append,
    List.length_singleton] at *
  rw [List.getElem?_cons_zero]
  have hinit := unsigned_lt init
  have hvalue : unsigned (init ++ [top]) = unsigned init + 256 ^ init.length * top.toNat := by
    rw [unsigned_append, unsigned_cons, unsigned_nil, mul_zero, add_zero]
  by_cases htop : top = 0
  · -- the sign byte is left out
    have hle : init.length ≤ 32 := by omega
    have hfit : unsigned init < 256 ^ 32 :=
      hinit.trans_le (Nat.pow_le_pow_right (by norm_num) hle)
    subst htop
    rw [if_pos rfl, Nat.add_sub_cancel, if_neg (by omega), List.drop_succ_cons, List.drop_zero,
      List.reverse_append, List.reverse_reverse, List.reverse_replicate, unsigned_append_zeros,
      hvalue, show (0 : UInt8).toNat = 0 from rfl, mul_zero, add_zero, if_pos hfit]
  · rw [if_neg fun h0 => htop (Option.some.inj h0), Nat.sub_zero]
    by_cases hfit : init.length + 1 ≤ 32
    · have hlt : unsigned (init ++ [top]) < 256 ^ 32 := by
        refine (unsigned_lt _).trans_le (Nat.pow_le_pow_right (by norm_num) ?_)
        rwa [List.length_append, List.length_singleton]
      rw [if_neg (by omega), List.drop_zero, List.reverse_append, List.reverse_replicate,
        List.reverse_cons, List.reverse_reverse, unsigned_append_zeros, if_pos hlt]
    · -- 33 bytes, none of which is a sign
      have hge : 256 ^ 32 ≤ unsigned (init ++ [top]) := by
        have hpos : 1 ≤ top.toNat :=
          Nat.one_le_iff_ne_zero.mpr fun h0 => htop (UInt8.toNat_inj.mp h0)
        rw [hvalue, show init.length = 32 by omega]
        calc 256 ^ 32 = 256 ^ 32 * 1 := (mul_one _).symm
          _ ≤ 256 ^ 32 * top.toNat := Nat.mul_le_mul_left _ hpos
          _ ≤ _ := Nat.le_add_left _ _
      rw [if_pos (by omega), List.reverse_replicate, if_neg (by omega)]
      exact unsigned_append_zeros [] 32

/-! ## Share targets -/

/-- The integral part of a difficulty. -/
def truncate (q : ℚ) : ℤ := if 0 ≤ q then ⌊q⌋ else ⌈q⌉

/-- The target of a difficulty with the integral part `n`: the two's complement of the quotient,
read without its sign, and zero where the share check reads a negative number. -/
def shareTarget (n : ℤ) : ℕ :=
  let target := unsigned (twos ((2 ^ 256 : ℤ).tdiv n))
  if target < 2 ^ 255 then target else 0

theorem tdiv_bounds (n : ℤ) :
    -(2 ^ 263) ≤ (2 ^ 256 : ℤ).tdiv n ∧ (2 ^ 256 : ℤ).tdiv n < 2 ^ 263 := by
  have h : ((2 ^ 256 : ℤ).tdiv n).natAbs ≤ 2 ^ 256 := by
    rw [Int.natAbs_tdiv]
    exact (Nat.div_le_self _ _).trans (by norm_num)
  omega

/-- A difficulty with an integral part has a target text. -/
theorem diffToTarget_of_ne_zero {q : ℚ} (h : truncate q ≠ 0) :
    diffToTarget (.fin q) =
      .ok (byteToHex (targetBytes (twos ((2 ^ 256 : ℤ).tdiv (truncate q))).reverse)) := by
  unfold diffToTarget bigInteger
  change (if truncate q = 0 then _ else _) = _
  rw [if_neg h]
  rfl

/-- The code divides by zero where there is none. -/
theorem diffToTarget_of_eq_zero {q : ℚ} (h : truncate q = 0) :
    diffToTarget (.fin q) = .error .divideByZero := by
  unfold diffToTarget bigInteger
  change (if truncate q = 0 then _ else _) = _
  rw [if_pos h]
  rfl

theorem width_tdiv_le (n : ℤ) : (twos ((2 ^ 256 : ℤ).tdiv n)).length ≤ 33 := by
  obtain ⟨hlo, hhi⟩ := tdiv_bounds n
  rw [length_twos]
  exact width_le (k := 32) hlo hhi

/-- The share check compares with the target, or with a number that is not positive where that is
zero. -/
theorem sentTarget_spec {q : ℚ} (hn : truncate q ≠ 0) :
    ∃ t, sentTarget (.fin q) = .ok t ∧
      (t = shareTarget (truncate q) ∨ (t ≤ 0 ∧ shareTarget (truncate q) = 0)) := by
  have hwidth := width_tdiv_le (truncate q)
  have hdiff := diffToTarget_of_ne_zero hn
  set bs := twos ((2 ^ 256 : ℤ).tdiv (truncate q)) with hbs
  have hlen : (targetBytes bs.reverse).reverse.length = 32 := by
    rw [List.length_reverse, length_targetBytes]
  have hsent : sentTarget (.fin q) = .ok (signed (targetBytes bs.reverse).reverse) := by
    unfold sentTarget
    rw [hdiff, ok_bind, hexToReverseByteArray_byteToHex]
    unfold uint256
    rw [dif_pos hlen]
    rfl
  refine ⟨_, hsent, ?_⟩
  have hvalue := unsigned_targetBytes hwidth
  have hlt := unsigned_lt (targetBytes bs.reverse).reverse
  rw [hlen] at hlt
  unfold signed shareTarget
  rw [hlen, ← hbs]
  dsimp only
  split at hvalue
  · rw [hvalue] at hlt ⊢
    split_ifs
    · exact Or.inl rfl
    · omega
    · omega
    · exact Or.inr ⟨by omega, rfl⟩
  · rw [hvalue]
    right
    split_ifs
    all_goals omega

/-- Without an integral part, and without a value, there is no share target. -/
theorem sentTarget_eq_ok {d : Double} {t : ℤ} (h : sentTarget d = .ok t) :
    ∃ q, d = .fin q ∧ truncate q ≠ 0 := by
  cases d with
  | nan => exact nomatch h
  | inf s => exact nomatch h
  | fin q =>
    refine ⟨q, rfl, fun h0 => ?_⟩
    unfold sentTarget at h
    rw [diffToTarget_of_eq_zero h0] at h
    exact nomatch h

/-- From a difficulty of 3 on the share target is the quotient. -/
theorem shareTarget_of_three_le {n : ℤ} (h : 3 ≤ n) : (shareTarget n : ℤ) = 2 ^ 256 / n := by
  have hq : (2 ^ 256 : ℤ).tdiv n = 2 ^ 256 / n := Int.tdiv_eq_ediv_of_nonneg (by norm_num)
  have hnn : (0 : ℤ) ≤ 2 ^ 256 / n := Int.ediv_nonneg (by norm_num) (by omega)
  have hlt : (2 ^ 256 : ℤ) / n < 2 ^ 255 := by
    rw [Int.ediv_lt_iff_lt_mul (by omega)]
    omega
  have hvalue := unsigned_twos_of_nonneg hnn
  unfold shareTarget
  rw [hq]
  dsimp only
  rw [if_pos (by omega), hvalue]

/-- A difficulty of 1 or 2 has no share target. -/
theorem shareTarget_of_lt_three {n : ℤ} (h0 : 0 ≤ n) (h : n < 3) : shareTarget n = 0 := by
  obtain rfl | rfl | rfl : n = 0 ∨ n = 1 ∨ n = 2 := by omega
  all_goals decide +kernel

end AionPool.Aion
