import AionPool.Payments.Completion

/-!
# A confirmed block pays out its reward

The credits of a PPLNS block are those of the reward recipients and those of the walk, which
divides what remains, `B`, after the recipients and the fee.

* **`reward_conservation`**: the miners get `B * min 1 (S / window)` for the total score `S` of the
  shares read, each by the part of the window his shares fill, and all credits of the block
  together are at most its reward. The transaction of the block adds them to the balances.

About `PPLNSPaymentScheme.cs:80-127` and `:177-256`, `PayoutHandlerBase.cs:108-129` and
`PayoutManager.cs:159-180`.
-/

namespace AionPool.Payments

open AionPool.Configuration AionPool.Persistence
open AionPool.Lib AionPool.Lib.Window
open PPLNSPaymentScheme

variable {pool : PoolConfig} {block : Block}

theorem recipientAmounts_eq (pool : PoolConfig) (block : Block) :
    PayoutHandlerBase.recipientAmounts pool block =
      block.reward * ((pool.rewardRecipients.map RewardRecipient.percentage).sum / 100) := by
  unfold PayoutHandlerBase.recipientAmounts
  induction pool.rewardRecipients with
  | nil => simp
  | cons r rs ih =>
    rw [List.map_cons, List.sum_cons, ih, List.map_cons, List.sum_cons]
    unfold PayoutHandlerBase.recipientAmount
    ring

/-- A block that leaves the miners something has a positive reward. -/
theorem reward_pos (hsum : (pool.rewardRecipients.map RewardRecipient.percentage).sum ≤ 100)
    (hfee : 0 ≤ pool.paymentProcessing.extra.nrgFee) (hB : 0 < minerReward pool block) :
    0 < block.reward := by
  unfold minerReward at hB
  rw [recipientAmounts_eq] at hB
  by_contra hR
  have hle : 0 ≤ 1 - (pool.rewardRecipients.map RewardRecipient.percentage).sum / 100 := by
    linarith
  have := mul_nonneg (neg_nonneg.mpr (not_lt.mp hR)) hle
  linarith

/-- The walk credits exactly its rewards: none of them is zero. -/
theorem sumAmounts_rewardCredits {c : Calculation} (h : ∀ e ∈ c.rewards.entries, 0 < e.2) :
    sumAmounts (rewardCredits c) = c.rewards.total := by
  unfold rewardCredits sumAmounts Tally.total
  rw [List.filter_eq_self.mpr fun e he => decide_eq_true (h e he), List.map_map]
  rfl

theorem rewardCredits_pos {c : Calculation} : ∀ cr ∈ rewardCredits c, 0 < cr.amount := by
  intro cr hcr
  obtain ⟨e, he, rfl⟩ := List.mem_map.mp hcr
  exact of_decide_eq_true (List.mem_filter.mp he).2

/-- **Reward conservation.** -/
theorem reward_conservation (db : Database) (pool : PoolConfig) (block : Block) {pageSize : ℕ}
    (hpage : 0 < pageSize) (hpct : ∀ r ∈ pool.rewardRecipients, 0 ≤ r.percentage)
    (hsum : (pool.rewardRecipients.map RewardRecipient.percentage).sum ≤ 100)
    (hfee : 0 ≤ pool.paymentProcessing.extra.nrgFee) (hw : 0 < window pool)
    (hshares : ∀ s ∈ db.shares, 0 ≤ s.difficulty ∧ 0 ≤ s.networkDifficulty)
    (hB : 0 < minerReward pool block) :
    let xs := sharesRead db pool.id block.created pageSize
    let S := (xs.map score).sum
    (AionPayoutHandler.updateBlockRewardBalancesAsync pool block).1 = minerReward pool block ∧
    ∃ c, calculateRewardsAsync db pool.id (window pool) block (minerReward pool block) pageSize =
        .ok c ∧
      c.rewards.total = minerReward pool block * min 1 (S / window pool) ∧
      (∀ miner, c.rewards.get miner =
        minerReward pool block / window pool *
          keyPart score (window pool) Share.miner miner 0 xs) ∧
      (c.shareCutOffDate.isSome ↔ window pool ≤ S) ∧
      c.shareCutOffDate = (crossing? score (window pool) 0 xs).map Share.created ∧
      (∀ cr ∈ blockCredits pool block c, 0 ≤ cr.amount) ∧
      sumAmounts (blockCredits pool block c) ≤ block.reward ∧
      -- the transaction of the block reads pages of a fixed size
      (pageSize = PPLNSPaymentScheme.pageSize → block.status = .confirmed →
        pool.paymentProcessing.payoutScheme = .pplns →
        ∃ db', PayoutManager.blockTransaction pool db block = .ok db' ∧
          db'.balances = (addAmounts db pool.id (blockCredits pool block c)).balances) := by
  intro xs S
  have hxs : ∀ x ∈ xs, 0 ≤ score x := fun x hx => by
    obtain ⟨hd, hn⟩ :=
      hshares x (mem_of_mem_sharesUpTo ((sharesRead_sublist hpage).subset hx))
    exact div_nonneg hd hn
  obtain ⟨c, hloop, -, hcut, htotal, hget, hpos⟩ := loop_spec hB hw (Inside.start hw) hxs
  simp only [Calculation.start, zero_add, sub_zero, Tally.total_empty, Tally.get_empty,
    Option.or_none] at hcut htotal hget hpos
  have hrewards : c.rewards.total = minerReward pool block * min 1 (S / window pool) := by
    rw [htotal, mul_comm_div, ← min_div_div_right hw.le, div_self hw.ne']
  have hR := reward_pos hsum hfee hB
  have hle : c.rewards.total ≤ minerReward pool block := by
    rw [hrewards]
    exact mul_le_of_le_one_right hB.le (min_le_left _ _)
  have hcalc : calculateRewardsAsync db pool.id (window pool) block (minerReward pool block)
      pageSize = .ok c := (calculateRewardsAsync_eq ..).trans hloop
  refine ⟨updateBlockRewardBalancesAsync_fst hpct, c, hcalc, hrewards, hget, ?_, hcut, ?_, ?_, ?_⟩
  · rw [hcut, Option.isSome_map, crossing?_isSome_iff hxs, zero_add]
    constructor
    · exact And.right
    · intro h
      refine ⟨fun hnil => absurd h (not_le.mpr ?_), h⟩
      have hzero : S = 0 := by
        simp only [S, hnil, List.map_nil, List.sum_nil]
      rwa [hzero]
  · intro cr hcr
    rcases List.mem_append.mp hcr with hcr | hcr
    · exact PayoutHandlerBase.credits_nonneg hR.le hpct cr hcr
    · exact (rewardCredits_pos cr hcr).le
  · have hbase : sumAmounts (AionPayoutHandler.updateBlockRewardBalancesAsync pool block).2 ≤
        PayoutHandlerBase.recipientAmounts pool block := PayoutHandlerBase.sum_credits_le hR.le hpct
    unfold blockCredits
    rw [sumAmounts_append, sumAmounts_rewardCredits (hpos (by simp [Tally.empty]))]
    unfold minerReward at hle
    linarith
  · rintro rfl hst hscheme
    obtain ⟨db', htx⟩ := (PayoutManager.blockTransaction_ok_iff db pool block hst hscheme hpct
      hw).mpr (.inl hB)
    obtain ⟨c', hc', hbalances⟩ := PayoutManager.blockTransaction_balances hst hscheme htx
    rw [updateBlockRewardBalancesAsync_fst hpct] at hc'
    obtain rfl := Except.ok.inj (hcalc.symm.trans hc')
    exact ⟨db', htx, hbalances⟩

/-- The shares of two miners, which fill a window of 2. -/
def twoMiners : Database :=
  { Database.empty with shares := [sampleShare "a" 6 10, sampleShare "b" 4 20] }

theorem reward_conservation_two_miners :
    let block := { sampleBlock "aion1" 7 (3 / 2) 30 with status := .confirmed }
    ∃ c, calculateRewardsAsync twoMiners "aion1" 2 block (minerReward samplePool block)
        PPLNSPaymentScheme.pageSize = .ok c ∧
      c.rewards.total = minerReward samplePool block ∧ c.shareCutOffDate = some 10 ∧
      ∃ db', PayoutManager.blockTransaction samplePool twoMiners block = .ok db' ∧ db'.balances =
        (addAmounts twoMiners "aion1" (blockCredits samplePool block c)).balances := by
  obtain ⟨-, c, hc, htotal, -, -, hcut, -, -, htx⟩ := reward_conservation twoMiners samplePool
    { sampleBlock "aion1" 7 (3 / 2) 30 with status := .confirmed }
    (show 0 < PPLNSPaymentScheme.pageSize by decide) (by decide +kernel)
    (by decide +kernel) (by decide +kernel) (by decide +kernel) (by decide +kernel)
    (by decide +kernel)
  refine ⟨c, hc, htotal.trans ?_, hcut.trans ?_, htx rfl rfl rfl⟩
  · decide +kernel
  · decide +kernel

end AionPool.Payments
