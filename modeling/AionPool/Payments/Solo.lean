import AionPool.Payments.Pplns

/-!
# The solo scheme

`SoloPaymentScheme`: the reward of a block is split evenly between the solo recipients, and all
shares before the block are discarded.

* **`updateBalancesAsync_paysEvenly_iff`**: the credits are an even split of the whole reward over
  the selected entries exactly when no address is selected twice. `rewards[address] = reward` keeps
  one part of an address that is listed twice, and the other parts are not paid.

Models `SoloPaymentScheme.cs:70-125`.
-/

namespace AionPool.Payments.SoloPaymentScheme

open AionPool.Configuration AionPool.Persistence

/-- The addresses the reward is split between. -/
def recipients (pool : PoolConfig) : List String :=
  (if pool.rewardRecipients.length = 1 then pool.rewardRecipients.take 1
    else pool.rewardRecipients.filter fun r => r.type.map String.toLower = some "solo").map
      RewardRecipient.address

/-- `CalculateRewards`: the dictionary of rewards, one entry an address. -/
def calculateRewards (pool : PoolConfig) (blockReward : ℚ) : Except Exn (List (String × ℚ)) :=
  if (recipients pool).length = 0 then
    .error (.exception "No reward-recipients of type = 'solo' configured")
  else .ok ((recipients pool).dedup.map fun address =>
    (address, blockReward / (recipients pool).length))

/-- The `AddAmountAsync` calls for the rewards. -/
def rewardCredits (rewards : List (String × ℚ)) : List Credit :=
  (rewards.filter fun e => 0 < e.2).map fun e => ⟨e.1, e.2⟩

/-- `UpdateBalancesAsync`. The cut-off date is the date of the block. -/
def updateBalancesAsync (tx : Database) (pool : PoolConfig) (block : Block) (blockReward : ℚ) :
    Except Exn Database :=
  match calculateRewards pool blockReward with
  | .error e => .error e
  | .ok rewards =>
    .ok (PPLNSPaymentScheme.discardShares (addAmounts tx pool.id (rewardCredits rewards)) pool.id
      (some block.created))

/-- The calls of `UpdateBalancesAsync` are those for the rewards. -/
theorem updateBalancesAsync_of_ok {tx : Database} {pool : PoolConfig} {block : Block}
    {blockReward : ℚ} {rewards : List (String × ℚ)}
    (h : calculateRewards pool blockReward = .ok rewards) :
    updateBalancesAsync tx pool block blockReward =
      .ok (PPLNSPaymentScheme.discardShares (addAmounts tx pool.id (rewardCredits rewards)) pool.id
        (some block.created)) := by
  unfold updateBalancesAsync
  rw [h]

/-! ## What the split adds up to -/

/-- The part of one selected entry. -/
def part (pool : PoolConfig) (blockReward : ℚ) : ℚ := blockReward / (recipients pool).length

/-- The credits for a reward: every address selected, once. -/
def evenCredits (pool : PoolConfig) (blockReward : ℚ) : List Credit :=
  (recipients pool).dedup.map fun address => ⟨address, part pool blockReward⟩

section Split

variable {pool : PoolConfig} {blockReward : ℚ}

theorem part_pos (hsel : recipients pool ≠ []) (hR : 0 < blockReward) :
    0 < part pool blockReward :=
  div_pos hR (by exact_mod_cast List.length_pos_of_ne_nil hsel)

theorem length_mul_part (hsel : recipients pool ≠ []) :
    (recipients pool).length * part pool blockReward = blockReward := by
  have hlen : ((recipients pool).length : ℚ) ≠ 0 := by
    exact_mod_cast (List.length_pos_of_ne_nil hsel).ne'
  unfold part
  rw [mul_div_cancel₀ _ hlen]

theorem calculateRewards_of_ne_nil (blockReward : ℚ) (hsel : recipients pool ≠ []) :
    calculateRewards pool blockReward =
      .ok ((recipients pool).dedup.map fun address => (address, part pool blockReward)) := by
  unfold calculateRewards
  rw [if_neg (List.length_pos_of_ne_nil hsel).ne']
  rfl

theorem rewardCredits_of_part_pos (h : 0 < part pool blockReward) :
    rewardCredits ((recipients pool).dedup.map fun address => (address, part pool blockReward)) =
      evenCredits pool blockReward := by
  unfold rewardCredits evenCredits
  rw [List.filter_eq_self.mpr, List.map_map]
  · rfl
  · intro e he
    obtain ⟨address, -, rfl⟩ := List.mem_map.mp he
    exact decide_eq_true h

/-- The call that the scheme makes for every positive reward. -/
theorem updateBalancesAsync_eq (tx : Database) (block : Block) (hsel : recipients pool ≠ [])
    (hR : 0 < blockReward) :
    updateBalancesAsync tx pool block blockReward =
      .ok (PPLNSPaymentScheme.discardShares
        (addAmounts tx pool.id (evenCredits pool blockReward)) pool.id (some block.created)) := by
  rw [updateBalancesAsync_of_ok (calculateRewards_of_ne_nil blockReward hsel),
    rewardCredits_of_part_pos (part_pos hsel hR)]

theorem sumAmounts_evenCredits :
    sumAmounts (evenCredits pool blockReward) =
      (recipients pool).dedup.length * part pool blockReward := by
  unfold sumAmounts evenCredits
  rw [List.map_map, ← nsmul_eq_mul, ← List.sum_replicate, ← List.map_const']
  rfl

/-- Every address selected is credited one part, however often it is selected. -/
theorem credited_evenCredits (address : String) :
    credited (evenCredits pool blockReward) address =
      if address ∈ recipients pool then part pool blockReward else 0 := by
  have hfilter : (evenCredits pool blockReward).filter (fun c => c.address = address) =
      ((recipients pool).dedup.filter fun a => a = address).map fun a =>
        ⟨a, part pool blockReward⟩ := by
    unfold evenCredits
    rw [List.filter_map]
    rfl
  have hone : (recipients pool).dedup.filter (fun a => a = address) =
      List.replicate ((recipients pool).dedup.count address) address := by
    rw [← List.filter_beq]
    simp only [beq_eq_decide]
  unfold credited
  rw [hfilter, hone, List.count_dedup, sumAmounts]
  split <;> simp

end Split

/-- The credits are an even split: together the reward, and to each address one part for each of
its entries. -/
structure PaysEvenly (pool : PoolConfig) (blockReward : ℚ) (credits : List Credit) : Prop where
  total : sumAmounts credits = blockReward
  parts : ∀ address,
    credited credits address = (recipients pool).count address * part pool blockReward

/-- The one-part-an-address credits are an even split exactly when no address repeats. -/
theorem paysEvenly_evenCredits {pool : PoolConfig} {blockReward : ℚ}
    (hsel : recipients pool ≠ []) (hR : 0 < blockReward) :
    PaysEvenly pool blockReward (evenCredits pool blockReward) ↔ (recipients pool).Nodup := by
  have hpart := part_pos hsel hR
  constructor
  · intro h
    have hlen : ((recipients pool).dedup.length : ℚ) * part pool blockReward =
        (recipients pool).length * part pool blockReward := by
      rw [← sumAmounts_evenCredits, h.total, length_mul_part hsel]
    have hlen' : (recipients pool).dedup.length = (recipients pool).length := by
      exact_mod_cast mul_right_cancel₀ hpart.ne' hlen
    exact List.dedup_eq_self.mp ((List.dedup_sublist _).eq_of_length hlen')
  · intro hnodup
    refine ⟨?_, fun address => ?_⟩
    · rw [sumAmounts_evenCredits, hnodup.dedup, length_mul_part hsel]
    · rw [credited_evenCredits]
      split
      · rename_i hmem
        rw [List.count_eq_one_of_mem hnodup hmem, Nat.cast_one, one_mul]
      · rename_i hmem
        rw [List.count_eq_zero_of_not_mem hmem, Nat.cast_zero, zero_mul]

/-- A solo pool with two recipients. -/
def soloPool (second : String) : PoolConfig :=
  { samplePool with
    rewardRecipients := [⟨"0xa0a", 50, some "Solo"⟩, ⟨second, 50, some "solo"⟩] }

/-- **The whole block is paid out exactly when no address is selected twice.** -/
theorem updateBalancesAsync_paysEvenly_iff (tx : Database) (pool : PoolConfig) (block : Block)
    (blockReward : ℚ) (hsel : recipients pool ≠ []) (hR : 0 < blockReward) :
    (∃ rewards, calculateRewards pool blockReward = .ok rewards ∧
      updateBalancesAsync tx pool block blockReward =
        .ok (PPLNSPaymentScheme.discardShares (addAmounts tx pool.id (rewardCredits rewards))
          pool.id (some block.created)) ∧
      PaysEvenly pool blockReward (rewardCredits rewards)) ↔ (recipients pool).Nodup := by
  have hcalc := calculateRewards_of_ne_nil blockReward hsel
  have hcredits := rewardCredits_of_part_pos (part_pos hsel hR)
  constructor
  · rintro ⟨rewards, h, -, hpays⟩
    obtain rfl := Except.ok.inj (hcalc.symm.trans h)
    rw [hcredits] at hpays
    exact (paysEvenly_evenCredits hsel hR).mp hpays
  · intro hnodup
    refine ⟨_, hcalc, updateBalancesAsync_of_ok hcalc, ?_⟩
    rw [hcredits]
    exact (paysEvenly_evenCredits hsel hR).mpr hnodup

/-- Two entries with two addresses are paid in full. -/
theorem updateBalancesAsync_paysEvenly_sample :
    ∃ rewards, calculateRewards (soloPool "0xa0b") 3 = .ok rewards ∧
      updateBalancesAsync Database.empty (soloPool "0xa0b") (sampleBlock "aion1" 7 1 30) 3 =
        .ok (PPLNSPaymentScheme.discardShares
          (addAmounts Database.empty "aion1" (rewardCredits rewards)) "aion1" (some 30)) ∧
      PaysEvenly (soloPool "0xa0b") 3 (rewardCredits rewards) :=
  (updateBalancesAsync_paysEvenly_iff Database.empty (soloPool "0xa0b")
    (sampleBlock "aion1" 7 1 30) 3 (by decide +kernel) (by decide)).mpr (by decide +kernel)

/-- Two entries with one address are paid one half. -/
theorem updateBalancesAsync_pays_half :
    ∃ rewards, calculateRewards (soloPool "0xa0a") 3 = .ok rewards ∧
      recipients (soloPool "0xa0a") = ["0xa0a", "0xa0a"] ∧
      updateBalancesAsync Database.empty (soloPool "0xa0a") (sampleBlock "aion1" 7 1 30) 3 =
        .ok (PPLNSPaymentScheme.discardShares
          (addAmounts Database.empty "aion1" (rewardCredits rewards)) "aion1" (some 30)) ∧
      sumAmounts (rewardCredits rewards) = 3 / 2 ∧
      ¬ PaysEvenly (soloPool "0xa0a") 3 (rewardCredits rewards) := by
  have hcalc : calculateRewards (soloPool "0xa0a") 3 = .ok [("0xa0a", 3 / 2)] := by decide +kernel
  have hsum : sumAmounts (rewardCredits [("0xa0a", (3 : ℚ) / 2)]) = 3 / 2 := by decide +kernel
  refine ⟨_, hcalc, by decide +kernel, updateBalancesAsync_of_ok hcalc, hsum, fun h => ?_⟩
  exact absurd (hsum.symm.trans h.total) (by norm_num)

end AionPool.Payments.SoloPaymentScheme
