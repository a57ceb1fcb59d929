import AionPool.Configuration
import AionPool.Persistence.Repositories

/-!
# The credits of a block

A transaction that pays a block makes `AddAmountAsync` calls: `Credit` is one of them, and
`addAmounts` makes them in order. `PayoutHandlerBase.updateBlockRewardBalancesAsync` is the part of
the reward recipients, from which the Aion handler deducts the fee.

* **`updateBlockRewardBalancesAsync_fst`**: what remains is the reward without the recipients'
  amounts; `sum_credits_le` bounds what the recipients are credited by those amounts.

Models `PayoutHandlerBase.cs:108-129` and `AionPayoutHandler.cs:202-210`. Out of scope: the rounding
of decimals.
-/

namespace AionPool.Payments

open AionPool.Configuration AionPool.Persistence

/-- One `AddAmountAsync` call. -/
structure Credit where
  address : String
  amount : ℚ
  deriving DecidableEq, Repr

/-- The calls of `credits`, in order. -/
def addAmounts (db : Database) (poolId : String) (credits : List Credit) : Database :=
  credits.foldl (fun db c => BalanceRepository.addAmountAsync db poolId c.address c.amount) db

/-- What the calls add together. -/
def sumAmounts (credits : List Credit) : ℚ := (credits.map Credit.amount).sum

/-- What the calls add to the balance of one address. -/
def credited (credits : List Credit) (address : String) : ℚ :=
  sumAmounts (credits.filter fun c => c.address = address)

@[simp] theorem sumAmounts_nil : sumAmounts [] = 0 := rfl

@[simp] theorem sumAmounts_append (cs ds : List Credit) :
    sumAmounts (cs ++ ds) = sumAmounts cs + sumAmounts ds := by
  unfold sumAmounts
  rw [List.map_append, List.sum_append]

@[simp] theorem addAmounts_nil (db : Database) (poolId : String) :
    addAmounts db poolId [] = db := rfl

theorem addAmounts_cons (db : Database) (poolId : String) (c : Credit) (cs : List Credit) :
    addAmounts db poolId (c :: cs) =
      addAmounts (BalanceRepository.addAmountAsync db poolId c.address c.amount) poolId cs := rfl

theorem addAmounts_append (db : Database) (poolId : String) (cs ds : List Credit) :
    addAmounts db poolId (cs ++ ds) = addAmounts (addAmounts db poolId cs) poolId ds :=
  List.foldl_append

/-- The credits touch no blocks. -/
@[simp] theorem addAmounts_blocks (db : Database) (poolId : String) (credits : List Credit) :
    (addAmounts db poolId credits).blocks = db.blocks := by
  induction credits generalizing db with
  | nil => rfl
  | cons c cs ih => rw [addAmounts_cons, ih]; rfl

/-- The credits touch no shares. -/
@[simp] theorem addAmounts_shares (db : Database) (poolId : String) (credits : List Credit) :
    (addAmounts db poolId credits).shares = db.shares := by
  induction credits generalizing db with
  | nil => rfl
  | cons c cs ih => rw [addAmounts_cons, ih]; rfl

/-! ## The reward recipients -/

namespace PayoutHandlerBase

/-- The share of the reward that goes to a recipient. -/
def recipientAmount (block : Block) (recipient : RewardRecipient) : ℚ :=
  block.reward * (recipient.percentage / 100)

/-- The loop over the recipients: the remaining reward and the calls made. -/
def distribute (pool : PoolConfig) (block : Block) :
    ℚ × List Credit → List RewardRecipient → ℚ × List Credit
  | acc, [] => acc
  | (blockRewardRemaining, credits), recipient :: rest =>
    let amount := recipientAmount block recipient
    -- transfers from the pool wallet to the pool wallet are skipped, not what they deduct
    distribute pool block (blockRewardRemaining - amount,
      if recipient.address ≠ pool.address then credits ++ [⟨recipient.address, amount⟩]
      else credits) rest

/-- `UpdateBlockRewardBalancesAsync`: what remains of the reward, and the credits. -/
def updateBlockRewardBalancesAsync (pool : PoolConfig) (block : Block) : ℚ × List Credit :=
  distribute pool block (block.reward, []) (pool.rewardRecipients.filter fun r => 0 < r.percentage)

/-- What the recipients are due. -/
def recipientAmounts (pool : PoolConfig) (block : Block) : ℚ :=
  (pool.rewardRecipients.map (recipientAmount block)).sum

theorem distribute_fst (pool : PoolConfig) (block : Block) (rs : List RewardRecipient)
    (acc : ℚ × List Credit) :
    (distribute pool block acc rs).1 = acc.1 - (rs.map (recipientAmount block)).sum := by
  induction rs generalizing acc with
  | nil => simp [distribute]
  | cons r rs ih =>
    rw [distribute, ih, List.map_cons, List.sum_cons]
    ring

/-- What a recipient without a percentage is due is nothing. -/
theorem sum_filter_recipientAmount (block : Block) {rs : List RewardRecipient}
    (h : ∀ r ∈ rs, 0 ≤ r.percentage) :
    ((rs.filter fun r => 0 < r.percentage).map (recipientAmount block)).sum =
      (rs.map (recipientAmount block)).sum := by
  induction rs with
  | nil => rfl
  | cons r rs ih =>
    have ihs := ih fun s hs => h s (List.mem_cons_of_mem r hs)
    rcases (h r List.mem_cons_self).lt_or_eq with hr | hr
    · rw [List.filter_cons_of_pos (by simpa using hr), List.map_cons, List.sum_cons, ihs]
      rfl
    · rw [List.filter_cons_of_neg (by simp [← hr]), ihs, List.map_cons, List.sum_cons]
      simp [recipientAmount, ← hr]

/-- **What remains** is the reward without what the recipients are due. -/
theorem updateBlockRewardBalancesAsync_fst (pool : PoolConfig) (block : Block)
    (h : ∀ r ∈ pool.rewardRecipients, 0 ≤ r.percentage) :
    (updateBlockRewardBalancesAsync pool block).1 =
      block.reward - recipientAmounts pool block := by
  unfold updateBlockRewardBalancesAsync recipientAmounts
  rw [distribute_fst, sum_filter_recipientAmount block h]

/-- The effort of the block plays no part. -/
theorem distribute_effort (pool : PoolConfig) (block : Block) (effort : Option Lib.Binary64.Double)
    (rs : List RewardRecipient) (acc : ℚ × List Credit) :
    distribute pool { block with effort } acc rs = distribute pool block acc rs := by
  induction rs generalizing acc with
  | nil => rfl
  | cons r rs ih =>
    rw [distribute, distribute, ih]
    rfl

theorem distribute_snd_nonneg (pool : PoolConfig) {block : Block} (hR : 0 ≤ block.reward)
    {rs : List RewardRecipient} (hrs : ∀ r ∈ rs, 0 ≤ r.percentage) {acc : ℚ × List Credit}
    (hacc : ∀ c ∈ acc.2, 0 ≤ c.amount) :
    ∀ c ∈ (distribute pool block acc rs).2, 0 ≤ c.amount := by
  induction rs generalizing acc with
  | nil => exact hacc
  | cons r rs ih =>
    have hr := hrs r List.mem_cons_self
    rw [distribute]
    refine ih (fun s hs => hrs s (List.mem_cons_of_mem r hs)) ?_
    intro c hc
    simp only at hc
    split at hc
    · rcases List.mem_append.mp hc with hc | hc
      · exact hacc c hc
      · rw [List.mem_singleton.mp hc]
        exact mul_nonneg hR (by positivity)
    · exact hacc c hc

theorem distribute_snd_le (pool : PoolConfig) {block : Block} (hR : 0 ≤ block.reward)
    {rs : List RewardRecipient} (hrs : ∀ r ∈ rs, 0 ≤ r.percentage) (acc : ℚ × List Credit) :
    sumAmounts (distribute pool block acc rs).2 ≤
      sumAmounts acc.2 + (rs.map (recipientAmount block)).sum := by
  induction rs generalizing acc with
  | nil => simp [distribute]
  | cons r rs ih =>
    have hr : 0 ≤ recipientAmount block r :=
      mul_nonneg hR (div_nonneg (hrs r List.mem_cons_self) (by norm_num))
    have ihs := ih fun s hs => hrs s (List.mem_cons_of_mem r hs)
    rw [distribute, List.map_cons, List.sum_cons]
    refine (ihs _).trans ?_
    simp only
    split
    · rw [sumAmounts_append]
      simp only [sumAmounts, List.map_cons, List.map_nil, List.sum_singleton]
      linarith
    · linarith

theorem credits_nonneg {pool : PoolConfig} {block : Block} (hR : 0 ≤ block.reward)
    (h : ∀ r ∈ pool.rewardRecipients, 0 ≤ r.percentage) :
    ∀ c ∈ (updateBlockRewardBalancesAsync pool block).2, 0 ≤ c.amount :=
  distribute_snd_nonneg pool hR (fun r hr => h r (List.mem_of_mem_filter hr)) (by simp)

/-- The recipients are credited at most what they are due. -/
theorem sum_credits_le {pool : PoolConfig} {block : Block} (hR : 0 ≤ block.reward)
    (h : ∀ r ∈ pool.rewardRecipients, 0 ≤ r.percentage) :
    sumAmounts (updateBlockRewardBalancesAsync pool block).2 ≤ recipientAmounts pool block := by
  unfold updateBlockRewardBalancesAsync recipientAmounts
  rw [← sum_filter_recipientAmount block h]
  have hpos : ∀ r ∈ pool.rewardRecipients.filter (fun r => decide (0 < r.percentage)),
      0 ≤ r.percentage := fun r hr => h r (List.mem_of_mem_filter hr)
  exact (distribute_snd_le pool hR hpos (block.reward, [])).trans (by simp)

end PayoutHandlerBase

namespace AionPayoutHandler

/-- `UpdateBlockRewardBalancesAsync`: the base class, then the reserve for transaction fees. -/
def updateBlockRewardBalancesAsync (pool : PoolConfig) (block : Block) : ℚ × List Credit :=
  let (blockRewardRemaining, credits) := PayoutHandlerBase.updateBlockRewardBalancesAsync pool block
  (blockRewardRemaining - pool.paymentProcessing.extra.nrgFee, credits)

end AionPayoutHandler

/-- The reward that is left for the miners. -/
def minerReward (pool : PoolConfig) (block : Block) : ℚ :=
  block.reward - PayoutHandlerBase.recipientAmounts pool block -
    pool.paymentProcessing.extra.nrgFee

theorem updateBlockRewardBalancesAsync_fst {pool : PoolConfig} {block : Block}
    (hpct : ∀ r ∈ pool.rewardRecipients, 0 ≤ r.percentage) :
    (AionPayoutHandler.updateBlockRewardBalancesAsync pool block).1 = minerReward pool block := by
  unfold AionPayoutHandler.updateBlockRewardBalancesAsync minerReward
  simp only
  rw [PayoutHandlerBase.updateBlockRewardBalancesAsync_fst pool block hpct]

end AionPool.Payments
