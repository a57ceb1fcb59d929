import AionPool.Lib.Tally
import AionPool.Lib.Window
import AionPool.Payments.Credits

/-!
# The PPLNS scheme

`PPLNSPaymentScheme`: the reward of a block is divided over the newest shares whose scores fill the
window. `processShare` is the body of the walk, `calculateRewardsAsync` the walk page by page, and
`updateBalancesAsync` the scheme's part of the block's transaction. The doubles and decimals of the
walk are rationals.

* `processShare_step`: what one share can do to an open walk.
* `processShare_spec`: what it does to one that is still inside the window.
* **`loop_spec`**: what the walk over a list of shares returns, in terms of the window it fills.
* `calculateRewardsAsync_eq`: the paged walk is the walk over the shares its pages hold.

Models `PPLNSPaymentScheme.cs:80-127` and `:177-256`. Out of scope: the diagnostics, and the
overflow and rounding of decimals, which `Payments/Decimals.lean` adds.
-/

namespace AionPool.Payments.PPLNSPaymentScheme

open AionPool.Configuration AionPool.Persistence
open AionPool.Lib AionPool.Lib.Window AionPool.Lib.PagedRead

/-! ## The walk -/

/-- The variables of `CalculateRewardsAsync` and the two dictionaries it fills. -/
structure Calculation where
  done : Bool
  accumulatedScore : ℚ
  blockRewardRemaining : ℚ
  shareCutOffDate : Option DateTime
  shares : Tally String ℚ
  rewards : Tally String ℚ
  deriving DecidableEq

/-- The variables before the first page. -/
def Calculation.start (blockReward : ℚ) : Calculation where
  done := false
  accumulatedScore := 0
  blockRewardRemaining := blockReward
  shareCutOffDate := none
  shares := Tally.empty
  rewards := Tally.empty

/-- The score of a share; zero for the shares without a network difficulty, which are skipped. -/
def score (share : Share) : ℚ := share.difficulty / share.networkDifficulty

/-- The body of the loop over a page. -/
def processShare (window blockReward : ℚ) (c : Calculation) (share : Share) :
    Except Exn Calculation :=
  if share.networkDifficulty = 0 then .ok c
  else
    let shares := c.shares.add share.miner share.difficulty
    -- a score that crosses the window is cut to what is left of it
    let crosses : Bool := window ≤ c.accumulatedScore + score share
    let cut := if crosses then window - c.accumulatedScore else score share
    if window = 0 then .error .divideByZero
    else
      let reward := cut * blockReward / window
      let blockRewardRemaining := c.blockRewardRemaining - reward
      let done := c.done || crosses
      if blockRewardRemaining ≤ 0 ∧ done = false then
        .error (.overflow "blockRewardRemaining < 0")
      else .ok
        { done
          accumulatedScore := c.accumulatedScore + cut
          blockRewardRemaining
          shareCutOffDate := if crosses then some share.created else c.shareCutOffDate
          shares
          rewards := if 0 < reward then c.rewards.add share.miner reward else c.rewards }

/-- `CalculateRewardsAsync`. More rounds than rows are never needed
(`calculateRewardsAsync_fuel`). -/
def calculateRewardsAsync (db : Database) (poolId : String) (window : ℚ) (block : Block)
    (blockReward : ℚ) (pageSize : ℕ) : Except Exn Calculation :=
  pagedLoop Share.created pageSize (processShare window blockReward) Calculation.done
    (fun before inclusive =>
      ShareRepository.readSharesBeforeCreatedAsync db poolId before inclusive pageSize)
    (db.shares.length + 1) block.created true (Calculation.start blockReward)

/-- The one pass over the shares of the pool up to the block, newest first. -/
def sharesUpTo (shares : List Share) (poolId : String) (created : DateTime) : List Share :=
  (ShareRepository.newestFirst shares poolId).filter fun s => s.created ≤ created

/-- The walk in one pass. -/
def calculateRewards (shares : List Share) (poolId : String) (window : ℚ) (block : Block)
    (blockReward : ℚ) : Except Exn Calculation :=
  loop (processShare window blockReward) Calculation.done (Calculation.start blockReward)
    (sharesUpTo shares poolId block.created)

/-- The shares the pages of the walk hold. -/
def sharesRead (db : Database) (poolId : String) (created : DateTime) (pageSize : ℕ) :
    List Share :=
  pagesFrom Share.created pageSize (ShareRepository.newestFirst db.shares poolId)
    (db.shares.length + 1) created true

/-! ## The scheme -/

/-- The rows a page of the code holds. -/
def pageSize : ℕ := 50000

/-- The window: the configured factor, 2 without a configuration. -/
def window (pool : PoolConfig) : ℚ :=
  (pool.paymentProcessing.payoutSchemeConfig.map PplnsConfig.factor).getD 2

/-- The `AddAmountAsync` calls for the rewards. -/
def rewardCredits (c : Calculation) : List Credit :=
  (c.rewards.entries.filter fun e => 0 < e.2).map fun e => ⟨e.1, e.2⟩

/-- Delete what lies before the cut-off date. -/
def discardShares (db : Database) (poolId : String) : Option DateTime → Database
  | none => db
  | some cutOff =>
    if 0 < ShareRepository.countSharesBeforeCreatedAsync db poolId cutOff then
      ShareRepository.deleteSharesBeforeCreatedAsync db poolId cutOff
    else db

/-- `UpdateBalancesAsync`: the walk reads on connections of its own, so it sees the committed
tables; the rest writes in the block's transaction. -/
def updateBalancesAsync (committed tx : Database) (pool : PoolConfig) (block : Block)
    (blockReward : ℚ) : Except Exn Database :=
  match calculateRewardsAsync committed pool.id (window pool) block blockReward pageSize with
  | .error e => .error e
  | .ok c =>
    .ok (discardShares (addAmounts tx pool.id (rewardCredits c)) pool.id c.shareCutOffDate)

/-- What an update that succeeds has done. -/
theorem updateBalancesAsync_ok {committed tx db : Database} {pool : PoolConfig} {block : Block}
    {blockReward : ℚ} (h : updateBalancesAsync committed tx pool block blockReward = .ok db) :
    ∃ c, calculateRewardsAsync committed pool.id (window pool) block blockReward pageSize = .ok c ∧
      db = discardShares (addAmounts tx pool.id (rewardCredits c)) pool.id c.shareCutOffDate := by
  unfold updateBalancesAsync at h
  split at h
  · exact absurd h (by simp)
  · rename_i c hc
    exact ⟨c, hc, (Except.ok.inj h).symm⟩

/-! ## What the pages hold -/

section Pages

variable {db : Database} {poolId : String} {created : DateTime} {n : ℕ}

theorem sharesUpTo_descending (shares : List Share) (poolId : String) (created : DateTime) :
    Descending Share.created (sharesUpTo shares poolId created) :=
  (ShareRepository.newestFirst_pairwise shares poolId).filter _

theorem length_sharesUpTo_le (db : Database) (poolId : String) (created : DateTime) :
    (sharesUpTo db.shares poolId created).length ≤ db.shares.length := by
  unfold sharesUpTo ShareRepository.newestFirst
  refine (List.length_filter_le _ _).trans ?_
  rw [List.length_insertionSort]
  exact List.length_filter_le _ _

theorem sharesRead_eq : sharesRead db poolId created n =
    pages Share.created n (db.shares.length + 1) (sharesUpTo db.shares poolId created) := by
  unfold sharesRead sharesUpTo
  rw [pagesFrom_eq]
  rfl

theorem sharesRead_sublist (hn : 0 < n) :
    (sharesRead db poolId created n).Sublist (sharesUpTo db.shares poolId created) := by
  rw [sharesRead_eq]
  exact pages_sublist hn _ (sharesUpTo_descending _ _ _)

theorem mem_of_mem_sharesUpTo {shares : List Share} {s : Share}
    (h : s ∈ sharesUpTo shares poolId created) : s ∈ shares := by
  have := (List.mem_filter.mp h).1
  unfold ShareRepository.newestFirst at this
  rw [List.mem_insertionSort] at this
  exact (List.mem_filter.mp this).1

theorem read_eq : (fun before inclusive =>
      ShareRepository.readSharesBeforeCreatedAsync db poolId before inclusive n) =
    readBefore Share.created n (ShareRepository.newestFirst db.shares poolId) := by
  funext before inclusive
  exact ShareRepository.readSharesBeforeCreatedAsync_eq db poolId before inclusive n

/-- **The paged walk** is the walk over the shares its pages hold. -/
theorem calculateRewardsAsync_eq (window : ℚ) (block : Block) (blockReward : ℚ) :
    calculateRewardsAsync db poolId window block blockReward n =
      loop (processShare window blockReward) Calculation.done (Calculation.start blockReward)
        (sharesRead db poolId block.created n) := by
  unfold calculateRewardsAsync sharesRead
  rw [read_eq, pagedLoop_eq]

/-- More rounds make no difference: the loop ends before its rounds do. -/
theorem calculateRewardsAsync_fuel (hn : 0 < n) (window : ℚ) (block : Block) (blockReward : ℚ)
    {fuel : ℕ} (hf : db.shares.length < fuel) :
    pagedLoop Share.created n (processShare window blockReward) Calculation.done
        (fun before inclusive =>
          ShareRepository.readSharesBeforeCreatedAsync db poolId before inclusive n)
        fuel block.created true (Calculation.start blockReward) =
      calculateRewardsAsync db poolId window block blockReward n := by
  have hlen := length_sharesUpTo_le db poolId block.created
  have hpages : pagesFrom Share.created n (ShareRepository.newestFirst db.shares poolId) fuel
      block.created true = pages Share.created n fuel (sharesUpTo db.shares poolId block.created) :=
    pagesFrom_eq _ fuel block.created true
  rw [calculateRewardsAsync_eq, sharesRead_eq, read_eq, pagedLoop_eq, hpages,
    pages_fuel hn (sharesUpTo_descending _ _ _) (hlen.trans_lt hf) (Nat.lt_succ_of_le hlen)]

end Pages

/-! ## What one share does -/

section Step

/-- What the body makes of a share while the walk is open. -/
inductive ShareStep (w B : ℚ) (c : Calculation) (x : Share) : Except Exn Calculation → Prop where
  /-- A share without a network difficulty is skipped. -/
  | skipped (hnet : x.networkDifficulty = 0) : ShareStep w B c x (.ok c)
  /-- There is no window to divide by. -/
  | noWindow (hnet : x.networkDifficulty ≠ 0) (hw : w = 0) :
      ShareStep w B c x (.error .divideByZero)
  /-- The share takes what is left of the window and ends the walk. -/
  | crossing (hnet : x.networkDifficulty ≠ 0) (hw : w ≠ 0)
      (hcross : w ≤ c.accumulatedScore + score x) : ShareStep w B c x (.ok
        { done := true
          accumulatedScore := c.accumulatedScore + (w - c.accumulatedScore)
          blockRewardRemaining := c.blockRewardRemaining - (w - c.accumulatedScore) * B / w
          shareCutOffDate := some x.created
          shares := c.shares.add x.miner x.difficulty
          rewards := if 0 < (w - c.accumulatedScore) * B / w then
              c.rewards.add x.miner ((w - c.accumulatedScore) * B / w)
            else c.rewards })
  /-- The share counts whole and leaves some of the reward. -/
  | inside (hnet : x.networkDifficulty ≠ 0) (hw : w ≠ 0)
      (hcross : c.accumulatedScore + score x < w)
      (hleft : 0 < c.blockRewardRemaining - score x * B / w) : ShareStep w B c x (.ok
        { done := false
          accumulatedScore := c.accumulatedScore + score x
          blockRewardRemaining := c.blockRewardRemaining - score x * B / w
          shareCutOffDate := c.shareCutOffDate
          shares := c.shares.add x.miner x.difficulty
          rewards := if 0 < score x * B / w then c.rewards.add x.miner (score x * B / w)
            else c.rewards })
  /-- The share leaves none of the reward before the window is full. -/
  | overflow (hnet : x.networkDifficulty ≠ 0) (hw : w ≠ 0)
      (hcross : c.accumulatedScore + score x < w)
      (hleft : c.blockRewardRemaining - score x * B / w ≤ 0) :
      ShareStep w B c x (.error (.overflow "blockRewardRemaining < 0"))

variable {w B : ℚ} {c : Calculation} {x : Share}

theorem score_of_skipped (h : x.networkDifficulty = 0) : score x = 0 := by
  rw [score, h, div_zero]

theorem processShare_step (hdone : c.done = false) :
    ShareStep w B c x (processShare w B c x) := by
  unfold processShare
  by_cases hnet : x.networkDifficulty = 0
  · rw [if_pos hnet]
    exact .skipped hnet
  simp only [if_neg hnet]
  by_cases hw : w = 0
  · rw [if_pos hw]
    exact .noWindow hnet hw
  rw [if_neg hw]
  by_cases hcross : w ≤ c.accumulatedScore + score x
  · simp only [hcross, decide_true, if_true, Bool.or_true, Bool.true_eq_false, and_false, if_false]
    exact .crossing hnet hw hcross
  · simp only [hcross, decide_false, Bool.false_eq_true, if_false, Bool.or_false, hdone, and_true]
    by_cases hleft : c.blockRewardRemaining - score x * B / w ≤ 0
    · rw [if_pos hleft]
      exact .overflow hnet hw (not_le.mp hcross) hleft
    · rw [if_neg hleft]
      exact .inside hnet hw (not_le.mp hcross) (not_le.mp hleft)

end Step

/-! ## What the walk returns -/

section Spec

variable {w B : ℚ}

/-- What the walk over `xs`, laid from the score of `c` on, makes of `c`. -/
structure Outcome (w B : ℚ) (c : Calculation) (xs : List Share) (c' : Calculation) : Prop where
  accumulatedScore : c'.accumulatedScore = min w (c.accumulatedScore + (xs.map score).sum)
  shareCutOffDate : c'.shareCutOffDate =
    ((crossing? score w c.accumulatedScore xs).map Share.created).or c.shareCutOffDate
  total : c'.rewards.total = c.rewards.total +
    B / w * (min w (c.accumulatedScore + (xs.map score).sum) - c.accumulatedScore)
  get : ∀ miner, c'.rewards.get miner = c.rewards.get miner +
    B / w * keyPart score w Share.miner miner c.accumulatedScore xs
  positive : (∀ e ∈ c.rewards.entries, 0 < e.2) → ∀ e ∈ c'.rewards.entries, 0 < e.2

/-- What a share inside the window leaves of the reward is what is left of the window. -/
theorem remaining_sub {c : Calculation} (hw : w ≠ 0)
    (hrem : c.blockRewardRemaining = B - B / w * c.accumulatedScore) (x : Share) :
    c.blockRewardRemaining - score x * B / w = B / w * (w - (c.accumulatedScore + score x)) := by
  rw [hrem]
  field_simp
  ring

/-- So what remains stays in step with the score. -/
theorem remaining_step {c : Calculation} (hw : w ≠ 0)
    (hrem : c.blockRewardRemaining = B - B / w * c.accumulatedScore) (x : Share) :
    c.blockRewardRemaining - score x * B / w = B - B / w * (c.accumulatedScore + score x) := by
  rw [remaining_sub hw hrem]
  field_simp

/-- A share inside the window passes the guard iff it is paid for at all. -/
theorem remaining_pos_iff {c : Calculation} (hw : w ≠ 0)
    (hrem : c.blockRewardRemaining = B - B / w * c.accumulatedScore) {x : Share}
    (hlt : c.accumulatedScore + score x < w) :
    0 < c.blockRewardRemaining - score x * B / w ↔ 0 < B / w := by
  rw [remaining_sub hw hrem]
  exact mul_pos_iff_of_pos_right (sub_pos.mpr hlt)

/-- A walk that is still inside the window. -/
structure Inside (w B : ℚ) (c : Calculation) : Prop where
  done : c.done = false
  accumulatedScore : c.accumulatedScore < w
  blockRewardRemaining : c.blockRewardRemaining = B - B / w * c.accumulatedScore

theorem Inside.start (hw : 0 < w) : Inside w B (Calculation.start B) where
  done := rfl
  accumulatedScore := hw
  blockRewardRemaining := by simp [Calculation.start]

/-- The rewards after a share: nothing is written for a zero reward. -/
theorem rewards_add (t : Tally String ℚ) (miner : String) {reward : ℚ} (hr : 0 ≤ reward) :
    (if 0 < reward then t.add miner reward else t).total = t.total + reward ∧
      (∀ k, (if 0 < reward then t.add miner reward else t).get k =
        t.get k + if miner = k then reward else 0) ∧
      ((∀ e ∈ t.entries, 0 < e.2) →
        ∀ e ∈ (if 0 < reward then t.add miner reward else t).entries, 0 < e.2) := by
  rcases hr.lt_or_eq with h | h
  · simp only [if_pos h]
    refine ⟨Tally.total_add t miner reward, fun k => ?_,
      fun ht => Tally.forall_add ht h fun v hv => ?_⟩
    · rw [Tally.get_add]
      split <;> simp
    · exact add_pos hv h
  · simp [← h]

/-- **One share** of a walk inside the window. -/
theorem processShare_spec (hB : 0 < B) {c : Calculation} (hc : Inside w B c) (hw : 0 < w)
    {x : Share} (hx : 0 ≤ score x) : ∃ c', processShare w B c x = .ok c' ∧
      Outcome w B c [x] c' ∧ (if w ≤ c.accumulatedScore + score x then c'.done = true
        else Inside w B c') := by
  obtain ⟨hdone, hacc, hrem⟩ := hc
  have hstep := processShare_step (w := w) (B := B) (x := x) hdone
  generalize processShare w B c x = r at hstep
  cases hstep with
  | skipped hnet =>
    have hzero := score_of_skipped hnet
    have hopen : ¬ w ≤ c.accumulatedScore + 0 := by simpa using hacc
    refine ⟨c, rfl, ⟨?_, ?_, ?_, ?_, id⟩, ?_⟩
    · simp [hzero, hacc.le]
    · simp [crossing?, hzero, not_le.mpr hacc]
    · simp [hzero, hacc.le]
    · intro k
      simp [keyPart, hzero, part]
    · rw [hzero, if_neg hopen]
      exact ⟨hdone, hacc, hrem⟩
  | noWindow hnet hw₀ => exact absurd hw₀ hw.ne'
  | crossing hnet _ hcross =>
    have hreward : 0 ≤ (w - c.accumulatedScore) * B / w :=
      div_nonneg (mul_nonneg (sub_nonneg.mpr hacc.le) hB.le) hw.le
    obtain ⟨htotal, hget, hpos⟩ := rewards_add c.rewards x.miner hreward
    refine ⟨_, rfl, ⟨?_, ?_, ?_, ?_, hpos⟩, ?_⟩
    · simp [hcross]
    · simp [crossing?, hcross]
    · rw [htotal]
      simp only [List.map_cons, List.map_nil, List.sum_singleton, min_eq_left hcross]
      ring
    · intro k
      rw [hget]
      simp only [keyPart, part_of_crosses hacc.le hcross, add_zero]
      split <;> ring
    · rw [if_pos hcross]
  | inside hnet _ hlt hleft =>
    have hreward : 0 ≤ score x * B / w := div_nonneg (mul_nonneg hx hB.le) hw.le
    obtain ⟨htotal, hget, hpos⟩ := rewards_add c.rewards x.miner hreward
    refine ⟨_, rfl, ⟨?_, ?_, ?_, ?_, hpos⟩, ?_⟩
    · simp [hlt.le]
    · simp [crossing?, not_le.mpr hlt]
    · rw [htotal]
      simp only [List.map_cons, List.map_nil, List.sum_singleton, min_eq_right hlt.le]
      ring
    · intro k
      rw [hget]
      simp only [keyPart, part_of_le hx hlt.le, add_zero]
      split <;> ring
    · rw [if_neg (not_le.mpr hlt)]
      exact ⟨rfl, hlt, remaining_step hw.ne' hrem x⟩
  | overflow hnet _ hlt hleft =>
    have hpos := (remaining_pos_iff hw.ne' hrem hlt).mpr (div_pos hB hw)
    exact absurd hpos (not_lt.mpr hleft)

theorem sum_score_nonneg {xs : List Share} (h : ∀ x ∈ xs, 0 ≤ score x) :
    0 ≤ (xs.map score).sum := List.sum_nonneg fun v hv => by
  obtain ⟨x, hx, rfl⟩ := List.mem_map.mp hv
  exact h x hx

/-- **The walk over a list of shares**: it succeeds, and returns what fills the window. -/
theorem loop_spec (hB : 0 < B) (hw : 0 < w) {c : Calculation} (hc : Inside w B c)
    {xs : List Share} (hxs : ∀ x ∈ xs, 0 ≤ score x) :
    ∃ c', loop (processShare w B) Calculation.done c xs = .ok c' ∧ Outcome w B c xs c' := by
  induction xs generalizing c with
  | nil =>
    refine ⟨c, rfl, ⟨?_, ?_, ?_, ?_, id⟩⟩
    · simp [hc.accumulatedScore.le]
    · simp [crossing?]
    · simp [hc.accumulatedScore.le]
    · simp [keyPart]
  | cons x xs ih =>
    have hx := hxs x List.mem_cons_self
    have hrest : ∀ y ∈ xs, 0 ≤ score y := fun y hy => hxs y (List.mem_cons_of_mem x hy)
    have hsum := sum_score_nonneg hrest
    obtain ⟨c₁, hstep, ⟨hacc, hcut, htotal, hget, hpos⟩, hnext⟩ := processShare_spec hB hc hw hx
    simp only [loop, hc.done, Bool.false_eq_true, if_false, hstep]
    simp only [List.map_cons, List.map_nil, List.sum_singleton] at hacc htotal
    by_cases hcross : w ≤ c.accumulatedScore + score x
    · -- the window is full: the loop stops, and the rest would count nothing
      rw [if_pos hcross] at hnext
      refine ⟨c₁, loop_of_done hnext xs, ⟨?_, ?_, ?_, ?_, hpos⟩⟩
      · rw [hacc, List.map_cons, List.sum_cons, min_eq_left hcross, min_eq_left (by linarith)]
      · rw [hcut]
        simp [crossing?, hcross]
      · rw [htotal, List.map_cons, List.sum_cons, min_eq_left hcross, min_eq_left (by linarith)]
      · intro k
        have hrest₀ := keyPart_of_past Share.miner k hrest hcross
        rw [hget]
        simp only [keyPart, hrest₀]
    · rw [if_neg hcross] at hnext
      obtain ⟨c₂, hloop, ⟨hacc₂, hcut₂, htotal₂, hget₂, hpos₂⟩⟩ := ih hnext hrest
      have hacc₁ : c₁.accumulatedScore = c.accumulatedScore + score x := by
        rw [hacc, min_eq_right (not_le.mp hcross).le]
      rw [hacc₁] at hacc₂ hcut₂ htotal₂ hget₂
      rw [min_eq_right (not_le.mp hcross).le] at htotal
      refine ⟨c₂, hloop, ⟨?_, ?_, ?_, ?_, fun h => hpos₂ (hpos h)⟩⟩
      · rw [hacc₂, List.map_cons, List.sum_cons, add_assoc]
      · rw [hcut₂, hcut]
        simp [crossing?, hcross]
      · rw [htotal₂, htotal, List.map_cons, List.sum_cons, add_assoc c.accumulatedScore]
        ring
      · intro k
        rw [hget₂, hget]
        simp only [keyPart]
        ring

end Spec

end AionPool.Payments.PPLNSPaymentScheme

namespace AionPool.Payments

/-- The credits of the block's transaction, when the walk returns `c`. -/
def blockCredits (pool : Configuration.PoolConfig) (block : Persistence.Block)
    (c : PPLNSPaymentScheme.Calculation) : List Credit :=
  (AionPayoutHandler.updateBlockRewardBalancesAsync pool block).2 ++
    PPLNSPaymentScheme.rewardCredits c

end AionPool.Payments
