import AionPool.Aion.Classify
import AionPool.Payments.Solo

/-!
# The payout manager

`UpdatePoolBalancesAsync`: the pending blocks of a pool are classified, and each classified block
is processed in a transaction of its own, oldest first. A transaction that fails ends the round.

* `blockTransaction_ok`: what a block's transaction does.
* **`processBlocks_blocks`**: a round rewrites rows in place; rows of other heights than those of
  the classified blocks keep their values.
* `roundBlocks_spec`: the blocks of a round are selected pending ones, one a height.

Models `PayoutManager.cs:145-186` and `:218-242`, and `AionPayoutHandler.cs:195-200`.
-/

namespace AionPool.Payments.PayoutManager

open AionPool.Configuration AionPool.Persistence AionPool.Daemon AionPool.Aion
open AionPool.Lib.Binary64 (Double)

/-- `CalculateBlockEffortAsync`, which reads on connections of its own. -/
def calculateBlockEffortAsync (committed : Database) (pool : PoolConfig) (block : Block) : Block :=
  let start := match BlockRepository.getBlockBeforeAsync committed pool.id
      [.confirmed, .orphaned, .pending] block.created with
    | none => 0
    | some lastBlock => lastBlock.created
  match ShareRepository.getAccumulatedShareDifficultyBetweenCreatedAsync committed pool.id start
      block.created with
  | none => block
  | some diff => { block with
      effort := some (Double.div (Double.ofRat diff) block.networkDifficulty) }

/-- The scheme's `UpdateBalancesAsync`. -/
def schemeUpdateBalancesAsync (committed tx : Database) (pool : PoolConfig) (block : Block)
    (blockReward : ℚ) : Except Exn Database :=
  match pool.paymentProcessing.payoutScheme with
  | .pplns => PPLNSPaymentScheme.updateBalancesAsync committed tx pool block blockReward
  | .solo => SoloPaymentScheme.updateBalancesAsync tx pool block blockReward

/-- The transaction of one classified block. -/
def blockTransaction (pool : PoolConfig) (db : Database) (block : Block) : Except Exn Database :=
  let block := if block.effort.isNone then calculateBlockEffortAsync db pool block else block
  match block.status with
  | .confirmed =>
    let (blockReward, credits) := AionPayoutHandler.updateBlockRewardBalancesAsync pool block
    match schemeUpdateBalancesAsync db (addAmounts db pool.id credits) pool block blockReward with
    | .error e => .error e
    | .ok tx => .ok (BlockRepository.updateBlockAsync tx block)
  | .orphaned | .pending => .ok (BlockRepository.updateBlockAsync db block)

/-- The blocks of a round, `updatedBlocks.OrderBy(x => x.Created)`. -/
def roundBlocks (updatedBlocks : List Block) : List Block :=
  updatedBlocks.insertionSort fun a b => a.created ≤ b.created

/-- The transactions of a round, from the `i`-th on. One that throws ends the round. -/
def processBlocks (pool : PoolConfig) (outcome : ℕ → TxOutcome) :
    ℕ → Database → List Block → Database
  | _, db, [] => db
  | i, db, block :: blocks =>
    match blockTransaction pool db block, outcome i with
    | .error _, _ | _, .rolledBack => db
    | .ok db', .ackLost => db'
    | .ok db', .committed => processBlocks pool outcome (i + 1) db' blocks

/-- `UpdatePoolBalancesAsync`, for a result of the query for pending blocks. -/
def updatePoolBalancesAsync (pool : PoolConfig) (answers : Answers) (outcome : ℕ → TxOutcome)
    (pendingBlocks : List Block) (db : Database) : Database :=
  match classifyBlocksAsync pool answers pendingBlocks with
  | .error _ => db
  | .ok updatedBlocks => processBlocks pool outcome 0 db (roundBlocks updatedBlocks)

/-! ## What a transaction does to the blocks -/

section Blocks

variable {pool : PoolConfig}

theorem calculateBlockEffortAsync_eq (db : Database) (pool : PoolConfig) (block : Block) :
    ∃ effort, calculateBlockEffortAsync db pool block = { block with effort } := by
  unfold calculateBlockEffortAsync
  dsimp only
  split
  · exact ⟨block.effort, rfl⟩
  · exact ⟨_, rfl⟩

/-- The block a transaction processes differs from the classified one in its effort. -/
theorem effort_eq (db : Database) (pool : PoolConfig) (block : Block) :
    ∃ effort, (if block.effort.isNone then calculateBlockEffortAsync db pool block else block) =
      { block with effort } := by
  split
  · exact calculateBlockEffortAsync_eq db pool block
  · exact ⟨block.effort, rfl⟩

theorem discardShares_eq (db : Database) (poolId : String) (cutOff : Option DateTime) :
    ∃ shares, PPLNSPaymentScheme.discardShares db poolId cutOff = { db with shares } := by
  unfold PPLNSPaymentScheme.discardShares
  split
  · exact ⟨db.shares, rfl⟩
  · split
    · exact ⟨_, rfl⟩
    · exact ⟨db.shares, rfl⟩

theorem discardShares_blocks (db : Database) (poolId : String) (cutOff : Option DateTime) :
    (PPLNSPaymentScheme.discardShares db poolId cutOff).blocks = db.blocks := by
  obtain ⟨shares, h⟩ := discardShares_eq db poolId cutOff
  rw [h]

theorem discardShares_balances (db : Database) (poolId : String) (cutOff : Option DateTime) :
    (PPLNSPaymentScheme.discardShares db poolId cutOff).balances = db.balances := by
  obtain ⟨shares, h⟩ := discardShares_eq db poolId cutOff
  rw [h]

/-- The schemes touch no blocks. -/
theorem schemeUpdateBalancesAsync_blocks {committed tx db' : Database} {block : Block}
    {blockReward : ℚ}
    (h : schemeUpdateBalancesAsync committed tx pool block blockReward = .ok db') :
    db'.blocks = tx.blocks := by
  unfold schemeUpdateBalancesAsync at h
  split at h
  · obtain ⟨c, -, rfl⟩ := PPLNSPaymentScheme.updateBalancesAsync_ok h
    rw [discardShares_blocks, addAmounts_blocks]
  · unfold SoloPaymentScheme.updateBalancesAsync at h
    split at h
    · exact absurd h (by simp)
    · rw [← Except.ok.inj h, discardShares_blocks, addAmounts_blocks]

/-- The credits of a block do not depend on its effort. -/
theorem updateBlockRewardBalancesAsync_effort (pool : PoolConfig) (block : Block)
    (effort : Option Double) :
    AionPayoutHandler.updateBlockRewardBalancesAsync pool { block with effort } =
      AionPayoutHandler.updateBlockRewardBalancesAsync pool block := by
  unfold AionPayoutHandler.updateBlockRewardBalancesAsync
    PayoutHandlerBase.updateBlockRewardBalancesAsync
  rw [PayoutHandlerBase.distribute_effort]

/-- **One transaction**: for a confirmed block the credits of the reward recipients and the scheme,
for every block the update of its rows. -/
theorem blockTransaction_ok {db db' : Database} {block : Block}
    (h : blockTransaction pool db block = .ok db') :
    ∃ effort tx, db' = BlockRepository.updateBlockAsync tx { block with effort } ∧
      (block.status = .confirmed → schemeUpdateBalancesAsync db
        (addAmounts db pool.id (AionPayoutHandler.updateBlockRewardBalancesAsync pool block).2) pool
        { block with effort } (AionPayoutHandler.updateBlockRewardBalancesAsync pool block).1 =
          .ok tx) ∧
      (block.status ≠ .confirmed → tx = db) := by
  obtain ⟨effort, heffort⟩ := effort_eq db pool block
  unfold blockTransaction at h
  rw [heffort] at h
  dsimp only at h
  split at h
  · rename_i hst
    split at h
    · exact absurd h (by simp)
    · rename_i tx htx
      rw [updateBlockRewardBalancesAsync_effort] at htx
      exact ⟨effort, tx, (Except.ok.inj h).symm, fun _ => htx, fun hne => absurd hst hne⟩
  · rename_i hst
    exact ⟨effort, db, (Except.ok.inj h).symm, fun hc => by simp [hst] at hc, fun _ => rfl⟩
  · rename_i hst
    exact ⟨effort, db, (Except.ok.inj h).symm, fun hc => by simp [hst] at hc, fun _ => rfl⟩

/-- To the blocks it is one update, with the block's status. -/
theorem blockTransaction_blocks {db db' : Database} {block : Block}
    (h : blockTransaction pool db block = .ok db') : ∃ effort,
      db'.blocks = (BlockRepository.updateBlockAsync db { block with effort }).blocks := by
  obtain ⟨effort, tx, rfl, hconf, hother⟩ := blockTransaction_ok h
  have hblocks : tx.blocks = db.blocks := by
    by_cases hst : block.status = .confirmed
    · rw [schemeUpdateBalancesAsync_blocks (hconf hst), addAmounts_blocks]
    · rw [hother hst]
  refine ⟨effort, ?_⟩
  unfold BlockRepository.updateBlockAsync
  rw [hblocks]

/-- A block that is not confirmed cannot fail. -/
theorem blockTransaction_of_not_confirmed (pool : PoolConfig) (db : Database) {block : Block}
    (h : block.status ≠ .confirmed) : ∃ db', blockTransaction pool db block = .ok db' := by
  obtain ⟨effort, heffort⟩ := effort_eq db pool block
  unfold blockTransaction
  rw [heffort]
  dsimp only
  split
  · rename_i hst
    exact absurd hst h
  · exact ⟨_, rfl⟩
  · exact ⟨_, rfl⟩

/-- **The transaction of a confirmed PPLNS block** writes its `blockCredits` to the balances, and
nothing else. -/
theorem blockTransaction_balances {db db' : Database} {block : Block}
    (hst : block.status = .confirmed) (hscheme : pool.paymentProcessing.payoutScheme = .pplns)
    (h : blockTransaction pool db block = .ok db') :
    ∃ c, PPLNSPaymentScheme.calculateRewardsAsync db pool.id (PPLNSPaymentScheme.window pool) block
        (AionPayoutHandler.updateBlockRewardBalancesAsync pool block).1
        PPLNSPaymentScheme.pageSize = .ok c ∧
      db'.balances = (addAmounts db pool.id (blockCredits pool block c)).balances := by
  obtain ⟨effort, tx, rfl, hconf, -⟩ := blockTransaction_ok h
  have htx := hconf hst
  unfold schemeUpdateBalancesAsync at htx
  rw [hscheme] at htx
  obtain ⟨c, hc, rfl⟩ := PPLNSPaymentScheme.updateBalancesAsync_ok htx
  refine ⟨c, hc, ?_⟩
  rw [blockCredits, addAmounts_append]
  exact discardShares_balances _ _ _

/-- What an update of `block` makes of a row. -/
def rewrite (block r : Block) : Block :=
  if r.blockHeight = block.blockHeight then BlockRepository.updated block r else r

theorem rewrite_key (block r : Block) :
    (rewrite block r).poolId = r.poolId ∧ (rewrite block r).blockHeight = r.blockHeight := by
  unfold rewrite
  split
  · rename_i h
    exact ⟨rfl, h.symm⟩
  · exact ⟨rfl, rfl⟩

theorem rewrite_of_ne {block r : Block} (h : r.blockHeight ≠ block.blockHeight) :
    rewrite block r = r := if_neg h

theorem blockTransaction_map {db db' : Database} {block : Block}
    (h : blockTransaction pool db block = .ok db') :
    ∃ effort, db'.blocks = db.blocks.map (rewrite { block with effort }) :=
  blockTransaction_blocks h

/-- **A round** rewrites rows in place. -/
theorem processBlocks_blocks (pool : PoolConfig) (outcome : ℕ → TxOutcome) :
    ∀ (blocks : List Block) (i : ℕ) (db : Database),
      ∃ g : Block → Block, (processBlocks pool outcome i db blocks).blocks = db.blocks.map g ∧
        (∀ r, (g r).poolId = r.poolId ∧ (g r).blockHeight = r.blockHeight) ∧
        ∀ r, r.blockHeight ∉ blocks.map Block.blockHeight → g r = r
  | [], _, db => ⟨id, by simp [processBlocks], fun _ => ⟨rfl, rfl⟩, fun _ _ => rfl⟩
  | block :: blocks, i, db => by
    rw [processBlocks]
    split
    · exact ⟨id, by simp, fun _ => ⟨rfl, rfl⟩, fun _ _ => rfl⟩
    · exact ⟨id, by simp, fun _ => ⟨rfl, rfl⟩, fun _ _ => rfl⟩
    · rename_i db' h _
      obtain ⟨effort, hdb'⟩ := blockTransaction_map h
      refine ⟨_, hdb', rewrite_key _, fun r hr => rewrite_of_ne fun hh => hr ?_⟩
      rw [hh]
      exact List.mem_cons_self
    · rename_i db' h _
      obtain ⟨effort, hdb'⟩ := blockTransaction_map h
      obtain ⟨g, hg, hkey, hframe⟩ := processBlocks_blocks pool outcome blocks (i + 1) db'
      refine ⟨g ∘ rewrite { block with effort }, ?_, fun r => ?_, fun r hr => ?_⟩
      · rw [hg, hdb', List.map_map]
      · obtain ⟨h₁, h₂⟩ := hkey (rewrite { block with effort } r)
        obtain ⟨h₃, h₄⟩ := rewrite_key { block with effort } r
        exact ⟨h₁.trans h₃, h₂.trans h₄⟩
      · rw [List.map_cons, List.mem_cons, not_or] at hr
        have hsame : rewrite { block with effort } r = r := rewrite_of_ne hr.1
        rw [Function.comp, hsame]
        exact hframe r hr.2

theorem roundBlocks_perm (bs : List Block) : (roundBlocks bs).Perm bs :=
  List.perm_insertionSort _ bs

/-- The blocks of a round are selected pending ones, classified; no two have one height. -/
theorem roundBlocks_spec {answers : Answers} {pendingBlocks updatedBlocks : List Block}
    (h : classifyBlocksAsync pool answers pendingBlocks = .ok updatedBlocks) :
    (∀ b ∈ roundBlocks updatedBlocks, b.blockHeight ∈ pendingBlocks.map Block.blockHeight) ∧
      ((pendingBlocks.map Block.blockHeight).Nodup →
        ((roundBlocks updatedBlocks).map Block.blockHeight).Nodup) := by
  obtain ⟨rs, -, rfl, hsub, hfrom⟩ := classifyBlocksAsync_spec h
  have hheights : (rs.map Classified.block).map Block.blockHeight =
      (rs.map Classified.stored).map Block.blockHeight := by
    rw [List.map_map, List.map_map]
    refine List.map_congr_left fun r hr => ?_
    obtain ⟨reward, hr⟩ := hfrom r hr
    simp only [Function.comp, hr, classify_blockHeight]
  have hsubh := hsub.map Block.blockHeight
  constructor
  · intro b hb
    have hb' := List.mem_map_of_mem (f := Block.blockHeight) ((roundBlocks_perm _).mem_iff.mp hb)
    rw [hheights] at hb'
    exact hsubh.subset hb'
  · intro hnd
    rw [((roundBlocks_perm _).map Block.blockHeight).nodup_iff, hheights]
    exact hnd.sublist hsubh

end Blocks

end AionPool.Payments.PayoutManager
