import AionPool.Lib.Intervals
import AionPool.Mining.ShareRecorder
import AionPool.Payments.Manager

/-!
# What the effort of a block counts

`CalculateBlockEffortAsync` adds up the shares after the newest earlier block of the pool and before
the block, by a query that excludes both ends.

* `effortStart`, `effortShares`: the interval and its shares;
  `calculateBlockEffortAsync_eq_effortShares`: the effort is their difficulty.
* `PredecessorsStored`: the earlier block rows are those of the earlier blocks.
* **`effortShares_partition_iff`**: the efforts count each share once exactly if no share was
  created with a block. The share that found a block always is, and no effort counts it.

About `PayoutManager.cs:218-242`, `BlockRepository.cs:120-135` and `ShareRepository.cs:170-177`.
-/

namespace AionPool.Payments.PayoutManager

open AionPool.Configuration AionPool.Persistence
open AionPool.Lib.Binary64 (Double)
open AionPool.Lib.Intervals (IsStart existsUnique_interval_iff)

/-- The statuses of the blocks an effort starts at. -/
def effortStatus : List BlockStatus := [.confirmed, .orphaned, .pending]

/-- Where the interval of a block starts: at the newest earlier block, or at `DateTime.MinValue`. -/
def effortStart (committed : Database) (poolId : String) (block : Block) : DateTime :=
  match BlockRepository.getBlockBeforeAsync committed poolId effortStatus block.created with
  | none => 0
  | some lastBlock => lastBlock.created

/-- The shares whose difficulties the effort of a block counts. -/
def effortShares (committed : Database) (poolId : String) (block : Block) : List Share :=
  committed.shares.filter fun s =>
    s.poolId = poolId ∧ effortStart committed poolId block < s.created ∧ s.created < block.created

/-- The effort is the difficulty of the counted shares; over no shares it is not written. -/
theorem calculateBlockEffortAsync_eq_effortShares (db : Database) (pool : PoolConfig)
    (block : Block) :
    calculateBlockEffortAsync db pool block =
      if (effortShares db pool.id block).isEmpty then block
      else { block with
        effort := some (Double.div
          (Double.ofRat ((effortShares db pool.id block).map Share.difficulty).sum)
          block.networkDifficulty) } := by
  have hsum : ShareRepository.getAccumulatedShareDifficultyBetweenCreatedAsync db pool.id
      (effortStart db pool.id block) block.created =
        if (effortShares db pool.id block).isEmpty then none
        else some ((effortShares db pool.id block).map Share.difficulty).sum := rfl
  have helim : calculateBlockEffortAsync db pool block =
      (ShareRepository.getAccumulatedShareDifficultyBetweenCreatedAsync db pool.id
        (effortStart db pool.id block) block.created).elim block fun diff => { block with
          effort := some (Double.div (Double.ofRat diff) block.networkDifficulty) } := by
    unfold calculateBlockEffortAsync effortStart effortStatus
    dsimp only
    cases BlockRepository.getBlockBeforeAsync db pool.id
        [.confirmed, .orphaned, .pending] block.created with
    | none =>
      dsimp only
      cases ShareRepository.getAccumulatedShareDifficultyBetweenCreatedAsync db pool.id 0
          block.created with
      | none => rfl
      | some diff => rfl
    | some lastBlock =>
      dsimp only
      cases ShareRepository.getAccumulatedShareDifficultyBetweenCreatedAsync db pool.id
          lastBlock.created block.created with
      | none => rfl
      | some diff => rfl
  rw [helim, hsum]
  by_cases hempty : (effortShares db pool.id block).isEmpty = true
  · rw [if_pos hempty, if_pos hempty, Option.elim_none]
  · rw [if_neg hempty, if_neg hempty, Option.elim_some]

theorem mem_effortShares {db : Database} {poolId : String} {block : Block} {s : Share} :
    s ∈ effortShares db poolId block ↔ s ∈ db.shares ∧ s.poolId = poolId ∧
      effortStart db poolId block < s.created ∧ s.created < block.created := by
  unfold effortShares
  rw [List.mem_filter, decide_eq_true_iff]

/-! ## The newest earlier block -/

/-- A block row that an effort may start at. -/
theorem mem_blocksBefore {db : Database} {poolId : String} {before : DateTime} {r : Block} :
    r ∈ (db.blocks.filter fun b => b.poolId = poolId ∧ b.status ∈ effortStatus ∧ b.created < before)
      ↔ r ∈ db.blocks ∧ r.poolId = poolId ∧ r.created < before := by
  have hstatus : r.status ∈ effortStatus := by cases r.status <;> decide
  rw [List.mem_filter, decide_eq_true_iff]
  simp only [hstatus, true_and]

instance : Std.Total fun a b : Block => b.created ≤ a.created := ⟨fun _ _ => le_total _ _⟩
instance : IsTrans Block fun a b => b.created ≤ a.created := ⟨fun _ _ _ h h' => h'.trans h⟩

/-- The query returns a row whose `created` is the greatest before the block's. -/
theorem getBlockBeforeAsync_spec (db : Database) (poolId : String) (before : DateTime) :
    match BlockRepository.getBlockBeforeAsync db poolId effortStatus before with
    | none => ∀ r ∈ db.blocks, r.poolId = poolId → ¬ r.created < before
    | some b => (b ∈ db.blocks ∧ b.poolId = poolId ∧ b.created < before) ∧
        ∀ r ∈ db.blocks, r.poolId = poolId → r.created < before → r.created ≤ b.created := by
  set rows := db.blocks.filter fun b =>
    b.poolId = poolId ∧ b.status ∈ effortStatus ∧ b.created < before with hrows
  have hmem : ∀ r, r ∈ rows ↔ r ∈ db.blocks ∧ r.poolId = poolId ∧ r.created < before :=
    fun r => mem_blocksBefore
  have hget : BlockRepository.getBlockBeforeAsync db poolId effortStatus before =
      (rows.insertionSort fun a b => b.created ≤ a.created).head? := rfl
  have hsorted := List.pairwise_insertionSort (fun a b : Block => b.created ≤ a.created) rows
  have hperm := List.perm_insertionSort (fun a b : Block => b.created ≤ a.created) rows
  rw [hget]
  cases h : rows.insertionSort fun a b => b.created ≤ a.created with
  | nil =>
    rw [h] at hperm
    intro r hr hp hlt
    exact absurd (hperm.mem_iff.mpr ((hmem r).mpr ⟨hr, hp, hlt⟩)) List.not_mem_nil
  | cons b bs =>
    rw [h] at hperm hsorted
    refine ⟨(hmem b).mp (hperm.mem_iff.mp List.mem_cons_self), fun r hr hp hlt => ?_⟩
    rcases List.mem_cons.mp (hperm.mem_iff.mpr ((hmem r).mpr ⟨hr, hp, hlt⟩)) with rfl | hbs
    · exact le_refl _
    · exact List.rel_of_pairwise_cons hsorted hbs

/-! ## The intervals of a sequence of blocks -/

/-- The rows of the pool before `block` are the earlier blocks of the sequence. -/
structure PredecessorsStored (poolId : String) (blocks : List Block) (db : Database)
    (block : Block) : Prop where
  stored : ∀ c ∈ blocks, c.created < block.created →
    ∃ r ∈ db.blocks, r.poolId = poolId ∧ r.created = c.created
  only : ∀ r ∈ db.blocks, r.poolId = poolId → r.created < block.created →
    ∃ c ∈ blocks, c.created = r.created

/-- The interval of a block starts at the block before it. -/
theorem isStart_effortStart {poolId : String} {blocks : List Block} {db : Database} {block : Block}
    (h : PredecessorsStored poolId blocks db block) :
    IsStart Block.created blocks (effortStart db poolId block) block := by
  have hspec := getBlockBeforeAsync_spec db poolId block.created
  unfold effortStart
  split
  · rename_i hnone
    rw [hnone] at hspec
    refine ⟨.inl rfl, fun c hc hlt => ?_⟩
    obtain ⟨r, hr, hp, hrc⟩ := h.stored c hc hlt
    exact absurd (hrc ▸ hlt) (hspec r hr hp)
  · rename_i b hsome
    rw [hsome] at hspec
    obtain ⟨⟨hb, hp, hlt⟩, hmax⟩ := hspec
    constructor
    · obtain ⟨c, hc, hcb⟩ := h.only b hb hp hlt
      exact .inr ⟨c, hc, hcb, hcb ▸ hlt⟩
    · intro c hc hclt
      obtain ⟨r, hr, hrp, hrc⟩ := h.stored c hc hclt
      exact hrc ▸ hmax r hr hrp (hrc ▸ hclt)

/-- **The efforts partition the shares exactly if no share was created with a block.** `db b` is
what the database holds when the effort of `b` is calculated, from the shares it counts. -/
theorem effortShares_partition_iff (pool : PoolConfig) {shares : List Share} {blocks : List Block}
    {db : Block → Database} (hcreated : (blocks.map Block.created).Nodup)
    (hshares : ∀ b ∈ blocks, (db b).shares = shares)
    (hstored : ∀ b ∈ blocks, PredecessorsStored pool.id blocks (db b) b) :
    (∀ b ∈ blocks, calculateBlockEffortAsync (db b) pool b =
      if (effortShares (db b) pool.id b).isEmpty then b
      else { b with
        effort := some (Double.div
          (Double.ofRat ((effortShares (db b) pool.id b).map Share.difficulty).sum)
          b.networkDifficulty) }) ∧
    ((∀ s ∈ shares, s.poolId = pool.id → (∃ b ∈ blocks, s.created ≤ b.created) →
      ∃! b, b ∈ blocks ∧ s ∈ effortShares (db b) pool.id b) ↔
    ∀ s ∈ shares, s.poolId = pool.id → (∃ b ∈ blocks, s.created ≤ b.created) →
      s.created ≠ 0 ∧ ∀ b ∈ blocks, s.created ≠ b.created) := by
  have hinj : ∀ a ∈ blocks, ∀ b ∈ blocks, a.created = b.created → a = b :=
    fun a ha b hb hab => List.inj_on_of_nodup_map hcreated ha hb hab
  refine ⟨fun b _ => calculateBlockEffortAsync_eq_effortShares (db b) pool b,
    forall₄_congr fun s hs hpool hlast => ?_⟩
  have hcount : ∀ b, (b ∈ blocks ∧ s ∈ effortShares (db b) pool.id b) ↔
      (b ∈ blocks ∧ effortStart (db b) pool.id b < s.created ∧ s.created < b.created) := by
    refine fun b => and_congr_right fun hb => ?_
    rw [mem_effortShares, hshares b hb]
    exact ⟨fun h => h.2.2, fun h => ⟨hs, hpool, h⟩⟩
  rw [existsUnique_congr hcount]
  exact existsUnique_interval_iff hinj (fun b hb => isStart_effortStart (hstored b hb)) hlast

/-- A database with two blocks, and with shares between them and before the first. -/
def betweenBlocks : Database :=
  { Database.empty with
    shares := [sampleShare "a" 1 5, sampleShare "b" 2 15]
    blocks := [sampleBlock "aion1" 6 0 10, sampleBlock "aion1" 7 0 20] }

/-- With all blocks of the sequence stored, the predecessors of each are. -/
theorem predecessorsStored_of_blocks {poolId : String} {blocks : List Block} {db : Database}
    (h : db.blocks = blocks) (hpool : ∀ b ∈ blocks, b.poolId = poolId) (block : Block) :
    PredecessorsStored poolId blocks db block where
  stored c hc _ := ⟨c, h ▸ hc, hpool c hc, rfl⟩
  only r hr _ _ := ⟨r, h ▸ hr, rfl⟩

/-- The two shares are counted once each, and the effort of the second block is that of the second
share. -/
theorem effortShares_partition_two :
    (∀ s ∈ betweenBlocks.shares, s.poolId = "aion1" →
      (∃ b ∈ betweenBlocks.blocks, s.created ≤ b.created) →
      ∃! b, b ∈ betweenBlocks.blocks ∧ s ∈ effortShares betweenBlocks "aion1" b) ∧
    betweenBlocks.shares.length = 2 ∧
    (calculateBlockEffortAsync betweenBlocks samplePool (sampleBlock "aion1" 7 0 20)).effort =
      some (.div (.ofRat 2) (sampleBlock "aion1" 7 0 20).networkDifficulty) := by
  obtain ⟨heffort, hiff⟩ := @effortShares_partition_iff samplePool betweenBlocks.shares
    betweenBlocks.blocks (fun _ => betweenBlocks) (by decide) (fun _ _ => rfl)
    fun b _ => predecessorsStored_of_blocks rfl (by decide) b
  refine ⟨hiff.mpr fun s hs _ _ => ?_, rfl, ?_⟩
  · exact (by decide : ∀ s ∈ betweenBlocks.shares,
      s.created ≠ 0 ∧ ∀ b ∈ betweenBlocks.blocks, s.created ≠ b.created) s hs
  · have hshares : effortShares betweenBlocks "aion1" (sampleBlock "aion1" 7 0 20) =
        [sampleShare "b" 2 15] := by decide +kernel
    have hsum : ([sampleShare "b" 2 15].map Share.difficulty).sum = 2 := by decide +kernel
    rw [heffort _ (by decide), show samplePool.id = "aion1" from rfl, hshares,
      if_neg (by decide), hsum]

/-- A share that was created with a block of the sequence counts in the effort of none. -/
theorem not_mem_effortShares_of_created {poolId : String} {blocks : List Block}
    {db : Block → Database} (hstored : ∀ b ∈ blocks, PredecessorsStored poolId blocks (db b) b)
    {s : Share} {found : Block} (hfound : found ∈ blocks) (hs : s.created = found.created) :
    ∀ b ∈ blocks, s ∉ effortShares (db b) poolId b := fun b hb hmem => by
  have h := (mem_effortShares.mp hmem).2.2
  rw [hs] at h
  exact Lib.Intervals.not_mem_interval
    (fun c hc => isStart_effortStart (hstored c hc)) hb hfound h

/-- A share that found a block. -/
def sampleFinder : Mining.Share ℚ where
  poolId := "aion1"
  miner := "a"
  worker := none
  ipAddress := none
  userAgent := none
  source := none
  difficulty := 4
  blockHeight := 7
  blockReward := 0
  blockHash := none
  isBlockCandidate := true
  transactionConfirmationData := "0x0"
  networkDifficulty := 4
  created := 10

/-- The share that found the only block is recorded with it, and is counted nowhere. -/
theorem finder_counted_nowhere :
    let db := Mining.persistSharesCoreAsync Database.empty [sampleFinder]
    sampleFinder.toModelShare ∈ db.shares ∧ sampleFinder.toModelShare.poolId = "aion1" ∧
      (∃ b ∈ db.blocks, sampleFinder.toModelShare.created ≤ b.created) ∧
      ¬ ∃! b, b ∈ db.blocks ∧ sampleFinder.toModelShare ∈ effortShares db "aion1" b := by
  intro db
  have hfound : BlockRepository.row sampleFinder.toModelBlock ∈ db.blocks :=
    Mining.mem_blocks_persistSharesCoreAsync.mpr
      (.inr ⟨sampleFinder, List.mem_singleton_self _, rfl, rfl⟩)
  refine ⟨by decide, rfl, ⟨_, hfound, le_refl _⟩, ?_⟩
  rintro ⟨b, ⟨hb, hmem⟩, _⟩
  have hstored : ∀ c ∈ db.blocks, PredecessorsStored "aion1" db.blocks db c :=
    fun c _ => predecessorsStored_of_blocks rfl (by decide) c
  exact not_mem_effortShares_of_created hstored hfound rfl b hb hmem

end AionPool.Payments.PayoutManager
