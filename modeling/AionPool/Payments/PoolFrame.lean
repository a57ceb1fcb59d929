import AionPool.Aion.Confirmation
import AionPool.Payments.Manager

/-!
# What a round does to the blocks of other pools

`UpdateBlockAsync` selects rows by their height alone, so a round of one pool rewrites the rows of
every pool at the heights of its own pending blocks.

* `foreignAnswers`: daemons by which every block was mined by someone else, so that every
  transaction of a round commits.
* **`other_pools_unchanged_iff`**: every round of a pool leaves the blocks of the other pools alone
  iff no other pool has a block at a height at which this pool has a pending one.

About `BlockRepository.cs:66-74` and `PayoutManager.cs:145-186`.
-/

namespace AionPool.Payments.PayoutManager

open AionPool.Configuration AionPool.Persistence AionPool.Daemon AionPool.Aion
open AionPool.Lib.Binary64

/-! ## Daemons that know no block of ours -/

/-- A block without a miner. -/
def foreignBlock (height : Option UInt64) : ChainBlock := ⟨height, none, 0, []⟩

/-- Daemons that know every height, each with a block of someone else. -/
def foreignAnswers (latest : UInt64) : Answers where
  latest _ := [⟨some (foreignBlock (some latest)), none⟩]
  blocks _ heights := .ok (heights.map fun h => ⟨some (foreignBlock (some h.toUInt64)), none⟩)
  receipts _ _ := .ok []

/-- No cached block has a miner. -/
def Foreign (cache : Int64 → Option ChainBlock) : Prop :=
  ∀ h b, cache h = some b → b.miner = none

theorem storeBlocks_foreign : ∀ (heights : List Int64) (cache : Int64 → Option ChainBlock),
    Foreign cache → ∃ cache', storeBlocks cache
        (heights.map fun h => foreignBlock (some h.toUInt64)) = .ok cache' ∧ Foreign cache' ∧
      ∀ h, (cache' h).isSome = true ↔ (cache h).isSome = true ∨ h ∈ heights
  | [], cache, hc => ⟨cache, rfl, hc, by simp⟩
  | height :: heights, cache, hc => by
    obtain ⟨cache', hs, hc', hsome⟩ := storeBlocks_foreign heights
      (fun h => if h = height.toUInt64.toInt64 then some (foreignBlock (some height.toUInt64))
        else cache h) fun h b hb => by
          dsimp only at hb
          split at hb
          · rw [← Option.some.inj hb]
            rfl
          · exact hc h b hb
    refine ⟨cache', hs, hc', fun h => ?_⟩
    rw [hsome, List.mem_cons]
    by_cases hh : h = height
    · simp [hh]
    · simp [hh]

theorem lookupBlocks_foreign {cache : Int64 → Option ChainBlock} (hc : Foreign cache) :
    ∀ {heights : List Int64}, (∀ h ∈ heights, (cache h).isSome = true) →
      ∃ blocks, lookupBlocks cache heights = .ok blocks ∧ blocks.length = heights.length ∧
        ∀ b ∈ blocks, b.miner = none
  | [], _ => ⟨[], rfl, rfl, by simp⟩
  | height :: heights, h => by
    obtain ⟨b, hb⟩ := Option.isSome_iff_exists.mp (h height List.mem_cons_self)
    obtain ⟨blocks, hl, hlen, hm⟩ := lookupBlocks_foreign hc
      fun h' hh => h h' (List.mem_cons_of_mem height hh)
    refine ⟨b :: blocks, ?_, by rw [List.length_cons, List.length_cons, hlen], fun b' hb' => ?_⟩
    · rw [lookupBlocks, hb]
      simp only
      rw [hl]
      rfl
    · rcases List.mem_cons.mp hb' with rfl | hb'
      · exact hc height b' hb
      · exact hm b' hb'

theorem fetchBlocks_foreign (latest : UInt64) {s : Fetched} (hc : Foreign s.cache)
    (heights : List Int64) : ∃ blocks s', fetchBlocks (foreignAnswers latest) s heights =
      .ok (blocks, s') ∧ Foreign s'.cache ∧ blocks.length = heights.length ∧
        ∀ b ∈ blocks, b.miner = none := by
  unfold fetchBlocks
  dsimp only
  split
  · rename_i hmiss
    have hall : ∀ h ∈ heights, (s.cache h).isSome = true := fun h hh => by
      have := List.filter_eq_nil_iff.mp hmiss h hh
      simpa [Option.isSome_iff_ne_none] using this
    obtain ⟨blocks, hl, hlen, hm⟩ := lookupBlocks_foreign hc hall
    exact ⟨blocks, s, by rw [hl]; rfl, hc, hlen, hm⟩
  · obtain ⟨cache', hs, hc', hsome⟩ := storeBlocks_foreign
      (heights.filter fun h => (s.cache h).isNone) s.cache hc
    have hall : ∀ h ∈ heights, (cache' h).isSome = true := fun h hh => by
      rw [hsome, List.mem_filter]
      cases hcache : s.cache h with
      | none => exact Or.inr ⟨hh, rfl⟩
      | some b => exact Or.inl rfl
    obtain ⟨blocks, hl, hlen, hm⟩ := lookupBlocks_foreign hc' hall
    refine ⟨blocks, ⟨cache', s.calls + 1⟩, ?_, hc', hlen, hm⟩
    have hresp : (((heights.filter fun h => (s.cache h).isNone).map fun h =>
        (⟨some (foreignBlock (some h.toUInt64)), none⟩ : DaemonResponse ChainBlock)).filter
          fun x => x.error.isNone).filterMap DaemonResponse.response =
        (heights.filter fun h => (s.cache h).isNone).map fun h =>
          foreignBlock (some h.toUInt64) := by
      induction (heights.filter fun h => (s.cache h).isNone) with
      | nil => rfl
      | cons h hs ih => simpa using ih
    simp only [foreignAnswers, bind, Except.bind, hresp, hs, hl]

variable {pool : PoolConfig}

theorem classify_foreign {latest : UInt64} {blockInfo : ChainBlock} (h : blockInfo.miner = none)
    (block : Block) : classify pool latest blockInfo block =
      classify pool latest (foreignBlock none) block := by
  unfold classify
  rw [h]
  rfl

theorem classifyBlock_foreign {latest : UInt64} {info : ChainBlock} (h : info.miner = none)
    (answers : Answers) (block : Block) (s : Fetched) :
    classifyBlock pool answers latest info block s =
      .ok (some (classify pool latest (foreignBlock none) block), s) := by
  unfold classifyBlock
  dsimp only
  rw [if_neg (by simp [h]), classify_foreign h]

theorem classifyPage_foreign (pool : PoolConfig) (latest : UInt64) {infos : List ChainBlock}
    {page : List Block} (s : Fetched) (hlen : infos.length = page.length)
    (hm : ∀ b ∈ infos, b.miner = none) :
    ∃ rs, classifyPage pool (foreignAnswers latest) latest s (infos.zip page) = .ok (rs, s) ∧
      rs.map Classified.block = page.map (classify pool latest (foreignBlock none)) := by
  induction page generalizing infos with
  | nil =>
    rw [List.length_eq_zero_iff.mp hlen]
    exact ⟨[], rfl, rfl⟩
  | cons block page ih =>
    cases infos with
    | nil => exact absurd hlen (by simp)
    | cons info infos =>
      obtain ⟨rs, hrs, hmap⟩ := ih (Nat.succ.inj hlen)
        fun b hb => hm b (List.mem_cons_of_mem info hb)
      refine ⟨⟨latest, info, block, classify pool latest (foreignBlock none) block⟩ :: rs, ?_, ?_⟩
      · rw [List.zip_cons_cons, classifyPage,
          classifyBlock_foreign (hm info List.mem_cons_self)]
        simp only [bind, Except.bind, hrs]
        rfl
      · rw [List.map_cons, List.map_cons, hmap]

theorem classifyPages_foreign (pool : PoolConfig) (latest : UInt64) :
    ∀ (pages : List (List Block)) (i : ℕ) (s : Fetched), Foreign s.cache →
      ∃ rs, classifyPages pool (foreignAnswers latest) i s pages = .ok rs ∧
        rs.map Classified.block = pages.flatten.map (classify pool latest (foreignBlock none))
  | [], _, _, _ => ⟨[], rfl, rfl⟩
  | page :: pages, i, s, hc => by
    obtain ⟨infos, s', hf, hc', hlen, hm⟩ := fetchBlocks_foreign latest hc
      (page.map fun b => b.blockHeight.toInt64)
    rw [List.length_map] at hlen
    obtain ⟨rs, hrs, hmap⟩ := classifyPage_foreign pool latest s' hlen hm
    obtain ⟨rs', hrs', hmap'⟩ := classifyPages_foreign pool latest pages (i + 1) s' hc'
    refine ⟨rs ++ rs', ?_, ?_⟩
    · rw [classifyPages]
      simp only [show firstHeight ((foreignAnswers latest).latest i) = some latest from rfl, bind,
        Except.bind, hf, hrs, hrs']
    · rw [List.map_append, hmap, hmap', List.flatten_cons, List.map_append]

/-- By these daemons every block is classified. -/
theorem classifyBlocksAsync_foreign (pool : PoolConfig) (latest : UInt64) (blocks : List Block) :
    classifyBlocksAsync pool (foreignAnswers latest) blocks =
      .ok (blocks.map (classify pool latest (foreignBlock none))) := by
  obtain ⟨rs, hrs, hmap⟩ := classifyPages_foreign pool latest (pagesOf blocks) 0
    Fetched.empty fun h b hb => absurd hb (by simp [Fetched.empty])
  unfold classifyBlocksAsync
  rw [hrs, flatten_pagesOf] at *
  rw [Except.map, hmap]

theorem classify_foreign_not_confirmed (latest : UInt64) {block : Block}
    (h : block.status = .pending) :
    (classify pool latest (foreignBlock none) block).status ≠ .confirmed := by
  unfold classify
  dsimp only
  rw [if_neg (by simp [foreignBlock])]
  split <;> simp [h]

theorem classify_foreign_progress (latest : UInt64) (block : Block) :
    (classify pool latest (foreignBlock none) block).confirmationProgress =
      confirmationProgress latest block.blockHeight
        pool.paymentProcessing.extra.minimumConfirmations := by
  unfold classify
  dsimp only
  rw [if_neg (by simp [foreignBlock])]
  split <;> rfl

/-! ## Rounds in which every transaction commits -/

/-- Such a round gives every row at the height of a classified block the progress of that block. -/
theorem processBlocks_progress (pool : PoolConfig) :
    ∀ (blocks : List Block) (i : ℕ) (db : Database),
      (∀ b ∈ blocks, b.status ≠ .confirmed) → (blocks.map Block.blockHeight).Nodup →
      ∃ g : Block → Block,
        (processBlocks pool (fun _ => .committed) i db blocks).blocks = db.blocks.map g ∧
        (∀ r, (g r).poolId = r.poolId) ∧
        (∀ r, r.blockHeight ∉ blocks.map Block.blockHeight → g r = r) ∧
        ∀ b ∈ blocks, ∀ r, r.blockHeight = b.blockHeight →
          (g r).confirmationProgress = b.confirmationProgress
  | [], _, db, _, _ => ⟨id, by simp [processBlocks], fun _ => rfl, fun _ _ => rfl, by simp⟩
  | block :: blocks, i, db, hst, hnd => by
    obtain ⟨hnot, hnd⟩ := List.nodup_cons.mp hnd
    obtain ⟨db', hdb'⟩ := blockTransaction_of_not_confirmed pool db
      (hst block List.mem_cons_self)
    obtain ⟨effort, hblocks⟩ := blockTransaction_map hdb'
    obtain ⟨g, hg, hpool, hframe, hprog⟩ := processBlocks_progress pool blocks (i + 1) db'
      (fun b hb => hst b (List.mem_cons_of_mem block hb)) hnd
    refine ⟨g ∘ rewrite { block with effort }, ?_, fun r => ?_, fun r hr => ?_, fun b hb r hr => ?_⟩
    · rw [processBlocks, hdb']
      simp only
      rw [hg, hblocks, List.map_map]
    · exact (hpool _).trans (rewrite_key { block with effort } r).1
    · rw [List.map_cons, List.mem_cons, not_or] at hr
      have hsame : rewrite { block with effort } r = r := rewrite_of_ne hr.1
      rw [Function.comp, hsame]
      exact hframe r hr.2
    · rcases List.mem_cons.mp hb with rfl | hb
      · rw [Function.comp, rewrite, if_pos hr, hframe]
        · rfl
        · exact hnot
      · have hne : r.blockHeight ≠ block.blockHeight := fun h =>
          hnot (h ▸ hr ▸ List.mem_map_of_mem hb)
        have hsame : rewrite { block with effort } r = r := rewrite_of_ne hne
        rw [Function.comp, hsame]
        exact hprog b hb r hr

/-- The progress of a block of age zero and the progress when the latest height lags by one. -/
theorem confirmationProgress_ne (height : UInt64) (m : Int32) :
    confirmationProgress height height m ≠ confirmationProgress (height - 1) height m := by
  have hzero : (height - height).toNat = 0 := by simp
  have hlag : (height - 1 - height).toNat = 2 ^ 64 - 1 := by
    have h₁ := height.toNat_lt
    rw [UInt64.toNat_sub, UInt64.toNat_sub]
    simp only [UInt64.toNat_one]
    omega
  rcases eq_or_ne m.toInt 0 with hm | hm
  · rw [confirmationProgress_zero _ _ hm, confirmationProgress_zero _ _ hm, hzero, hlag]
    simp
  · rw [confirmationProgress_eq _ _ hm, confirmationProgress_eq _ _ hm, hzero, hlag, Ne,
      Double.fin.injEq]
    have hq : quotient 0 m.toInt = 0 := by simp [quotient]
    rw [hq, min_eq_right zero_le_one]
    rcases lt_or_gt_of_ne hm with hneg | hpos
    · have hlt : quotient (2 ^ 64 - 1) m.toInt < 0 := by
        rw [← not_le, quotient_neg_iff hneg (Int32.le_toInt m)]
        norm_num
      rw [min_eq_right (hlt.le.trans zero_le_one)]
      exact hlt.ne'
    · have hgt : 3 / 4 < quotient (2 ^ 64 - 1) m.toInt := by
        rw [three_quarters_lt_iff hpos (Int32.toInt_lt m)]
        have := Int32.toInt_lt m
        norm_num
        omega
      exact (lt_min one_pos (lt_trans (by norm_num) hgt)).ne

/-! ## The frame -/

/-- The blocks of the other pools. -/
def otherBlocks (pool : PoolConfig) (db : Database) : List Block :=
  db.blocks.filter fun b => b.poolId ≠ pool.id

/-- Rewriting rows in place leaves the other pools' rows alone iff it keeps each of them. -/
theorem otherBlocks_map_iff {db db' : Database} {g : Block → Block}
    (hg : db'.blocks = db.blocks.map g) (hpool : ∀ r, (g r).poolId = r.poolId) :
    otherBlocks pool db' = otherBlocks pool db ↔ ∀ r ∈ otherBlocks pool db, g r = r := by
  unfold otherBlocks
  rw [hg, List.filter_map]
  have hcomp : (fun b : Block => decide (b.poolId ≠ pool.id)) ∘ g =
      fun b => decide (b.poolId ≠ pool.id) := by
    funext b
    simp only [Function.comp, hpool]
  rw [hcomp]
  constructor
  · intro h
    refine List.map_inj_left.mp (h.trans (List.map_id _).symm)
  · intro h
    exact (List.map_congr_left h).trans (List.map_id _)

/-- **The other pools' blocks stay as they are** in every round of a pool exactly when none of them
is at the height of a pending block of the pool. -/
theorem other_pools_unchanged_iff (pool : PoolConfig) (db : Database) :
    (∀ (answers : Answers) (outcome : ℕ → TxOutcome) (pendingBlocks : List Block),
        BlockRepository.IsDistinctPending db.blocks pool.id pendingBlocks →
        otherBlocks pool (updatePoolBalancesAsync pool answers outcome pendingBlocks db) =
          otherBlocks pool db) ↔
      ∀ b ∈ db.blocks, b.poolId = pool.id → b.status = .pending →
        ∀ r ∈ db.blocks, r.poolId ≠ pool.id → r.blockHeight ≠ b.blockHeight := by
  constructor
  · intro h b hb hpool hst r hr hrpool hheight
    obtain ⟨sel, hsel, hmem⟩ := BlockRepository.exists_isDistinctPending hb hpool hst
    -- two rounds that differ in the latest height give the row two different progresses
    have hround : ∀ latest : UInt64, r.confirmationProgress = confirmationProgress latest
        b.blockHeight pool.paymentProcessing.extra.minimumConfirmations := fun latest => by
      have hcl := classifyBlocksAsync_foreign pool latest sel
      obtain ⟨-, hnd⟩ := roundBlocks_spec hcl
      obtain ⟨g, hg, hgpool, -, hprog⟩ := processBlocks_progress pool
        (roundBlocks (sel.map (classify pool latest (foreignBlock none)))) 0 db
        (fun c hc => by
          obtain ⟨c', hc', rfl⟩ := List.mem_map.mp ((roundBlocks_perm _).mem_iff.mp hc)
          exact classify_foreign_not_confirmed latest (hsel.1 c' hc').2.2) (hnd hsel.2.1)
      have hkeep := h (foreignAnswers latest) (fun _ => .committed) sel hsel
      unfold updatePoolBalancesAsync at hkeep
      rw [hcl] at hkeep
      have hself := (otherBlocks_map_iff hg hgpool).mp hkeep r
        (List.mem_filter.mpr ⟨hr, decide_eq_true hrpool⟩)
      have hin : classify pool latest (foreignBlock none) b ∈
          roundBlocks (sel.map (classify pool latest (foreignBlock none))) :=
        (roundBlocks_perm _).mem_iff.mpr (List.mem_map_of_mem hmem)
      have := hprog _ hin r (by rw [classify_blockHeight, hheight])
      rwa [hself, classify_foreign_progress] at this
    exact confirmationProgress_ne b.blockHeight
      pool.paymentProcessing.extra.minimumConfirmations
      ((hround b.blockHeight).symm.trans (hround (b.blockHeight - 1)))
  · intro h answers outcome sel hsel
    unfold updatePoolBalancesAsync
    split
    · rfl
    · rename_i updatedBlocks hcl
      obtain ⟨hheights, -⟩ := roundBlocks_spec hcl
      obtain ⟨g, hg, hkey, hframe⟩ := processBlocks_blocks pool outcome
        (roundBlocks updatedBlocks) 0 db
      refine (otherBlocks_map_iff hg fun r => (hkey r).1).mpr fun r hr => hframe r fun hmem => ?_
      obtain ⟨hr, hrpool⟩ := List.mem_filter.mp hr
      obtain ⟨b, hb, hbr⟩ := List.mem_map.mp hmem
      obtain ⟨c, hc, hcb⟩ := List.mem_map.mp (hheights b hb)
      obtain ⟨hcdb, hcpool, hcst⟩ := hsel.1 c hc
      exact h c hcdb hcpool hcst r hr (of_decide_eq_true hrpool) (hbr.symm.trans hcb.symm)

/-- Daemons that confirm every block of the sample pool. -/
def confirmingAnswers : Answers where
  latest _ := [⟨some ⟨some 20, none, 0, []⟩, none⟩]
  blocks _ heights := .ok (heights.map fun h =>
    ⟨some ⟨some h.toUInt64, some "0xa0pool", 0, []⟩, none⟩)
  receipts _ _ := .ok []

/-- **A block of another pool is confirmed**, and no balance of that pool is credited. -/
theorem other_pool_confirmed_without_pay :
    let db := { Database.empty with
      blocks := [sampleBlock "aion1" 10 0 30, sampleBlock "aion2" 10 0 31] }
    let db' := updatePoolBalancesAsync samplePool confirmingAnswers (fun _ => .committed)
      [sampleBlock "aion1" 10 0 30] db
    BlockRepository.IsDistinctPending db.blocks samplePool.id [sampleBlock "aion1" 10 0 30] ∧
      (otherBlocks samplePool db').map Block.status = [.confirmed] ∧
      otherBlocks samplePool db' ≠ otherBlocks samplePool db ∧
      (db'.balances.rows.all fun r => r.poolId = "aion1") = true := by
  decide +kernel

end AionPool.Payments.PayoutManager
