import AionPool.Aion.Classify

/-!
# Blocks the daemon cannot describe

`FetchBlocks` (`AionPayoutHandler.cs:260-286`) drops the answers that are errors or null, and then
looks up every height it was asked for in the cache. A height without an answer throws there, in
`ClassifyBlocksAsync` (`:110-193`), whose check for missing block details (`:164-169`) comes after
the lookup. So do a block that is not younger than its parent and a receipt that is not answered
(`:288-307`).

* `Answering` is a daemon that describes the heights of `chain`, in whatever order, and no others.
* `fetchBlocks_ok_iff`, `rewardOf_ok_iff`, `classifyBlock_ok_iff`, `classifyPage_ok_iff`: when each
  part of the loop returns, and what it leaves fetched.
* **`classifyPages_ok_iff`**: a classification returns iff every block that it reaches is described
  and every reward that it computes can be.
* `reachedPages_described`: blocks that are all described are paged alike without the others.
* **`isolates_iff`**: the blocks that are not described delay only themselves under the same
  condition.

Out of scope: the batches as requests, and the progress of blocks that are not returned.
-/

namespace AionPool.Aion

open AionPool.Configuration AionPool.Persistence AionPool.Daemon

/-! ## What is needed of the daemon -/

/-- The daemon describes the blocks of `chain`: the answers of a batch that have no error and a
result are the blocks at the heights of the batch that it can describe. -/
structure Answering (chain : Int64 → Option ChainBlock) (answers : Answers) : Prop where
  height : ∀ h b, chain h = some b → ∃ height, b.height = some height ∧ height.toInt64 = h
  batch : ∀ n heights, ∃ rs, answers.blocks n heights = .ok rs ∧
    ∀ b, b ∈ (rs.filter fun r => r.error.isNone).filterMap DaemonResponse.response ↔
      ∃ h ∈ heights, chain h = some b

/-- The block is a mature one of ours, and its reward depends on the block before it. -/
def needsParent (pool : PoolConfig) (latest : UInt64) (blockInfo : ChainBlock) (block : Block) :
    Bool :=
  blockInfo.miner = some pool.address ∧
    mature latest block.blockHeight pool.paymentProcessing.extra.minimumConfirmations = true ∧
    belowUpgrade pool block.blockHeight.toInt64 = false

/-- The heights a block needs are described: its own, and that of the block before it where the
reward depends on it. Without a latest height no reward is computed. -/
def answered (pool : PoolConfig) (chain : Int64 → Option ChainBlock) (latest : Option UInt64)
    (block : Block) : Bool :=
  match chain block.blockHeight.toInt64, latest with
  | none, _ => false
  | some _, none => true
  | some blockInfo, some latest =>
    if needsParent pool latest blockInfo block then
      (chain (block.blockHeight.toInt64 - 1)).isSome
    else true

/-- The pages that are processed, from the `i`-th on, each with the latest height reported. -/
def reachedPages (answers : Answers) : ℕ → List (List Block) → List (UInt64 × List Block)
  | _, [] => []
  | i, page :: pages =>
    match firstHeight (answers.latest i) with
    | none => []
    | some latest => (latest, page) :: reachedPages answers (i + 1) pages

/-- The list without the blocks that are not described. -/
def describedBlocks (pool : PoolConfig) (chain : Int64 → Option ChainBlock) (answers : Answers) :
    ℕ → List (List Block) → List Block
  | _, [] => []
  | i, page :: pages =>
    page.filter (answered pool chain (firstHeight (answers.latest i))) ++
      describedBlocks pool chain answers (i + 1) pages

/-- Blocks that are not described delay only themselves: the classification returns, it returns what
it returns without them, and it leaves their status and reward alone. -/
def Isolates (pool : PoolConfig) (chain : Int64 → Option ChainBlock) (answers : Answers)
    (blocks : List Block) : Prop :=
  ∃ rs, classifyPages pool answers 0 Fetched.empty (pagesOf blocks) = .ok rs ∧
    classifyBlocksAsync pool answers (describedBlocks pool chain answers 0 (pagesOf blocks)) =
      .ok ((rs.filter fun r => answered pool chain (some r.latest) r.stored).map
        Classified.block) ∧
    ∀ r ∈ rs, answered pool chain (some r.latest) r.stored = false →
      r.block.status = r.stored.status ∧ r.block.reward = r.stored.reward

/-! ## What is needed of the blocks -/

/-- The receipts of the block's transactions, asked for in the `n`-th batch, are answered: without
an error, one for each hash, and with a gas used that an unsigned number holds. -/
def receiptsAnswered (answers : Answers) (n : ℕ) (blockInfo : ChainBlock) : Bool :=
  match answers.receipts n (blockInfo.transactions.map Transaction.hash) with
  | .error _ => false
  | .ok rs =>
    let receipts := rs.filterMap DaemonResponse.response
    (rs.all fun r => r.error.isNone && r.response.isSome) &&
      decide (receipts.map TransactionReceipt.transactionHash).Nodup &&
      blockInfo.transactions.all fun tx =>
        (receipts.find? fun r => r.transactionHash = tx.hash).any fun r =>
          0 ≤ r.gasUsed ∧ r.gasUsed < 2 ^ 64

/-- What is fetched once the heights are: a batch has been sent if one of them was not cached. -/
def Fetched.fetch (chain : Int64 → Option ChainBlock) (s : Fetched) (heights : List Int64) :
    Fetched :=
  if (heights.filter fun h => (s.cache h).isNone) = [] then s
  else ⟨fun h => if h ∈ heights then chain h else s.cache h, s.calls + 1⟩

/-- What is fetched once the block reward at the height is known. -/
def Fetched.parent (pool : PoolConfig) (chain : Int64 → Option ChainBlock) (s : Fetched)
    (height : Int64) : Fetched :=
  if belowUpgrade pool height = true then s else s.fetch chain [height, height - 1]

/-- Transaction fees are added to the reward. -/
def addsFees (pool : PoolConfig) (blockInfo : ChainBlock) : Bool :=
  pool.paymentProcessing.extra.keepTransactionFees = false ∧ blockInfo.transactions ≠ []

/-- The reward of a mature block of ours can be computed: the block is younger than its parent,
where the reward depends on it, and its receipts are answered, where fees are added. -/
def rewardComputes (pool : PoolConfig) (chain : Int64 → Option ChainBlock) (answers : Answers)
    (s : Fetched) (blockInfo : ChainBlock) (height : Int64) : Bool :=
  (belowUpgrade pool height || (chain (height - 1)).all fun parent =>
      decide (0 < (blockInfo.timestamp - parent.timestamp).toInt64.toInt)) &&
    (!addsFees pool blockInfo || receiptsAnswered answers (s.parent pool chain height).calls
      blockInfo)

/-- The block is a mature one of ours. -/
def rewarded (pool : PoolConfig) (latest : UInt64) (blockInfo : ChainBlock) (block : Block) :
    Bool :=
  blockInfo.miner = some pool.address ∧
    mature latest block.blockHeight pool.paymentProcessing.extra.minimumConfirmations = true

/-- If the block is a mature one of ours, its reward can be computed. -/
def blockComputes (pool : PoolConfig) (chain : Int64 → Option ChainBlock) (answers : Answers)
    (latest : UInt64) (s : Fetched) (block : Block) : Bool :=
  (chain block.blockHeight.toInt64).all fun blockInfo => !rewarded pool latest blockInfo block ||
    rewardComputes pool chain answers s blockInfo block.blockHeight.toInt64

/-- What is fetched once the block is classified. Receipts are not cached. -/
def Fetched.after (pool : PoolConfig) (chain : Int64 → Option ChainBlock) (latest : UInt64)
    (s : Fetched) (block : Block) : Fetched :=
  match chain block.blockHeight.toInt64 with
  | none => s
  | some blockInfo =>
    if rewarded pool latest blockInfo block = true then
      let s := s.parent pool chain block.blockHeight.toInt64
      if addsFees pool blockInfo = true then ⟨s.cache, s.calls + 1⟩ else s
    else s

/-- The rewards of a page can be computed. -/
def pageComputes (pool : PoolConfig) (chain : Int64 → Option ChainBlock) (answers : Answers)
    (latest : UInt64) : Fetched → List Block → Bool
  | _, [] => true
  | s, block :: page => blockComputes pool chain answers latest s block &&
      pageComputes pool chain answers latest (s.after pool chain latest block) page

/-- The rewards of the pages can be computed, each page with the latest height reported for it. -/
def computes (pool : PoolConfig) (chain : Int64 → Option ChainBlock) (answers : Answers) :
    Fetched → List (UInt64 × List Block) → Bool
  | _, [] => true
  | s, (latest, page) :: pages =>
    let s := s.fetch chain (page.map fun b => b.blockHeight.toInt64)
    pageComputes pool chain answers latest s page &&
      computes pool chain answers (page.foldl (Fetched.after pool chain latest) s) pages

/-! ## When a fetch returns -/

section Fetch

variable {pool : PoolConfig} {chain : Int64 → Option ChainBlock} {answers : Answers}

/-- The cache holds blocks of the chain. -/
def Cached (chain cache : Int64 → Option ChainBlock) : Prop :=
  ∀ h b, cache h = some b → chain h = some b

theorem Cached.empty : Cached chain Fetched.empty.cache :=
  fun _ _ h => absurd h (by simp [Fetched.empty])

theorem Cached.fetch {s : Fetched} (hs : Cached chain s.cache) (heights : List Int64) :
    Cached chain (s.fetch chain heights).cache := by
  unfold Fetched.fetch
  split
  · exact hs
  · intro h b hb
    dsimp only at hb
    split at hb
    · exact hb
    · exact hs h b hb

theorem Cached.parent {s : Fetched} (hs : Cached chain s.cache) (height : Int64) :
    Cached chain (s.parent pool chain height).cache := by
  unfold Fetched.parent
  split
  · exact hs
  · exact hs.fetch _

theorem Cached.after {s : Fetched} (hs : Cached chain s.cache) (latest : UInt64) (block : Block) :
    Cached chain (s.after pool chain latest block).cache := by
  unfold Fetched.after
  split
  · exact hs
  · split
    · dsimp only
      split
      · exact hs.parent _
      · exact hs.parent _
    · exact hs

/-- A block is described at one height. -/
theorem Answering.inj (hchain : Answering chain answers) {g h : Int64} {b : ChainBlock}
    (hg : chain g = some b) (hh : chain h = some b) : g = h := by
  obtain ⟨height, hheight, rfl⟩ := hchain.height g b hg
  obtain ⟨height', hheight', rfl⟩ := hchain.height h b hh
  rw [Option.some.inj (hheight.symm.trans hheight')]

/-- The blocks of the chain are stored at their heights. -/
theorem storeBlocks_chain (hchain : Answering chain answers) : ∀ (blocks : List ChainBlock)
    (cache : Int64 → Option ChainBlock), (∀ b ∈ blocks, ∃ h, chain h = some b) →
    ∃ cache', storeBlocks cache blocks = .ok cache' ∧ ∀ h,
      ((∃ b ∈ blocks, chain h = some b) → cache' h = chain h) ∧
      ((¬ ∃ b ∈ blocks, chain h = some b) → cache' h = cache h)
  | [], cache, _ => ⟨cache, rfl, fun h => ⟨by simp, fun _ => rfl⟩⟩
  | block :: blocks, cache, hblocks => by
    obtain ⟨k, hk⟩ := hblocks block List.mem_cons_self
    obtain ⟨height, hheight, rfl⟩ := hchain.height k block hk
    obtain ⟨cache', hcache', hspec⟩ := storeBlocks_chain hchain blocks
      (fun h => if h = height.toInt64 then some block else cache h)
      (fun b hb => hblocks b (List.mem_cons_of_mem _ hb))
    refine ⟨cache', by simp only [storeBlocks, hheight, hcache'], fun h => ⟨?_, fun hnot => ?_⟩⟩
    · rintro ⟨b, hb, hbh⟩
      by_cases hrest : ∃ b ∈ blocks, chain h = some b
      · exact (hspec h).1 hrest
      · rcases List.mem_cons.mp hb with rfl | hb
        · rw [(hspec h).2 hrest, hbh, if_pos (hchain.inj hbh hk)]
        · exact absurd ⟨b, hb, hbh⟩ hrest
    · rw [(hspec h).2 fun ⟨b, hb, hbh⟩ => hnot ⟨b, List.mem_cons_of_mem _ hb, hbh⟩]
      refine if_neg fun hkey => hnot ⟨block, List.mem_cons_self, ?_⟩
      rw [hkey, hk]

theorem lookupBlocks_eq_ok {cache : Int64 → Option ChainBlock} : ∀ {heights : List Int64}
    {blocks : List ChainBlock}, (∀ h ∈ heights, cache h = chain h) →
    List.Forall₂ (fun h b => chain h = some b) heights blocks →
    lookupBlocks cache heights = .ok blocks
  | _, _, _, .nil => rfl
  | _, _, hcache, .cons hblock hrest => by
    obtain ⟨hhead, htail⟩ := List.forall_mem_cons.mp hcache
    rw [lookupBlocks, hhead, hblock, lookupBlocks_eq_ok htail hrest]
    rfl

theorem isSome_of_forall₂ : ∀ {heights : List Int64} {blocks : List ChainBlock},
    List.Forall₂ (fun h b => chain h = some b) heights blocks →
    ∀ h ∈ heights, (chain h).isSome = true
  | _, _, .nil => by simp
  | _, _, .cons hblock hrest =>
    List.forall_mem_cons.mpr ⟨by rw [hblock]; rfl, isSome_of_forall₂ hrest⟩

/-- Heights that are described are cached once they are fetched. -/
theorem Fetched.fetch_cache {s : Fetched} (hs : Cached chain s.cache) {heights : List Int64}
    {h : Int64} (hh : h ∈ heights) : (s.fetch chain heights).cache h = chain h := by
  unfold Fetched.fetch
  split
  · rename_i hmisses
    cases hcache : s.cache h with
    | none => exact absurd hcache (by simpa using List.filter_eq_nil_iff.mp hmisses h hh)
    | some b => exact (hs h b hcache).symm
  · exact if_pos hh

/-- A batch for the heights that are not cached leaves all of them cached. -/
theorem storeBlocks_batch (hchain : Answering chain answers) {s : Fetched}
    (hs : Cached chain s.cache) (heights : List Int64) : ∃ rs cache,
      answers.blocks s.calls (heights.filter fun h => (s.cache h).isNone) = .ok rs ∧
      storeBlocks s.cache ((rs.filter fun r => r.error.isNone).filterMap
        DaemonResponse.response) = .ok cache ∧
      Cached chain cache ∧ ((∀ h ∈ heights, (chain h).isSome = true) →
        cache = fun h => if h ∈ heights then chain h else s.cache h) := by
  obtain ⟨rs, hrs, hmem⟩ := hchain.batch s.calls (heights.filter fun h => (s.cache h).isNone)
  obtain ⟨cache, hcache, hspec⟩ := storeBlocks_chain hchain _ s.cache
    (fun b hb => ((hmem b).mp hb).imp fun _ h => h.2)
  refine ⟨rs, cache, hrs, hcache, fun h b hb => ?_, fun hsome => funext fun h => ?_⟩
  · by_cases hin : ∃ b ∈ (rs.filter fun r => r.error.isNone).filterMap DaemonResponse.response,
        chain h = some b
    · rwa [(hspec h).1 hin] at hb
    · rw [(hspec h).2 hin] at hb
      exact hs h b hb
  · split
    · rename_i hh
      obtain ⟨b, hb⟩ := Option.isSome_iff_exists.mp (hsome h hh)
      cases hold : s.cache h with
      | none =>
        -- the height was in the batch
        have hmiss : h ∈ heights.filter fun h => (s.cache h).isNone :=
          List.mem_filter.mpr ⟨hh, by simp [hold]⟩
        exact (hspec h).1 ⟨b, (hmem b).mpr ⟨h, hmiss, hb⟩, hb⟩
      | some b' =>
        refine (Classical.em _).elim (hspec h).1 fun hnot => ?_
        rw [(hspec h).2 hnot, hold, hs h b' hold]
    · rename_i hh
      refine (hspec h).2 fun ⟨b, hb, hbh⟩ => hh ?_
      obtain ⟨g, hg, hgb⟩ := (hmem b).mp hb
      rw [hchain.inj hbh hgb]
      exact (List.mem_filter.mp hg).1

/-- **A fetch returns** iff the daemon describes every height. -/
theorem fetchBlocks_ok_iff (hchain : Answering chain answers) {s s' : Fetched}
    {heights : List Int64} {blocks : List ChainBlock} (hs : Cached chain s.cache) :
    fetchBlocks answers s heights = .ok (blocks, s') ↔
      List.Forall₂ (fun h b => chain h = some b) heights blocks ∧
        s' = s.fetch chain heights := by
  by_cases hmisses : (heights.filter fun h => (s.cache h).isNone) = []
  · have hfetch : s.fetch chain heights = s := if_pos hmisses
    have heq : fetchBlocks answers s heights =
        lookupBlocks s.cache heights >>= fun blocks => .ok (blocks, s) := if_pos hmisses
    rw [heq, hfetch]
    constructor
    · intro h
      obtain ⟨found, hfound, h⟩ := bind_eq_ok.mp h
      obtain ⟨rfl, rfl⟩ := Prod.mk.inj (Except.ok.inj h)
      exact ⟨(lookupBlocks_ok hfound).imp hs, rfl⟩
    · rintro ⟨hblocks, rfl⟩
      have hcache : ∀ h ∈ heights, s'.cache h = chain h := fun h hh => by
        rw [← Fetched.fetch_cache hs hh, hfetch]
      rw [lookupBlocks_eq_ok hcache hblocks]
      rfl
  · obtain ⟨rs, cache, hrs, hstore, hcached, hfull⟩ :=
      storeBlocks_batch hchain hs heights
    have hfetch : s.fetch chain heights =
        ⟨fun h => if h ∈ heights then chain h else s.cache h, s.calls + 1⟩ := if_neg hmisses
    have heq : fetchBlocks answers s heights =
        lookupBlocks cache heights >>= fun blocks => .ok (blocks, ⟨cache, s.calls + 1⟩) := by
      unfold fetchBlocks
      dsimp only
      rw [if_neg hmisses, hrs]
      change storeBlocks s.cache _ >>= _ = _
      rw [hstore]
      rfl
    rw [heq, hfetch]
    constructor
    · intro h
      obtain ⟨found, hfound, h⟩ := bind_eq_ok.mp h
      obtain ⟨rfl, rfl⟩ := Prod.mk.inj (Except.ok.inj h)
      have hblocks := (lookupBlocks_ok hfound).imp hcached
      exact ⟨hblocks, by rw [hfull (isSome_of_forall₂ hblocks)]⟩
    · rintro ⟨hblocks, rfl⟩
      have hfull := hfull (isSome_of_forall₂ hblocks)
      have hcache : ∀ h ∈ heights, cache h = chain h := fun h hh => by
        rw [hfull]
        exact if_pos hh
      rw [lookupBlocks_eq_ok hcache hblocks, hfull]
      rfl

/-! ## When a reward is computed -/

theorem any_receipt_iff (hash : String) (receipts : List TransactionReceipt) :
    (receipts.map fun r => (r.transactionHash, r.gasUsed)).any (fun e => e.1 = hash) = true ↔
      hash ∈ receipts.map TransactionReceipt.transactionHash := by
  simp

theorem gasUsedOf_ok_iff {rs : List (DaemonResponse TransactionReceipt)}
    {gasUsed : List (String × ℤ)} : gasUsedOf rs = .ok gasUsed ↔
      (∀ r ∈ rs, r.response.isSome = true) ∧
      ((rs.filterMap DaemonResponse.response).map TransactionReceipt.transactionHash).Nodup ∧
      gasUsed = (rs.filterMap DaemonResponse.response).map fun r =>
        (r.transactionHash, r.gasUsed) := by
  induction rs generalizing gasUsed with
  | nil =>
    exact ⟨fun h => ⟨by simp, List.nodup_nil, (Except.ok.inj h).symm⟩, fun h => by rw [h.2.2]; rfl⟩
  | cons r rs ih =>
    rw [gasUsedOf]
    cases hr : r.response with
    | none => simp [hr]
    | some receipt =>
      rw [List.filterMap_cons_some hr, List.map_cons, List.map_cons, List.nodup_cons,
        List.forall_mem_cons]
      dsimp only
      constructor
      · intro h
        obtain ⟨rest, hrest, h⟩ := bind_eq_ok.mp h
        obtain ⟨hsome, hnodup, rfl⟩ := ih.mp hrest
        split at h
        · exact nomatch h
        · rename_i hnew
          refine ⟨⟨by rw [hr]; rfl, hsome⟩, ⟨?_, hnodup⟩, (Except.ok.inj h).symm⟩
          rwa [any_receipt_iff] at hnew
      · rintro ⟨⟨-, hsome⟩, ⟨hnew, hnodup⟩, rfl⟩
        rw [ih.mpr ⟨hsome, hnodup, rfl⟩]
        exact if_neg (by rwa [any_receipt_iff])

theorem lookup_receipts (hash : String) (receipts : List TransactionReceipt) :
    (receipts.map fun r => (r.transactionHash, r.gasUsed)).lookup hash =
      (receipts.find? fun r => r.transactionHash = hash).map TransactionReceipt.gasUsed := by
  induction receipts with
  | nil => rfl
  | cons r receipts ih =>
    rw [List.map_cons, List.lookup_cons, List.find?_cons]
    by_cases h : hash = r.transactionHash
    · simp [h]
    · simp [beq_false_of_ne h, Ne.symm h, ih]

theorem txFees_ok_iff (receipts : List TransactionReceipt) (txs : List Transaction) :
    (∃ fees, txFees (receipts.map fun r => (r.transactionHash, r.gasUsed)) txs = .ok fees) ↔
      (txs.all fun tx => (receipts.find? fun r => r.transactionHash = tx.hash).any fun r =>
        decide (0 ≤ r.gasUsed ∧ r.gasUsed < 2 ^ 64)) = true := by
  induction txs with
  | nil => simp [txFees]
  | cons tx txs ih =>
    rw [List.all_cons, Bool.and_eq_true, ← ih, txFees, lookup_receipts]
    cases hfind : receipts.find? fun r => r.transactionHash = tx.hash with
    | none => simp
    | some receipt =>
      dsimp only [Option.map_some, Option.any_some]
      split
      · rename_i hgas
        simp only [decide_eq_true hgas, true_and]
        constructor
        · rintro ⟨fees, h⟩
          obtain ⟨rest, hrest, -⟩ := bind_eq_ok.mp h
          exact ⟨rest, hrest⟩
        · rintro ⟨rest, hrest⟩
          exact ⟨_, bind_eq_ok.mpr ⟨rest, hrest, rfl⟩⟩
      · rename_i hgas
        rw [decide_eq_false hgas]
        exact iff_of_false (by simp) (by simp)

/-- Transaction fees are computed iff the receipts are answered. -/
theorem getTxRewardAsync_ok_iff {s s' : Fetched} {blockInfo : ChainBlock} :
    (∃ fees, getTxRewardAsync answers s blockInfo = .ok (fees, s')) ↔
      receiptsAnswered answers s.calls blockInfo = true ∧ s' = ⟨s.cache, s.calls + 1⟩ := by
  unfold receiptsAnswered
  constructor
  · rintro ⟨fees, h⟩
    refine ⟨?_, getTxRewardAsync_cache h⟩
    unfold getTxRewardAsync at h
    obtain ⟨results, hresults, h⟩ := bind_eq_ok.mp h
    rw [hresults]
    dsimp only at h ⊢
    split at h
    · exact nomatch h
    · rename_i herrors
      obtain ⟨gasUsed, hgas, h⟩ := bind_eq_ok.mp h
      obtain ⟨fees, hfees, -⟩ := bind_eq_ok.mp h
      obtain ⟨hsome, hnodup, rfl⟩ := gasUsedOf_ok_iff.mp hgas
      rw [(txFees_ok_iff _ _).mp ⟨fees, hfees⟩, decide_eq_true hnodup]
      have hnone := List.filterMap_eq_nil_iff.mp (not_not.mp herrors)
      simpa using fun r hr => ⟨hnone r hr, hsome r hr⟩
  · rintro ⟨h, rfl⟩
    unfold getTxRewardAsync
    split at h
    · exact nomatch h
    · rename_i results hresults
      rw [hresults]
      simp only [Bool.and_eq_true, decide_eq_true_eq] at h
      obtain ⟨⟨hall, hnodup⟩, htxs⟩ := h
      have hnone : results.filterMap DaemonResponse.error = [] :=
        List.filterMap_eq_nil_iff.mpr fun r hr => by
          simpa using (Bool.and_eq_true_iff.mp (List.all_eq_true.mp hall r hr)).1
      have hsome : ∀ r ∈ results, r.response.isSome = true := fun r hr =>
        (Bool.and_eq_true_iff.mp (List.all_eq_true.mp hall r hr)).2
      obtain ⟨fees, hfees⟩ := (txFees_ok_iff _ _).mpr htxs
      refine ⟨fees, ?_⟩
      change (if results.filterMap DaemonResponse.error ≠ [] then _ else _) = _
      rw [if_neg (not_not.mpr hnone), gasUsedOf_ok_iff.mpr ⟨hsome, hnodup, rfl⟩]
      change txFees _ _ >>= _ = _
      rw [hfees]
      rfl

/-- A reward that depends on the timespan is computed iff the timespan is positive. -/
theorem calculateRewardWithTimeSpan_ok_iff (timeSpan : Int64) :
    (∃ reward, AionRewardsCalculator.calculateRewardWithTimeSpan timeSpan = .ok reward) ↔
      0 < timeSpan.toInt := by
  unfold AionRewardsCalculator.calculateRewardWithTimeSpan
  split
  · rename_i h
    exact iff_of_false (by simp) (not_lt.mpr h)
  · rename_i h
    exact iff_of_true ⟨_, rfl⟩ (not_le.mp h)

/-- The timespan to the parent is positive. -/
theorem blockRewardOf_eq (hchain : Answering chain answers) {s : Fetched} {height : Int64}
    {blockInfo parent : ChainBlock} (hs : Cached chain s.cache)
    (hinfo : chain height = some blockInfo) (hparent : chain (height - 1) = some parent)
    (hbelow : belowUpgrade pool height = false) : blockRewardOf pool answers s height =
      AionRewardsCalculator.calculateRewardWithTimeSpan
        (blockInfo.timestamp - parent.timestamp).toInt64 >>= fun reward =>
          .ok (some reward, s.fetch chain [height, height - 1]) := by
  have hfetch : fetchBlocks answers s [height, height - 1] =
      .ok ([blockInfo, parent], s.fetch chain [height, height - 1]) :=
    (fetchBlocks_ok_iff hchain hs).mpr ⟨.cons hinfo (.cons hparent .nil), rfl⟩
  have hblock : (s.fetch chain [height, height - 1]).cache height = some blockInfo := by
    rw [Fetched.fetch_cache hs (by simp), hinfo]
  have hprev : (s.fetch chain [height, height - 1]).cache (height - 1) = some parent := by
    rw [Fetched.fetch_cache hs (by simp), hparent]
  unfold blockRewardOf
  rw [if_neg (by simp [hbelow]), hfetch]
  simp [bind, Except.bind, hblock, hprev]

/-- The reward before fees is computed iff the parent is described and older, where the reward
depends on it. -/
theorem blockRewardOf_ok_iff (hchain : Answering chain answers) {s s' : Fetched} {height : Int64}
    {blockInfo : ChainBlock} (hs : Cached chain s.cache) (hinfo : chain height = some blockInfo) :
    (∃ reward, blockRewardOf pool answers s height = .ok (some reward, s')) ↔
      (belowUpgrade pool height || (chain (height - 1)).any fun parent =>
        decide (0 < (blockInfo.timestamp - parent.timestamp).toInt64.toInt)) = true ∧
      s' = s.parent pool chain height := by
  unfold Fetched.parent
  cases hbelow : belowUpgrade pool height with
  | true =>
    have heq : blockRewardOf pool answers s height =
        .ok (some (AionRewardsCalculator.calculateReward height), s) := if_pos hbelow
    rw [heq]
    simp [eq_comm]
  | false =>
    cases hparent : chain (height - 1) with
    | none =>
      refine iff_of_false ?_ (by simp)
      rintro ⟨reward, h⟩
      unfold blockRewardOf at h
      rw [if_neg (by simp [hbelow])] at h
      obtain ⟨⟨blocks, s₁⟩, hfetch, -⟩ := bind_eq_ok.mp h
      obtain ⟨hblocks, -⟩ := (fetchBlocks_ok_iff hchain hs).mp hfetch
      have := isSome_of_forall₂ hblocks (height - 1) (by simp)
      simp [hparent] at this
    | some parent =>
      rw [blockRewardOf_eq hchain hs hinfo hparent hbelow, Bool.false_or, Option.any_some,
        decide_eq_true_iff, ← calculateRewardWithTimeSpan_ok_iff, if_neg (by simp)]
      constructor
      · rintro ⟨reward, h⟩
        obtain ⟨r, hr, h⟩ := bind_eq_ok.mp h
        exact ⟨⟨r, hr⟩, (Prod.mk.inj (Except.ok.inj h)).2.symm⟩
      · rintro ⟨⟨r, hr⟩, rfl⟩
        exact ⟨r, bind_eq_ok.mpr ⟨r, hr, rfl⟩⟩

/-- The check for missing block details is not reached: the lookup before it throws. -/
theorem blockRewardOf_ne_none (hchain : Answering chain answers) {s s' : Fetched} {height : Int64}
    (hs : Cached chain s.cache) : blockRewardOf pool answers s height ≠ .ok (none, s') := by
  intro h
  unfold blockRewardOf at h
  split at h
  · exact nomatch (Prod.mk.inj (Except.ok.inj h)).1
  · obtain ⟨⟨blocks, s₁⟩, hfetch, h⟩ := bind_eq_ok.mp h
    obtain ⟨hblocks, -⟩ := (fetchBlocks_ok_iff hchain hs).mp hfetch
    have hlen : blocks.length = 2 := by rw [← hblocks.length_eq]; rfl
    dsimp only at h
    rw [if_neg (not_not.mpr hlen)] at h
    split at h
    · obtain ⟨reward, -, h⟩ := bind_eq_ok.mp h
      exact nomatch (Prod.mk.inj (Except.ok.inj h)).1
    · exact nomatch h

/-- What is fetched once the reward of a mature block of ours is known. -/
theorem Fetched.after_eq {s : Fetched} {latest : UInt64} {blockInfo : ChainBlock} {block : Block}
    (hinfo : chain block.blockHeight.toInt64 = some blockInfo) :
    s.after pool chain latest block = if rewarded pool latest blockInfo block = true then
      (if addsFees pool blockInfo = true then
        ⟨(s.parent pool chain block.blockHeight.toInt64).cache,
          (s.parent pool chain block.blockHeight.toInt64).calls + 1⟩
      else s.parent pool chain block.blockHeight.toInt64) else s := by
  unfold Fetched.after
  rw [hinfo]

/-- **The reward of a mature block of ours** is computed iff its parts can be. -/
theorem rewardOf_ok_iff (hchain : Answering chain answers) {s s' : Fetched} {height : Int64}
    {blockInfo : ChainBlock} (hs : Cached chain s.cache) (hinfo : chain height = some blockInfo) :
    (∃ reward?, rewardOf pool answers s blockInfo height = .ok (reward?, s')) ↔
      (belowUpgrade pool height || (chain (height - 1)).any fun parent =>
        decide (0 < (blockInfo.timestamp - parent.timestamp).toInt64.toInt)) = true ∧
      (addsFees pool blockInfo = true →
        receiptsAnswered answers (s.parent pool chain height).calls blockInfo = true) ∧
      s' = if addsFees pool blockInfo = true then
        ⟨(s.parent pool chain height).cache, (s.parent pool chain height).calls + 1⟩
        else s.parent pool chain height := by
  have hadds : addsFees pool blockInfo = true ↔
      pool.paymentProcessing.extra.keepTransactionFees = false ∧ blockInfo.transactions ≠ [] :=
    decide_eq_true_iff
  unfold rewardOf
  constructor
  · rintro ⟨reward?, h⟩
    obtain ⟨⟨blockReward?, s₁⟩, hreward, h⟩ := bind_eq_ok.mp h
    cases blockReward? with
    | none => exact absurd hreward (blockRewardOf_ne_none hchain hs)
    | some reward =>
      obtain ⟨hparent, rfl⟩ := (blockRewardOf_ok_iff hchain hs hinfo).mp ⟨reward, hreward⟩
      refine ⟨hparent, ?_⟩
      dsimp only at h
      simp only [← hadds] at h
      split at h
      · rename_i hfees
        obtain ⟨⟨fees, s₂⟩, hfetch, h⟩ := bind_eq_ok.mp h
        obtain ⟨hreceipts, rfl⟩ := getTxRewardAsync_ok_iff.mp ⟨fees, hfetch⟩
        rw [if_pos hfees]
        exact ⟨fun _ => hreceipts, (Prod.mk.inj (Except.ok.inj h)).2.symm⟩
      · rename_i hfees
        rw [if_neg hfees]
        exact ⟨fun hyes => absurd hyes hfees, (Prod.mk.inj (Except.ok.inj h)).2.symm⟩
  · rintro ⟨hparent, hreceipts, rfl⟩
    obtain ⟨reward, hreward⟩ := (blockRewardOf_ok_iff hchain hs hinfo).mpr ⟨hparent, rfl⟩
    by_cases hfees : addsFees pool blockInfo = true
    · obtain ⟨fees, hfetch⟩ := getTxRewardAsync_ok_iff.mpr ⟨hreceipts hfees, rfl⟩
      rw [if_pos hfees]
      refine ⟨some (reward + fees), bind_eq_ok.mpr ⟨_, hreward, ?_⟩⟩
      dsimp only
      rw [if_pos (hadds.mp hfees)]
      exact bind_eq_ok.mpr ⟨_, hfetch, rfl⟩
    · rw [if_neg hfees]
      refine ⟨some reward, bind_eq_ok.mpr ⟨_, hreward, ?_⟩⟩
      dsimp only
      rw [if_neg (mt hadds.mpr hfees)]

/-! ## When the loop returns -/

/-- Described and computable, for a mature block of ours. -/
theorem answered_and_computes_iff {s : Fetched} {latest : UInt64} {blockInfo : ChainBlock}
    {block : Block} (hinfo : chain block.blockHeight.toInt64 = some blockInfo)
    (hrewarded : rewarded pool latest blockInfo block = true) :
    (answered pool chain (some latest) block = true ∧
      blockComputes pool chain answers latest s block = true) ↔
      (belowUpgrade pool block.blockHeight.toInt64 ||
        (chain (block.blockHeight.toInt64 - 1)).any fun parent =>
          decide (0 < (blockInfo.timestamp - parent.timestamp).toInt64.toInt)) = true ∧
      (addsFees pool blockInfo = true → receiptsAnswered answers
        (s.parent pool chain block.blockHeight.toInt64).calls blockInfo = true) := by
  obtain ⟨hmine, hmature⟩ := of_decide_eq_true hrewarded
  have hneeds : needsParent pool latest blockInfo block =
      !belowUpgrade pool block.blockHeight.toInt64 := by
    unfold needsParent
    cases belowUpgrade pool block.blockHeight.toInt64 <;> simp [hmine, hmature]
  unfold answered blockComputes rewardComputes
  rw [hinfo]
  dsimp only
  rw [hneeds, Option.all_some, hrewarded]
  generalize receiptsAnswered answers _ blockInfo = receipts
  cases belowUpgrade pool block.blockHeight.toInt64 <;> cases addsFees pool blockInfo <;>
    cases chain (block.blockHeight.toInt64 - 1) <;> simp

/-- **One block** is classified iff its heights are described and its reward can be computed. -/
theorem classifyBlock_ok_iff (hchain : Answering chain answers) {latest : UInt64}
    {blockInfo : ChainBlock} {block : Block} {s s' : Fetched} (hs : Cached chain s.cache)
    (hinfo : chain block.blockHeight.toInt64 = some blockInfo) :
    (∃ block?, classifyBlock pool answers latest blockInfo block s = .ok (block?, s')) ↔
      (answered pool chain (some latest) block = true ∧
        blockComputes pool chain answers latest s block = true) ∧
      s' = s.after pool chain latest block := by
  have hdecide : rewarded pool latest blockInfo block = true ↔
      blockInfo.miner = some pool.address ∧ mature latest block.blockHeight
        pool.paymentProcessing.extra.minimumConfirmations = true := decide_eq_true_iff
  rw [Fetched.after_eq hinfo]
  unfold classifyBlock
  dsimp only
  by_cases hrewarded : rewarded pool latest blockInfo block = true
  · rw [if_pos (hdecide.mp hrewarded), if_pos hrewarded,
      answered_and_computes_iff hinfo hrewarded, and_assoc, ← rewardOf_ok_iff hchain hs hinfo]
    constructor
    · rintro ⟨block?, h⟩
      obtain ⟨⟨reward?, s₁⟩, hreward, h⟩ := bind_eq_ok.mp h
      obtain ⟨-, rfl⟩ := Prod.mk.inj (Except.ok.inj h)
      exact ⟨reward?, hreward⟩
    · rintro ⟨reward?, hreward⟩
      exact ⟨_, bind_eq_ok.mpr ⟨_, hreward, rfl⟩⟩
  · rw [if_neg (mt hdecide.mpr hrewarded), if_neg hrewarded]
    have hanswered : answered pool chain (some latest) block = true := by
      unfold answered
      rw [hinfo]
      refine if_neg fun hneeds => hrewarded (hdecide.mpr ?_)
      obtain ⟨hmine, hold, -⟩ := of_decide_eq_true hneeds
      exact ⟨hmine, hold⟩
    have hcomputes : blockComputes pool chain answers latest s block = true := by
      unfold blockComputes
      rw [hinfo, Option.all_some, Bool.eq_false_iff.mpr hrewarded]
      rfl
    simp [hanswered, hcomputes, eq_comm]

theorem classifyPage_ok_iff (hchain : Answering chain answers) {latest : UInt64} :
    ∀ {infos : List ChainBlock} {page : List Block} {s s' : Fetched}, Cached chain s.cache →
      List.Forall₂ (fun h b => chain h = some b) (page.map fun b => b.blockHeight.toInt64) infos →
      ((∃ rs, classifyPage pool answers latest s (infos.zip page) = .ok (rs, s')) ↔
        ((∀ b ∈ page, answered pool chain (some latest) b = true) ∧
          pageComputes pool chain answers latest s page = true) ∧
        s' = page.foldl (Fetched.after pool chain latest) s)
  | infos, [], s, s', hs, hinfos => by
    rw [List.zip_nil_right]
    exact ⟨fun ⟨rs, h⟩ => ⟨⟨by simp, rfl⟩, (Prod.mk.inj (Except.ok.inj h)).2.symm⟩,
      fun h => ⟨[], by rw [h.2]; rfl⟩⟩
  | infos, block :: page, s, s', hs, hinfos => by
    cases hinfos with
    | cons hinfo hinfos =>
      rw [List.zip_cons_cons, classifyPage, List.forall_mem_cons, pageComputes, Bool.and_eq_true,
        List.foldl_cons]
      have hblock := fun s' => (classifyBlock_ok_iff hchain hs hinfo :
        (∃ block?, classifyBlock pool answers latest _ block s = .ok (block?, s')) ↔ _)
      have hs₁ : Cached chain (s.after pool chain latest block).cache := hs.after latest block
      have hpage := fun s' => (classifyPage_ok_iff hchain hs₁ hinfos :
        (∃ rs, classifyPage pool answers latest _ _ = .ok (rs, s')) ↔ _)
      constructor
      · rintro ⟨rs, h⟩
        obtain ⟨⟨block?, s₁⟩, h₁, h⟩ := bind_eq_ok.mp h
        obtain ⟨⟨rest, s₂⟩, h₂, h⟩ := bind_eq_ok.mp h
        obtain ⟨-, rfl⟩ := Prod.mk.inj (Except.ok.inj h)
        obtain ⟨⟨hanswered, hcomputes⟩, rfl⟩ := (hblock s₁).mp ⟨block?, h₁⟩
        obtain ⟨⟨hrest, hrestComputes⟩, heq⟩ := (hpage _).mp ⟨rest, h₂⟩
        exact ⟨⟨⟨hanswered, hrest⟩, hcomputes, hrestComputes⟩, heq⟩
      · rintro ⟨⟨⟨hanswered, hrest⟩, hcomputes, hrestComputes⟩, heq⟩
        obtain ⟨block?, h₁⟩ := (hblock _).mpr ⟨⟨hanswered, hcomputes⟩, rfl⟩
        obtain ⟨rest, h₂⟩ := (hpage _).mpr ⟨⟨hrest, hrestComputes⟩, heq⟩
        exact ⟨_, bind_eq_ok.mpr ⟨_, h₁, bind_eq_ok.mpr ⟨_, h₂, rfl⟩⟩⟩

theorem Cached.page {s : Fetched} (hs : Cached chain s.cache) (latest : UInt64)
    (page : List Block) : Cached chain (page.foldl (Fetched.after pool chain latest) s).cache := by
  induction page generalizing s with
  | nil => exact hs
  | cons block page ih => exact ih (hs.after latest block)

/-- The blocks of a page that is described. -/
theorem exists_infos_of_answered {latest : UInt64} : ∀ {page : List Block},
    (∀ b ∈ page, answered pool chain (some latest) b = true) → ∃ infos,
      List.Forall₂ (fun h b => chain h = some b) (page.map fun b => b.blockHeight.toInt64) infos
  | [], _ => ⟨[], .nil⟩
  | block :: page, h => by
    obtain ⟨hblock, hpage⟩ := List.forall_mem_cons.mp h
    obtain ⟨infos, hinfos⟩ := exists_infos_of_answered hpage
    unfold answered at hblock
    cases hinfo : chain block.blockHeight.toInt64 with
    | none => simp [hinfo] at hblock
    | some info => exact ⟨info :: infos, .cons hinfo hinfos⟩

theorem reachedPages_of_none {i : ℕ} (h : firstHeight (answers.latest i) = none)
    (pages : List (List Block)) : reachedPages answers i pages = [] := by
  cases pages with
  | nil => rfl
  | cons page pages => rw [reachedPages, h]

/-- **A classification returns** iff every block that it reaches is described, and every reward that
it computes can be. -/
theorem classifyPages_ok_iff (hchain : Answering chain answers) :
    ∀ {pages : List (List Block)} {i : ℕ} {s : Fetched}, Cached chain s.cache →
      ((∃ rs, classifyPages pool answers i s pages = .ok rs) ↔
        (∀ p ∈ reachedPages answers i pages, ∀ b ∈ p.2, answered pool chain (some p.1) b = true) ∧
          computes pool chain answers s (reachedPages answers i pages) = true)
  | [], _, _, _ => by simp [classifyPages, reachedPages, computes]
  | page :: pages, i, s, hs => by
    rw [classifyPages]
    cases hlatest : firstHeight (answers.latest i) with
    | none =>
      rw [reachedPages_of_none hlatest]
      simp [computes]
    | some latest =>
      rw [reachedPages, hlatest]
      dsimp only
      rw [List.forall_mem_cons, computes, Bool.and_eq_true]
      dsimp only
      have hs₁ := hs.fetch (page.map fun b => b.blockHeight.toInt64)
      have hs₂ : Cached chain ((page.foldl (Fetched.after pool chain latest)
          (s.fetch chain (page.map fun b => b.blockHeight.toInt64))).cache) := hs₁.page latest page
      have hpages : (∃ rs, classifyPages pool answers (i + 1) _ pages = .ok rs) ↔ _ :=
        classifyPages_ok_iff hchain hs₂
      constructor
      · rintro ⟨rs, h⟩
        obtain ⟨⟨infos, s₁⟩, hfetch, h⟩ := bind_eq_ok.mp h
        obtain ⟨⟨result, s₂⟩, hpage, h⟩ := bind_eq_ok.mp h
        obtain ⟨results, hrest, -⟩ := bind_eq_ok.mp h
        obtain ⟨hinfos, rfl⟩ := (fetchBlocks_ok_iff hchain hs).mp hfetch
        obtain ⟨⟨hanswered, hcomputes⟩, rfl⟩ :=
          (classifyPage_ok_iff hchain hs₁ hinfos).mp ⟨result, hpage⟩
        obtain ⟨hrestAnswered, hrestComputes⟩ := hpages.mp ⟨results, hrest⟩
        exact ⟨⟨hanswered, hrestAnswered⟩, hcomputes, hrestComputes⟩
      · rintro ⟨⟨hanswered, hrestAnswered⟩, hcomputes, hrestComputes⟩
        obtain ⟨infos, hinfos⟩ := exists_infos_of_answered hanswered
        have hfetch := (fetchBlocks_ok_iff hchain hs).mpr ⟨hinfos, rfl⟩
        obtain ⟨result, hpage⟩ :=
          (classifyPage_ok_iff hchain hs₁ hinfos).mpr ⟨⟨hanswered, hcomputes⟩, rfl⟩
        obtain ⟨results, hrest⟩ := hpages.mpr ⟨hrestAnswered, hrestComputes⟩
        exact ⟨_, bind_eq_ok.mpr ⟨_, hfetch, bind_eq_ok.mpr ⟨_, hpage,
          bind_eq_ok.mpr ⟨_, hrest, rfl⟩⟩⟩⟩

end Fetch

/-! ## The list without the others -/

section Pages

variable {pool : PoolConfig} {chain : Int64 → Option ChainBlock} {answers : Answers}

theorem pagesOf_of_ne_nil {blocks : List Block} (h : blocks ≠ []) :
    pagesOf blocks = blocks.take 100 :: pagesOf (blocks.drop 100) := by
  have hlen := List.length_pos_of_ne_nil h
  have hcount : (blocks.length + 99) / 100 = ((blocks.drop 100).length + 99) / 100 + 1 := by
    rw [List.length_drop]
    omega
  unfold pagesOf
  rw [hcount, List.range_succ_eq_map, List.map_cons, List.map_map, Nat.zero_mul, List.drop_zero]
  congr 1
  refine List.map_congr_left fun i _ => ?_
  rw [Function.comp_apply, List.drop_drop]
  congr 2
  omega

/-- Nothing is processed when no page is reached. -/
theorem classifyPages_of_reachedPages_nil {pages : List (List Block)} {i : ℕ} (s : Fetched)
    (h : reachedPages answers i pages = []) : classifyPages pool answers i s pages = .ok [] := by
  cases pages with
  | nil => rfl
  | cons page pages =>
    rw [reachedPages] at h
    rw [classifyPages]
    cases hlatest : firstHeight (answers.latest i) with
    | none => rfl
    | some latest =>
      rw [hlatest] at h
      exact absurd h (List.cons_ne_nil _ _)

/-- What is processed depends on the pages that are reached only. -/
theorem classifyPages_congr {pages pages' : List (List Block)} {i : ℕ} {s : Fetched}
    (h : reachedPages answers i pages = reachedPages answers i pages') :
    classifyPages pool answers i s pages = classifyPages pool answers i s pages' := by
  induction pages generalizing pages' i s with
  | nil => rw [classifyPages_of_reachedPages_nil s h.symm, classifyPages]
  | cons page pages ih =>
    cases pages' with
    | nil => rw [classifyPages_of_reachedPages_nil s h, classifyPages]
    | cons page' pages' =>
      rw [reachedPages, reachedPages] at h
      rw [classifyPages, classifyPages]
      cases hlatest : firstHeight (answers.latest i) with
      | none => rfl
      | some latest =>
        rw [hlatest] at h
        obtain ⟨hpage, hpages⟩ := List.cons.inj h
        obtain rfl := (Prod.mk.inj hpage).2
        dsimp only
        simp only [ih hpages]

/-- **Blocks that are all described** are paged alike without those that are not reached. -/
theorem reachedPages_described : ∀ {blocks : List Block} {i : ℕ},
    (∀ p ∈ reachedPages answers i (pagesOf blocks), ∀ b ∈ p.2,
      answered pool chain (some p.1) b = true) →
    reachedPages answers i (pagesOf (describedBlocks pool chain answers i (pagesOf blocks))) =
      reachedPages answers i (pagesOf blocks) := by
  intro blocks
  induction hn : blocks.length using Nat.strong_induction_on generalizing blocks with
  | _ n ih =>
    intro i h
    by_cases hblocks : blocks = []
    · subst hblocks
      rfl
    · rw [pagesOf_of_ne_nil hblocks] at h ⊢
      rw [describedBlocks]
      rw [reachedPages] at h ⊢
      cases hlatest : firstHeight (answers.latest i) with
      | none => rw [reachedPages_of_none hlatest]
      | some latest =>
        rw [hlatest] at h
        obtain ⟨hpage, hpages⟩ := List.forall_mem_cons.mp h
        have hlen := List.length_pos_of_ne_nil hblocks
        -- the first page is the same, and full when another one follows
        have hfilter : (blocks.take 100).filter (answered pool chain (some latest)) =
            blocks.take 100 := List.filter_eq_self.mpr hpage
        have hrest := ih (blocks.drop 100).length (by rw [List.length_drop]; omega) rfl hpages
        rw [hfilter]
        set rest := describedBlocks pool chain answers (i + 1) (pagesOf (blocks.drop 100))
          with hrestdef
        have hsplit : (blocks.take 100 ++ rest).take 100 = blocks.take 100 ∧
            (blocks.take 100 ++ rest).drop 100 = rest := by
          by_cases hfull : 100 ≤ blocks.length
          · have htake : (blocks.take 100).length = 100 := List.length_take_of_le hfull
            exact ⟨by rw [List.take_append_of_le_length htake.ge, List.take_take, min_self],
              by rw [List.drop_append_of_le_length htake.ge]; simp⟩
          · have hnil : rest = [] := by
              rw [hrestdef, List.drop_eq_nil_of_le (by omega)]
              rfl
            rw [hnil, List.append_nil, List.take_take, min_self]
            exact ⟨rfl, List.drop_eq_nil_of_le (by simp)⟩
        rw [pagesOf_of_ne_nil (by simp [hblocks]), hsplit.1, hsplit.2, reachedPages, hlatest, hrest]

theorem classifyPage_mem {latest : UInt64} : ∀ {page : List (ChainBlock × Block)} {s s' : Fetched}
    {rs : List Classified}, classifyPage pool answers latest s page = .ok (rs, s') →
    ∀ r ∈ rs, r.latest = latest ∧ r.stored ∈ page.map Prod.snd
  | [], _, _, rs, h => by
    obtain ⟨rfl, -⟩ := Prod.mk.inj (Except.ok.inj h)
    simp
  | (blockInfo, block) :: page, s, s', rs, h => by
    rw [classifyPage] at h
    obtain ⟨⟨block?, s₁⟩, -, h⟩ := bind_eq_ok.mp h
    obtain ⟨⟨rest, s₂⟩, hrest, h⟩ := bind_eq_ok.mp h
    obtain ⟨rfl, -⟩ := Prod.mk.inj (Except.ok.inj h)
    intro r hr
    rcases List.mem_append.mp hr with hr | hr
    · obtain ⟨b, -, rfl⟩ := Option.map_eq_some_iff.mp (Option.mem_toList.mp hr)
      exact ⟨rfl, List.mem_cons_self⟩
    · obtain ⟨hlatest, hmem⟩ := classifyPage_mem hrest r hr
      exact ⟨hlatest, List.mem_cons_of_mem _ hmem⟩

/-- What is returned was on a page that is reached. -/
theorem classifyPages_mem : ∀ {pages : List (List Block)} {i : ℕ} {s : Fetched}
    {rs : List Classified}, classifyPages pool answers i s pages = .ok rs →
    ∀ r ∈ rs, ∃ p ∈ reachedPages answers i pages, r.latest = p.1 ∧ r.stored ∈ p.2
  | [], _, _, rs, h => by
    obtain rfl := Except.ok.inj h
    simp
  | page :: pages, i, s, rs, h => by
    rw [classifyPages] at h
    split at h
    · obtain rfl := Except.ok.inj h
      simp
    · rename_i latest hlatest
      rw [reachedPages, hlatest]
      obtain ⟨⟨infos, s₁⟩, -, h⟩ := bind_eq_ok.mp h
      obtain ⟨⟨result, s₂⟩, hpage, h⟩ := bind_eq_ok.mp h
      obtain ⟨results, hpages, h⟩ := bind_eq_ok.mp h
      obtain rfl := Except.ok.inj h
      intro r hr
      rcases List.mem_append.mp hr with hr | hr
      · obtain ⟨hlatest, hmem⟩ := classifyPage_mem hpage r hr
        exact ⟨_, List.mem_cons_self, hlatest, (snd_zip_sublist infos page).subset hmem⟩
      · obtain ⟨p, hp, hpr⟩ := classifyPages_mem hpages r hr
        exact ⟨p, List.mem_cons_of_mem _ hp, hpr⟩

end Pages

/-! ## Isolation -/

section Isolation

variable {pool : PoolConfig} {chain : Int64 → Option ChainBlock} {answers : Answers}
  {blocks : List Block}

theorem classifyBlocksAsync_ok_iff {result : List Block} :
    classifyBlocksAsync pool answers blocks = .ok result ↔
      ∃ rs, classifyPages pool answers 0 Fetched.empty (pagesOf blocks) = .ok rs ∧
        result = rs.map Classified.block := by
  constructor
  · intro h
    obtain ⟨rs, hrs, hresult, -⟩ := classifyBlocksAsync_spec h
    exact ⟨rs, hrs, hresult⟩
  · rintro ⟨rs, hrs, rfl⟩
    unfold classifyBlocksAsync
    rw [hrs]
    rfl

/-- **Blocks that the daemon cannot describe delay only themselves** exactly when there is none on
a page that is reached, and every reward to compute there can be computed. -/
theorem isolates_iff (pool : PoolConfig) (chain : Int64 → Option ChainBlock) (answers : Answers)
    (blocks : List Block) (hchain : Answering chain answers) :
    Isolates pool chain answers blocks ↔
      (∀ p ∈ reachedPages answers 0 (pagesOf blocks), ∀ b ∈ p.2,
        answered pool chain (some p.1) b = true) ∧
      computes pool chain answers Fetched.empty (reachedPages answers 0 (pagesOf blocks)) =
        true := by
  rw [← classifyPages_ok_iff hchain Cached.empty]
  constructor
  · rintro ⟨rs, hrs, -⟩
    exact ⟨rs, hrs⟩
  · rintro ⟨rs, hrs⟩
    have hreached := ((classifyPages_ok_iff hchain Cached.empty).mp ⟨rs, hrs⟩).1
    have hall : ∀ r ∈ rs, answered pool chain (some r.latest) r.stored = true := by
      intro r hr
      obtain ⟨p, hp, hlatest, hstored⟩ := classifyPages_mem hrs r hr
      rw [hlatest]
      exact hreached p hp r.stored hstored
    refine ⟨rs, hrs, ?_, fun r hr hnot => ?_⟩
    · rw [List.filter_eq_self.mpr hall]
      refine classifyBlocksAsync_ok_iff.mpr ⟨rs, ?_, rfl⟩
      rw [classifyPages_congr (reachedPages_described hreached), hrs]
    · exact absurd (hnot.symm.trans (hall r hr)) (by simp)

end Isolation

/-! ## A daemon that does not describe one block -/

/-- The blocks up to height 20 but the one at height 11, all ours, ten seconds apart. -/
def gappedChain (h : Int64) : Option ChainBlock :=
  if 0 ≤ h ∧ h ≤ 20 ∧ h ≠ 11 then some ⟨some h.toUInt64, some "0xa0pool", 10 * h.toUInt64, []⟩
  else none

/-- A daemon that answers these, and an error for every other height. -/
def gappedAnswers : Answers where
  latest _ := [⟨gappedChain 20, none⟩]
  blocks _ heights := .ok (heights.map fun h =>
    ⟨gappedChain h, if (gappedChain h).isSome then none else some "block not found"⟩)
  receipts _ _ := .ok []

theorem answering_gappedAnswers : Answering gappedChain gappedAnswers where
  height := by
    intro h b hb
    unfold gappedChain at hb
    split at hb
    · obtain rfl := Option.some.inj hb
      exact ⟨_, rfl, Int64.toInt64_toUInt64 h⟩
    · exact nomatch hb
  batch := by
    intro n heights
    refine ⟨_, rfl, fun b => ?_⟩
    simp only [List.mem_filterMap, List.mem_filter, List.mem_map]
    constructor
    · rintro ⟨r, ⟨⟨h, hh, rfl⟩, -⟩, hb⟩
      exact ⟨h, hh, hb⟩
    · rintro ⟨h, hh, hb⟩
      exact ⟨_, ⟨⟨h, hh, rfl⟩, by simp [hb]⟩, hb⟩

/-- A pool whose rewards depend on the timespan. -/
def timedPool : PoolConfig := { samplePool with signatureSwapProtocolUpgradeBlock := some 5 }

/-- Two blocks are classified, each by its parent's timestamp. -/
theorem isolates_described : Isolates timedPool gappedChain gappedAnswers
    [sampleBlock "aion1" 7 0 30, sampleBlock "aion1" 10 0 31] :=
  (isolates_iff timedPool gappedChain gappedAnswers
    [sampleBlock "aion1" 7 0 30, sampleBlock "aion1" 10 0 31] answering_gappedAnswers).mpr
    (by decide +kernel)

/-- **One block without an answer stops the classification** of a block that has one. -/
theorem not_isolates :
    let blocks := [sampleBlock "aion1" 10 0 30, sampleBlock "aion1" 11 0 31]
    describedBlocks samplePool gappedChain gappedAnswers 0 (pagesOf blocks) =
        [sampleBlock "aion1" 10 0 30] ∧
      (∃ alone, classifyBlocksAsync samplePool gappedAnswers [sampleBlock "aion1" 10 0 30] =
        .ok alone) ∧
      classifyBlocksAsync samplePool gappedAnswers blocks = .error .keyNotFound ∧
      ¬ Isolates samplePool gappedChain gappedAnswers blocks := by
  intro blocks
  have hthrows : classifyBlocksAsync samplePool gappedAnswers
      [sampleBlock "aion1" 10 0 30, sampleBlock "aion1" 11 0 31] = .error .keyNotFound := by rfl
  refine ⟨by decide +kernel, ⟨_, rfl⟩, hthrows, ?_⟩
  rintro ⟨rs, hrs, -⟩
  exact nomatch hthrows.symm.trans (classifyBlocksAsync_ok_iff.mpr ⟨rs, hrs, rfl⟩)

end AionPool.Aion
