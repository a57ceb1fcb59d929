import AionPool.Configuration
import AionPool.Daemon
import AionPool.Persistence.Model
import Mathlib.Algebra.Order.Floor.Ring
import Mathlib.Data.Rat.Floor

/-!
# Classifying pending blocks

`AionPayoutHandler.ClassifyBlocksAsync`, with `FetchBlocks`, `GetTxRewardAsync` and the rewards
calculator. Heights are unsigned 64-bit numbers; they are subtracted without a guard.

* `classify` is what the two heights and the miner decide of a block.
* `classifyPages` is the loop; it returns, with each classified block, the latest height and the
  block details it was classified by.
* **`classifyBlocksAsync_spec`**: every block it returns is one it was given, as `classify` leaves
  it, its reward apart.
* **`reported_of_classifyPages`**: each is classified by the latest height reported for its page and
  the details a daemon has answered with for its height.

Models `AionPayoutHandler.cs:110-193`, `:260-307` and `AionRewardsCalculator.cs:31-53`. Out of
scope: the rounding of decimals, and the mix hash and the nonce, which are computed and not used.
-/

namespace AionPool.Aion

open AionPool.Configuration AionPool.Persistence AionPool.Daemon
open AionPool.Lib.Binary64 (Double)

/-! ## The rewards calculator -/

namespace AionRewardsCalculator

def blockReward : ℚ := 4500000000000000000
def capping : ℕ := 125
def magnitude : ℚ := 1000000000000000000

/-- The `i`-th entry of the table, for a timespan of `i + 1` seconds. -/
def rewardsAdjustTable (i : ℕ) : ℚ :=
  blockReward * (i + 1) * 4 / 10 / 10 + blockReward * (10 - 4) / 10

/-- `calculateReward`: the ramp, then the constant reward. -/
def calculateReward (height : Int64) : ℚ :=
  let m := (blockReward - 748994641621655092) / 259200
  if height.toInt ≤ 259200 then (m * height.toInt + 748994641621655092) / magnitude
  else blockReward / magnitude

def calculateRewardWithTimeSpan (timeSpan : Int64) : Except Exn ℚ :=
  if timeSpan.toInt ≤ 0 then .error (.exception "The block timespan should be at least 1 sec.")
  else .ok (rewardsAdjustTable
    (if capping < timeSpan.toInt.toNat then capping - 1 else timeSpan.toInt.toNat - 1) / magnitude)

end AionRewardsCalculator

/-! ## Fetching blocks -/

/-- The block cache, and the number of batches sent so far. -/
structure Fetched where
  cache : Int64 → Option ChainBlock
  calls : ℕ

def Fetched.empty : Fetched := ⟨fun _ => none, 0⟩

/-- `foreach (var block in transformed) blockCache[(long) block.Height.Value] = block`. -/
def storeBlocks (cache : Int64 → Option ChainBlock) :
    List ChainBlock → Except Exn (Int64 → Option ChainBlock)
  | [] => .ok cache
  | block :: blocks =>
    match block.height with
    | none => .error .invalidOperation
    | some height =>
      storeBlocks (fun h => if h = height.toInt64 then some block else cache h) blocks

/-- `blockHeights.Select(x => blockCache[x])`. -/
def lookupBlocks (cache : Int64 → Option ChainBlock) : List Int64 → Except Exn (List ChainBlock)
  | [] => .ok []
  | height :: heights =>
    match cache height with
    | none => .error .keyNotFound
    | some block => (lookupBlocks cache heights).map (block :: ·)

/-- `FetchBlocks`: a batch for the heights that are not cached, and the cached blocks. -/
def fetchBlocks (answers : Answers) (s : Fetched) (blockHeights : List Int64) :
    Except Exn (List ChainBlock × Fetched) :=
  let cacheMisses := blockHeights.filter fun h => (s.cache h).isNone
  if cacheMisses = [] then do
    let blocks ← lookupBlocks s.cache blockHeights
    .ok (blocks, s)
  else do
    let tmp ← answers.blocks s.calls cacheMisses
    let transformed := (tmp.filter fun x => x.error.isNone).filterMap DaemonResponse.response
    let cache ← storeBlocks s.cache transformed
    let blocks ← lookupBlocks cache blockHeights
    .ok (blocks, ⟨cache, s.calls + 1⟩)

/-! ## Rewards -/

/-- `ToDictionary(x => x.TransactionHash, x => x.GasUsed)`. -/
def gasUsedOf : List (DaemonResponse TransactionReceipt) → Except Exn (List (String × ℤ))
  | [] => .ok []
  | r :: rs =>
    match r.response with
    | none => .error .nullReference
    | some receipt => do
      let rest ← gasUsedOf rs
      if rest.any (fun e => e.1 = receipt.transactionHash) then .error .argument
      else .ok ((receipt.transactionHash, receipt.gasUsed) :: rest)

/-- The sum of `(ulong) gasUsed * gasPrice / Wei`. -/
def txFees (gasUsed : List (String × ℤ)) : List Transaction → Except Exn ℚ
  | [] => .ok 0
  | tx :: txs =>
    match gasUsed.lookup tx.hash with
    | none => .error .keyNotFound
    | some gas =>
      if 0 ≤ gas ∧ gas < 2 ^ 64 then do
        let rest ← txFees gasUsed txs
        .ok (gas * (tx.gasPrice.toNat / AionRewardsCalculator.magnitude) + rest)
      else .error (.overflow "Value was either too large or too small for a UInt64.")

/-- `GetTxRewardAsync`. -/
def getTxRewardAsync (answers : Answers) (s : Fetched) (blockInfo : ChainBlock) :
    Except Exn (ℚ × Fetched) := do
  let results ← answers.receipts s.calls (blockInfo.transactions.map Transaction.hash)
  let errors := results.filterMap DaemonResponse.error
  if errors ≠ [] then
    .error (.exception ("Error fetching tx receipts: " ++ String.intercalate ", " errors))
  else
    let gasUsed ← gasUsedOf results
    let fees ← txFees gasUsed blockInfo.transactions
    .ok (fees, ⟨s.cache, s.calls + 1⟩)

/-- `(long) block.BlockHeight < poolConfig.SignatureSwapProtocolUpgradeBlock`. -/
def belowUpgrade (pool : PoolConfig) (height : Int64) : Bool :=
  match pool.signatureSwapProtocolUpgradeBlock with
  | none => false
  | some upgrade => height < upgrade

/-- The reward of a mature block of ours, before transaction fees; `none` when block details are
missing and the block is skipped. -/
def blockRewardOf (pool : PoolConfig) (answers : Answers) (s : Fetched) (height : Int64) :
    Except Exn (Option ℚ × Fetched) :=
  if belowUpgrade pool height = true then
    .ok (some (AionRewardsCalculator.calculateReward height), s)
  else do
    let (cache, s) ← fetchBlocks answers s [height, height - 1]
    if cache.length ≠ 2 then .ok (none, s)
    else match s.cache height, s.cache (height - 1) with
      | some block, some parent => do
        let reward ← AionRewardsCalculator.calculateRewardWithTimeSpan
          (block.timestamp - parent.timestamp).toInt64
        .ok (some reward, s)
      | _, _ => .error .keyNotFound

/-- The reward of a mature block of ours. -/
def rewardOf (pool : PoolConfig) (answers : Answers) (s : Fetched) (blockInfo : ChainBlock)
    (height : Int64) : Except Exn (Option ℚ × Fetched) := do
  let (reward?, s) ← blockRewardOf pool answers s height
  match reward? with
  | none => .ok (none, s)
  | some reward =>
    if pool.paymentProcessing.extra.keepTransactionFees = false ∧
        blockInfo.transactions ≠ [] then do
      let (fees, s) ← getTxRewardAsync answers s blockInfo
      .ok (some (reward + fees), s)
    else .ok (some reward, s)

/-! ## Classification -/

/-- `Math.Min(1.0d, (double)(latestBlockHeight - block.BlockHeight) / MinimumConfirmations)`. -/
def confirmationProgress (latest height : UInt64) (minimumConfirmations : Int32) : Double :=
  Double.min (.fin 1)
    (Double.div (Double.ofRat (latest - height).toNat) (.fin minimumConfirmations.toInt))

/-- `latestBlockHeight - block.BlockHeight >= (ulong) MinimumConfirmations`. -/
def mature (latest height : UInt64) (minimumConfirmations : Int32) : Bool :=
  minimumConfirmations.toInt64.toUInt64 ≤ latest - height

/-- What the heights and the miner decide, the reward of a mature block apart. -/
def classify (pool : PoolConfig) (latest : UInt64) (blockInfo : ChainBlock) (block : Block) :
    Block :=
  let minimumConfirmations := pool.paymentProcessing.extra.minimumConfirmations
  let progress := confirmationProgress latest block.blockHeight minimumConfirmations
  if blockInfo.miner = some pool.address then
    if mature latest block.blockHeight minimumConfirmations then
      { block with confirmationProgress := .fin 1, status := .confirmed }
    else { block with confirmationProgress := progress }
  else if block.status = .pending ∧ Double.lt (.fin (3 / 4)) progress then
    { block with confirmationProgress := progress, status := .orphaned, reward := 0 }
  else { block with confirmationProgress := progress }

/-- One block of a page; `none` when it is taken out of the result. -/
def classifyBlock (pool : PoolConfig) (answers : Answers) (latest : UInt64)
    (blockInfo : ChainBlock) (block : Block) (s : Fetched) : Except Exn (Option Block × Fetched) :=
  let classified := classify pool latest blockInfo block
  if blockInfo.miner = some pool.address ∧ mature latest block.blockHeight
      pool.paymentProcessing.extra.minimumConfirmations = true then do
    let (reward?, s) ← rewardOf pool answers s blockInfo block.blockHeight.toInt64
    .ok (reward?.map fun reward => { classified with reward }, s)
  else .ok (some classified, s)

/-- A block the loop returns, the stored block it was, and what it was classified by. -/
structure Classified where
  latest : UInt64
  blockInfo : ChainBlock
  stored : Block
  block : Block

/-- The loop over a page. -/
def classifyPage (pool : PoolConfig) (answers : Answers) (latest : UInt64) :
    Fetched → List (ChainBlock × Block) → Except Exn (List Classified × Fetched)
  | s, [] => .ok ([], s)
  | s, (blockInfo, block) :: rest => do
    let (block?, s) ← classifyBlock pool answers latest blockInfo block s
    let (result, s) ← classifyPage pool answers latest s rest
    .ok ((block?.map fun b => ⟨latest, blockInfo, block, b⟩).toList ++ result, s)

/-- The loop over the pages, from the `i`-th on. It ends when no daemon knows the latest height. -/
def classifyPages (pool : PoolConfig) (answers : Answers) :
    ℕ → Fetched → List (List Block) → Except Exn (List Classified)
  | _, _, [] => .ok []
  | i, s, page :: pages =>
    match firstHeight (answers.latest i) with
    | none => .ok []
    | some latest => do
      let (blockInfos, s) ← fetchBlocks answers s (page.map fun b => b.blockHeight.toInt64)
      let (result, s) ← classifyPage pool answers latest s (blockInfos.zip page)
      let results ← classifyPages pool answers (i + 1) s pages
      .ok (result ++ results)

/-- Pages of 100 blocks. -/
def pagesOf (blocks : List Block) : List (List Block) :=
  (List.range ((blocks.length + 99) / 100)).map fun i => (blocks.drop (i * 100)).take 100

/-- `ClassifyBlocksAsync`. -/
def classifyBlocksAsync (pool : PoolConfig) (answers : Answers) (blocks : List Block) :
    Except Exn (List Block) :=
  (classifyPages pool answers 0 Fetched.empty (pagesOf blocks)).map (List.map Classified.block)

/-! ## What the loop returns -/

section Spec

variable {pool : PoolConfig} {answers : Answers}

/-- The block is the stored one as `classify` leaves it, the reward apart. -/
def Classified.FromStored (pool : PoolConfig) (r : Classified) : Prop :=
  ∃ reward, r.block = { classify pool r.latest r.blockInfo r.stored with reward }

theorem classifyBlock_spec {latest : UInt64} {blockInfo : ChainBlock} {block b : Block}
    {s s' : Fetched} (h : classifyBlock pool answers latest blockInfo block s = .ok (some b, s')) :
    ∃ reward, b = { classify pool latest blockInfo block with reward } := by
  unfold classifyBlock at h
  split at h
  · obtain ⟨⟨reward?, s₁⟩, -, h⟩ := bind_eq_ok.mp h
    have hb := (Prod.mk.inj (Except.ok.inj h)).1
    obtain ⟨reward, -, hb⟩ := Option.map_eq_some_iff.mp hb
    exact ⟨reward, hb.symm⟩
  · have hb := (Prod.mk.inj (Except.ok.inj h)).1
    exact ⟨(classify pool latest blockInfo block).reward, (Option.some.inj hb).symm⟩

theorem classifyPage_spec {latest : UInt64} : ∀ {page : List (ChainBlock × Block)} {s s' : Fetched}
    {rs : List Classified}, classifyPage pool answers latest s page = .ok (rs, s') →
      (rs.map Classified.stored).Sublist (page.map Prod.snd) ∧ ∀ r ∈ rs, r.FromStored pool
  | [], _, _, rs, h => by
    obtain ⟨rfl, -⟩ := Prod.mk.inj (Except.ok.inj h)
    exact ⟨List.Sublist.refl _, fun r hr => absurd hr List.not_mem_nil⟩
  | (blockInfo, block) :: page, s, s', rs, h => by
    rw [classifyPage] at h
    obtain ⟨⟨block?, s₁⟩, h₁, h⟩ := bind_eq_ok.mp h
    obtain ⟨⟨rest, s₂⟩, h₂, h⟩ := bind_eq_ok.mp h
    obtain ⟨rfl, -⟩ := Prod.mk.inj (Except.ok.inj h)
    obtain ⟨hsub, hspec⟩ := classifyPage_spec h₂
    cases block? with
    | none => exact ⟨hsub.cons block, hspec⟩
    | some b =>
      refine ⟨hsub.cons_cons block, fun r hr => ?_⟩
      rcases List.mem_cons.mp hr with rfl | hr
      · exact classifyBlock_spec h₁
      · exact hspec r hr

theorem snd_zip_sublist {α β : Type} :
    ∀ (as : List α) (bs : List β), ((as.zip bs).map Prod.snd).Sublist bs
  | [], bs => List.nil_sublist bs
  | _ :: _, [] => List.Sublist.refl _
  | _ :: as, b :: bs => (snd_zip_sublist as bs).cons_cons b

theorem classifyPages_spec : ∀ {pages : List (List Block)} {i : ℕ} {s : Fetched}
    {rs : List Classified}, classifyPages pool answers i s pages = .ok rs →
      (rs.map Classified.stored).Sublist pages.flatten ∧ ∀ r ∈ rs, r.FromStored pool
  | [], _, _, rs, h => by
    obtain rfl := Except.ok.inj h
    exact ⟨List.Sublist.refl _, fun r hr => absurd hr List.not_mem_nil⟩
  | page :: pages, i, s, rs, h => by
    rw [classifyPages] at h
    split at h
    · obtain rfl := Except.ok.inj h
      exact ⟨List.nil_sublist _, fun r hr => absurd hr List.not_mem_nil⟩
    · obtain ⟨⟨infos, s₁⟩, -, h⟩ := bind_eq_ok.mp h
      obtain ⟨⟨result, s₂⟩, h₂, h⟩ := bind_eq_ok.mp h
      obtain ⟨results, h₃, h⟩ := bind_eq_ok.mp h
      obtain rfl := Except.ok.inj h
      obtain ⟨hsub₂, hspec₂⟩ := classifyPage_spec h₂
      obtain ⟨hsub₃, hspec₃⟩ := classifyPages_spec h₃
      refine ⟨?_, fun r hr => ?_⟩
      · rw [List.map_append, List.flatten_cons]
        exact (hsub₂.trans (snd_zip_sublist infos page)).append hsub₃
      · rcases List.mem_append.mp hr with hr | hr
        · exact hspec₂ r hr
        · exact hspec₃ r hr

theorem flatten_pagesOf (blocks : List Block) : (pagesOf blocks).flatten = blocks := by
  have htake : ∀ k, ((List.range k).map fun i => (blocks.drop (i * 100)).take 100).flatten =
      blocks.take (k * 100) := fun k => by
    induction k with
    | zero => simp
    | succ k ih =>
      rw [List.range_succ, List.map_append, List.flatten_append, ih, Nat.add_one_mul, List.take_add]
      simp
  unfold pagesOf
  rw [htake, List.take_of_length_le (by omega)]

/-- **What `ClassifyBlocksAsync` returns**: blocks it was given, in their order, as `classify`
leaves them. -/
theorem classifyBlocksAsync_spec {blocks result : List Block}
    (h : classifyBlocksAsync pool answers blocks = .ok result) :
    ∃ rs, classifyPages pool answers 0 Fetched.empty (pagesOf blocks) = .ok rs ∧
      result = rs.map Classified.block ∧ (rs.map Classified.stored).Sublist blocks ∧
      ∀ r ∈ rs, r.FromStored pool := by
  unfold classifyBlocksAsync at h
  cases hrs : classifyPages pool answers 0 Fetched.empty (pagesOf blocks) with
  | error e => rw [hrs] at h; exact absurd h (by simp [Except.map])
  | ok rs =>
    rw [hrs] at h
    obtain ⟨hsub, hspec⟩ := classifyPages_spec hrs
    rw [flatten_pagesOf] at hsub
    exact ⟨rs, rfl, (Except.ok.inj h).symm, hsub, hspec⟩

end Spec

/-! ## What the loop classifies by -/

/-- A daemon has answered with the block, and it is the one at the height. -/
structure Described (answers : Answers) (h : Int64) (b : ChainBlock) : Prop where
  height : ∃ height, b.height = some height ∧ height.toInt64 = h
  answer : ∃ n heights rs, answers.blocks n heights = .ok rs ∧
    ∃ r ∈ rs, r.error = none ∧ r.response = some b

/-- The cache holds blocks that daemons have answered with, each at its height. -/
def Known (answers : Answers) (cache : Int64 → Option ChainBlock) : Prop :=
  ∀ h b, cache h = some b → Described answers h b

/-- The latest height is the one reported for the block's page, and the block details are those a
daemon has answered with for the block's height. -/
structure Classified.Reported (answers : Answers) (pages : List (List Block)) (r : Classified) :
    Prop where
  latest : ∃ (i : ℕ) (page : List Block), pages[i]? = some page ∧ r.stored ∈ page ∧
    firstHeight (answers.latest i) = some r.latest
  blockInfo : Described answers r.stored.blockHeight.toInt64 r.blockInfo

section Known

variable {pool : PoolConfig} {answers : Answers}

theorem Known.empty : Known answers Fetched.empty.cache :=
  fun _ _ h => absurd h (by simp [Fetched.empty])

theorem storeBlocks_known {n : ℕ} {heights : List Int64} {rs : List (DaemonResponse ChainBlock)}
    (hrs : answers.blocks n heights = .ok rs) : ∀ {blocks : List ChainBlock}
    {cache cache' : Int64 → Option ChainBlock},
    (∀ b ∈ blocks, ∃ r ∈ rs, r.error = none ∧ r.response = some b) → Known answers cache →
    storeBlocks cache blocks = .ok cache' → Known answers cache'
  | [], cache, cache', _, hcache, h => by
    obtain rfl := Except.ok.inj h
    exact hcache
  | block :: blocks, cache, cache', hblocks, hcache, h => by
    unfold storeBlocks at h
    cases hheight : block.height with
    | none =>
      rw [hheight] at h
      exact nomatch h
    | some height =>
      rw [hheight] at h
      refine storeBlocks_known hrs (fun b hb => hblocks b (List.mem_cons_of_mem _ hb)) ?_ h
      intro g b hb
      dsimp only at hb
      split at hb
      · rename_i hg
        obtain rfl := Option.some.inj hb
        exact ⟨⟨height, hheight, hg.symm⟩, n, heights, rs, hrs, hblocks block List.mem_cons_self⟩
      · exact hcache g b hb

theorem lookupBlocks_ok {cache : Int64 → Option ChainBlock} : ∀ {heights : List Int64}
    {blocks : List ChainBlock}, lookupBlocks cache heights = .ok blocks →
    List.Forall₂ (fun h b => cache h = some b) heights blocks
  | [], blocks, h => by
    obtain rfl := Except.ok.inj h
    exact List.Forall₂.nil
  | height :: heights, blocks, h => by
    unfold lookupBlocks at h
    split at h
    · exact nomatch h
    · rename_i block hblock
      cases hrest : lookupBlocks cache heights with
      | error e =>
        rw [hrest] at h
        exact nomatch h
      | ok rest =>
        rw [hrest] at h
        obtain rfl := Except.ok.inj h
        exact List.Forall₂.cons hblock (lookupBlocks_ok hrest)

/-- **A fetch that returns** has an answered block for every height. -/
theorem fetchBlocks_known {s s' : Fetched} {heights : List Int64} {blocks : List ChainBlock}
    (hs : Known answers s.cache) (h : fetchBlocks answers s heights = .ok (blocks, s')) :
    Known answers s'.cache ∧ List.Forall₂ (Described answers) heights blocks := by
  unfold fetchBlocks at h
  dsimp only at h
  split at h
  · obtain ⟨found, hfound, h⟩ := bind_eq_ok.mp h
    obtain ⟨rfl, rfl⟩ := Prod.mk.inj (Except.ok.inj h)
    exact ⟨hs, (lookupBlocks_ok hfound).imp hs⟩
  · obtain ⟨rs, hrs, h⟩ := bind_eq_ok.mp h
    obtain ⟨cache, hcache, h⟩ := bind_eq_ok.mp h
    obtain ⟨found, hfound, h⟩ := bind_eq_ok.mp h
    obtain ⟨rfl, rfl⟩ := Prod.mk.inj (Except.ok.inj h)
    have hknown : Known answers cache := by
      refine storeBlocks_known hrs (fun b hb => ?_) hs hcache
      obtain ⟨r, hr, hb⟩ := List.mem_filterMap.mp hb
      obtain ⟨hr, hnone⟩ := List.mem_filter.mp hr
      exact ⟨r, hr, Option.isNone_iff_eq_none.mp hnone, hb⟩
    exact ⟨hknown, (lookupBlocks_ok hfound).imp hknown⟩

theorem blockRewardOf_known {s s' : Fetched} {height : Int64} {reward? : Option ℚ}
    (hs : Known answers s.cache)
    (h : blockRewardOf pool answers s height = .ok (reward?, s')) : Known answers s'.cache := by
  unfold blockRewardOf at h
  dsimp only at h
  split at h
  · obtain ⟨-, rfl⟩ := Prod.mk.inj (Except.ok.inj h)
    exact hs
  · obtain ⟨⟨blocks, s₁⟩, hfetch, h⟩ := bind_eq_ok.mp h
    have hs₁ := (fetchBlocks_known hs hfetch).1
    dsimp only at h
    split at h
    · obtain ⟨-, rfl⟩ := Prod.mk.inj (Except.ok.inj h)
      exact hs₁
    · split at h
      · obtain ⟨reward, -, h⟩ := bind_eq_ok.mp h
        obtain ⟨-, rfl⟩ := Prod.mk.inj (Except.ok.inj h)
        exact hs₁
      · exact nomatch h

/-- Receipts are not cached. -/
theorem getTxRewardAsync_cache {s s' : Fetched} {blockInfo : ChainBlock} {fees : ℚ}
    (h : getTxRewardAsync answers s blockInfo = .ok (fees, s')) :
    s' = ⟨s.cache, s.calls + 1⟩ := by
  unfold getTxRewardAsync at h
  obtain ⟨results, -, h⟩ := bind_eq_ok.mp h
  dsimp only at h
  split at h
  · exact nomatch h
  · obtain ⟨gasUsed, -, h⟩ := bind_eq_ok.mp h
    obtain ⟨total, -, h⟩ := bind_eq_ok.mp h
    exact (Prod.mk.inj (Except.ok.inj h)).2.symm

theorem rewardOf_known {s s' : Fetched} {blockInfo : ChainBlock} {height : Int64}
    {reward? : Option ℚ} (hs : Known answers s.cache)
    (h : rewardOf pool answers s blockInfo height = .ok (reward?, s')) :
    Known answers s'.cache := by
  unfold rewardOf at h
  obtain ⟨⟨blockReward?, s₁⟩, hreward, h⟩ := bind_eq_ok.mp h
  have hs₁ := blockRewardOf_known hs hreward
  dsimp only at h
  split at h
  · obtain ⟨-, rfl⟩ := Prod.mk.inj (Except.ok.inj h)
    exact hs₁
  · split at h
    · obtain ⟨⟨fees, s₂⟩, hfees, h⟩ := bind_eq_ok.mp h
      obtain ⟨-, rfl⟩ := Prod.mk.inj (Except.ok.inj h)
      rw [getTxRewardAsync_cache hfees]
      exact hs₁
    · obtain ⟨-, rfl⟩ := Prod.mk.inj (Except.ok.inj h)
      exact hs₁

theorem classifyBlock_known {latest : UInt64} {blockInfo : ChainBlock} {block : Block}
    {block? : Option Block} {s s' : Fetched} (hs : Known answers s.cache)
    (h : classifyBlock pool answers latest blockInfo block s = .ok (block?, s')) :
    Known answers s'.cache := by
  unfold classifyBlock at h
  dsimp only at h
  split at h
  · obtain ⟨⟨reward?, s₁⟩, hreward, h⟩ := bind_eq_ok.mp h
    obtain ⟨-, rfl⟩ := Prod.mk.inj (Except.ok.inj h)
    exact rewardOf_known hs hreward
  · obtain ⟨-, rfl⟩ := Prod.mk.inj (Except.ok.inj h)
    exact hs

/-- The blocks of a page are classified by the details of their heights. -/
theorem classifyPage_known {latest : UInt64} : ∀ {infos : List ChainBlock} {page : List Block}
    {s s' : Fetched} {rs : List Classified}, Known answers s.cache →
    List.Forall₂ (Described answers) (page.map fun b => b.blockHeight.toInt64) infos →
    classifyPage pool answers latest s (infos.zip page) = .ok (rs, s') →
    Known answers s'.cache ∧ ∀ r ∈ rs, r.latest = latest ∧ r.stored ∈ page ∧
      Described answers r.stored.blockHeight.toInt64 r.blockInfo
  | infos, [], s, s', rs, hs, _, h => by
    rw [List.zip_nil_right] at h
    obtain ⟨rfl, rfl⟩ := Prod.mk.inj (Except.ok.inj h)
    exact ⟨hs, fun r hr => absurd hr List.not_mem_nil⟩
  | infos, block :: page, s, s', rs, hs, hinfos, h => by
    cases hinfos with
    | cons hinfo hinfos =>
      rw [List.zip_cons_cons, classifyPage] at h
      obtain ⟨⟨block?, s₁⟩, hblock, h⟩ := bind_eq_ok.mp h
      obtain ⟨⟨rest, s₂⟩, hrest, h⟩ := bind_eq_ok.mp h
      obtain ⟨rfl, rfl⟩ := Prod.mk.inj (Except.ok.inj h)
      obtain ⟨hs₂, hpage⟩ := classifyPage_known (classifyBlock_known hs hblock) hinfos hrest
      refine ⟨hs₂, fun r hr => ?_⟩
      rcases List.mem_append.mp hr with hr | hr
      · obtain ⟨b, -, rfl⟩ := Option.map_eq_some_iff.mp (Option.mem_toList.mp hr)
        exact ⟨rfl, List.mem_cons_self, hinfo⟩
      · obtain ⟨hlatest, hmem, hdescribed⟩ := hpage r hr
        exact ⟨hlatest, List.mem_cons_of_mem _ hmem, hdescribed⟩

theorem classifyPages_known : ∀ {pages : List (List Block)} {i : ℕ} {s : Fetched}
    {rs : List Classified}, Known answers s.cache → classifyPages pool answers i s pages = .ok rs →
    ∀ r ∈ rs, (∃ (j : ℕ) (page : List Block), pages[j]? = some page ∧ r.stored ∈ page ∧
      firstHeight (answers.latest (i + j)) = some r.latest) ∧
      Described answers r.stored.blockHeight.toInt64 r.blockInfo
  | [], _, _, rs, _, h => by
    obtain rfl := Except.ok.inj h
    exact fun r hr => absurd hr List.not_mem_nil
  | page :: pages, i, s, rs, hs, h => by
    rw [classifyPages] at h
    split at h
    · obtain rfl := Except.ok.inj h
      exact fun r hr => absurd hr List.not_mem_nil
    · rename_i latest hlatest
      obtain ⟨⟨infos, s₁⟩, hfetch, h⟩ := bind_eq_ok.mp h
      obtain ⟨⟨result, s₂⟩, hpage, h⟩ := bind_eq_ok.mp h
      obtain ⟨results, hpages, h⟩ := bind_eq_ok.mp h
      obtain rfl := Except.ok.inj h
      obtain ⟨hs₁, hinfos⟩ := fetchBlocks_known hs hfetch
      obtain ⟨hs₂, hresult⟩ := classifyPage_known hs₁ hinfos hpage
      intro r hr
      rcases List.mem_append.mp hr with hr | hr
      · obtain ⟨rfl, hmem, hdescribed⟩ := hresult r hr
        exact ⟨⟨0, page, rfl, hmem, hlatest⟩, hdescribed⟩
      · obtain ⟨⟨j, page', hj, hmem, hlatest'⟩, hdescribed⟩ := classifyPages_known hs₂ hpages r hr
        refine ⟨⟨j + 1, page', hj, hmem, ?_⟩, hdescribed⟩
        rw [← hlatest', Nat.add_assoc, Nat.add_comm 1 j]

/-- **What `ClassifyBlocksAsync` classifies by** was reported for each block. -/
theorem reported_of_classifyPages {pages : List (List Block)} {rs : List Classified}
    (h : classifyPages pool answers 0 Fetched.empty pages = .ok rs) :
    ∀ r ∈ rs, r.Reported answers pages := by
  intro r hr
  obtain ⟨⟨i, page, hi, hmem, hlatest⟩, hdescribed⟩ := classifyPages_known Known.empty h r hr
  rw [Nat.zero_add] at hlatest
  exact ⟨⟨i, page, hi, hmem, hlatest⟩, hdescribed⟩

end Known

/-! ## What classification keeps -/

section Spec

variable {pool : PoolConfig}

variable {latest : UInt64} {blockInfo : ChainBlock} {block : Block}

@[simp] theorem classify_poolId : (classify pool latest blockInfo block).poolId = block.poolId := by
  unfold classify
  dsimp only
  split_ifs <;> rfl

@[simp] theorem classify_blockHeight :
    (classify pool latest blockInfo block).blockHeight = block.blockHeight := by
  unfold classify
  dsimp only
  split_ifs <;> rfl

@[simp] theorem classify_created :
    (classify pool latest blockInfo block).created = block.created := by
  unfold classify
  dsimp only
  split_ifs <;> rfl

end Spec

end AionPool.Aion
