import AionPool.Persistence.Repositories

/-!
# The share recorder

`Blockchain.Share` as the pool produces it, and `PersistSharesCoreAsync`: one transaction inserts a
batch of shares and a pending block row for each block candidate among them.

* `mem_blocks_persistSharesCoreAsync`: the batch adds pending rows of its candidates and nothing
  else to the blocks.

Models `ShareRecorder.cs:107-128`.
-/

namespace AionPool.Mining

open AionPool.Persistence
open AionPool.Lib.Binary64 (Double)

/-- `Blockchain.Share`, over the numbers `D` its difficulties are: rationals for the shares that
are recorded, doubles where a job computes them. -/
structure Share (D : Type) where
  poolId : String
  miner : String
  worker : Option String
  ipAddress : Option String
  userAgent : Option String
  source : Option String
  difficulty : D
  blockHeight : Int64
  blockReward : ℚ
  blockHash : Option String
  isBlockCandidate : Bool
  transactionConfirmationData : String
  networkDifficulty : D
  created : DateTime

/-- `Map<Persistence.Model.Share>`. -/
def Share.toModelShare (s : Share ℚ) : Persistence.Share where
  poolId := s.poolId
  blockHeight := s.blockHeight.toUInt64
  miner := s.miner
  worker := s.worker
  difficulty := s.difficulty
  networkDifficulty := s.networkDifficulty
  created := s.created

/-- `Map<Block>`, with the status `Pending`. -/
def Share.toModelBlock (s : Share ℚ) : Block where
  poolId := s.poolId
  blockHeight := s.blockHeight.toUInt64
  networkDifficulty := .fin s.networkDifficulty
  status := .pending
  type := none
  confirmationProgress := .fin 0
  effort := none
  transactionConfirmationData := s.transactionConfirmationData
  miner := some s.miner
  reward := s.blockReward
  source := s.source
  hash := s.blockHash
  created := s.created

/-- `PersistSharesCoreAsync`, when its transaction commits. -/
def persistSharesCoreAsync (db : Database) (shares : List (Share ℚ)) : Database :=
  (shares.filter fun s => s.isBlockCandidate).foldl
    (fun db s => BlockRepository.insertAsync db s.toModelBlock)
    (ShareRepository.batchInsertAsync db (shares.map Share.toModelShare))

theorem blocks_foldl_insert (ss : List (Share ℚ)) (db : Database) :
    (ss.foldl (fun db s => BlockRepository.insertAsync db s.toModelBlock) db).blocks =
      db.blocks ++ ss.map fun s => BlockRepository.row s.toModelBlock := by
  induction ss generalizing db with
  | nil => simp
  | cons s ss ih =>
    rw [List.foldl_cons, ih, List.map_cons]
    simp [BlockRepository.insertAsync]

theorem shares_foldl_insert (ss : List (Share ℚ)) (db : Database) :
    (ss.foldl (fun db s => BlockRepository.insertAsync db s.toModelBlock) db).shares =
      db.shares := by
  induction ss generalizing db with
  | nil => rfl
  | cons s ss ih => exact ih (BlockRepository.insertAsync db s.toModelBlock)

/-- The other tables stay as they are. -/
theorem persistSharesCoreAsync_others (db : Database) (shares : List (Share ℚ)) :
    persistSharesCoreAsync db shares = { db with
      shares := (persistSharesCoreAsync db shares).shares
      blocks := (persistSharesCoreAsync db shares).blocks } := by
  have hfold : ∀ (ss : List (Share ℚ)) (db : Database),
      ∃ blocks, ss.foldl (fun db s => BlockRepository.insertAsync db s.toModelBlock) db =
        { db with blocks } := by
    intro ss
    induction ss with
    | nil => exact fun db => ⟨db.blocks, rfl⟩
    | cons s ss ih =>
      intro db
      obtain ⟨blocks, h⟩ := ih (BlockRepository.insertAsync db s.toModelBlock)
      exact ⟨blocks, h⟩
  obtain ⟨blocks, h⟩ := hfold (shares.filter fun s => s.isBlockCandidate)
    (ShareRepository.batchInsertAsync db (shares.map Share.toModelShare))
  unfold persistSharesCoreAsync
  rw [h]
  rfl

/-- The batch adds pending rows of its candidates. -/
theorem mem_blocks_persistSharesCoreAsync {db : Database} {shares : List (Share ℚ)} {b : Block} :
    b ∈ (persistSharesCoreAsync db shares).blocks ↔ b ∈ db.blocks ∨
      ∃ s ∈ shares, s.isBlockCandidate = true ∧ b = BlockRepository.row s.toModelBlock := by
  unfold persistSharesCoreAsync
  rw [blocks_foldl_insert, List.mem_append]
  refine or_congr Iff.rfl ?_
  constructor
  · intro h
    obtain ⟨s, hs, rfl⟩ := List.mem_map.mp h
    obtain ⟨hs, hc⟩ := List.mem_filter.mp hs
    exact ⟨s, hs, hc, rfl⟩
  · rintro ⟨s, hs, hc, rfl⟩
    exact List.mem_map_of_mem (List.mem_filter.mpr ⟨hs, hc⟩)

end AionPool.Mining
