import AionPool.Lib.Run
import AionPool.Mining.ShareRecorder
import AionPool.Payments.Manager

/-!
# When a chain block is rewarded twice

The share recorder and the payout manager as one system: batches of shares are persisted at any
moment, also between the selection of the pending blocks of a round and its transactions. The
system logs the pool and height of every committed transaction that credits a reward.

* `Event` is what may happen next, `step` what it does.
* `Guard` excludes the two ways a rewarded height becomes pending again: a candidate persisted
  after the height was rewarded, and an update by another pool with a pending block at the height.
* `inv_step`: what a rewarded height looks like, kept by every guarded step.
* **`rewarded_nodup`**: along guarded runs no height of a pool is rewarded twice.

Models `PayoutManager.cs:79-127`, round after round.
-/

namespace AionPool.Payments.RewardOnce

open AionPool.Configuration AionPool.Persistence AionPool.Daemon AionPool.Aion
open AionPool.Payments.PayoutManager
open AionPool.Lib.Run

/-- The tables, what is left of the current round, and the rewards committed. -/
structure State where
  db : Database
  round : Option (PoolConfig × List Block)
  rewarded : List (String × UInt64)

/-- Empty tables, no round, nothing rewarded. -/
def State.init : State := ⟨Database.empty, none, []⟩

/-- What may happen next. -/
inductive Event where
  /-- A batch of shares is persisted, new or recovered. -/
  | persistShares (shares : List (Mining.Share ℚ))
  /-- A round starts: the pending blocks selected, and the daemons' answers they are classified
  by. -/
  | startRound (pool : PoolConfig) (pendingBlocks : List Block) (answers : Answers)
  /-- The transaction of the next block of the round ends. -/
  | blockTransaction (outcome : TxOutcome)

/-- The reward a committed transaction stands for. -/
def rewardOf (pool : PoolConfig) (block : Block) : List (String × UInt64) :=
  if block.status = .confirmed then [(pool.id, block.blockHeight)] else []

/-- One step. Rounds follow each other; an exception ends a round. -/
def step (s : State) : Event → Option State
  | .persistShares shares => some { s with db := Mining.persistSharesCoreAsync s.db shares }
  | .startRound pool pendingBlocks answers =>
    if s.round.isNone ∧ BlockRepository.IsDistinctPending s.db.blocks pool.id pendingBlocks then
      match classifyBlocksAsync pool answers pendingBlocks with
      | .error _ => some s
      | .ok updatedBlocks => some { s with round := some (pool, roundBlocks updatedBlocks) }
    else none
  | .blockTransaction outcome =>
    match s.round with
    | none => none
    | some (_, []) => some { s with round := none }
    | some (pool, block :: blocks) =>
      match PayoutManager.blockTransaction pool s.db block, outcome with
      | .error _, _ | _, .rolledBack => some { s with round := none }
      | .ok db, .ackLost => some ⟨db, none, s.rewarded ++ rewardOf pool block⟩
      | .ok db, .committed => some ⟨db, some (pool, blocks), s.rewarded ++ rewardOf pool block⟩

/-- The next block of the round is not a pending one at a height another pool was rewarded for. -/
def KeepsSettled (rewarded : List (String × UInt64)) : Option (PoolConfig × List Block) → Prop
  | some (pool, block :: _) => block.status = .pending →
      ∀ r ∈ rewarded, r.2 = block.blockHeight → r.1 = pool.id
  | _ => True

instance (rewarded : List (String × UInt64)) :
    ∀ round, Decidable (KeepsSettled rewarded round)
  | some (pool, block :: _) => inferInstanceAs (Decidable (block.status = .pending →
      ∀ r ∈ rewarded, r.2 = block.blockHeight → r.1 = pool.id))
  | some (_, []) | none => isTrue trivial

/-- What a step must not do: persist a candidate for a height its pool was rewarded for, or update
a pending block at a height another pool was rewarded for. -/
def Guard (s : State) : Event → Prop
  | .persistShares shares => ∀ c ∈ shares, c.isBlockCandidate = true →
      (c.poolId, c.blockHeight.toUInt64) ∉ s.rewarded
  | .startRound _ _ _ => True
  | .blockTransaction _ => KeepsSettled s.rewarded s.round

instance (s : State) : ∀ e, Decidable (Guard s e)
  | .persistShares shares => inferInstanceAs (Decidable (∀ c ∈ shares, _ → _))
  | .startRound _ _ _ => isTrue trivial
  | .blockTransaction _ => inferInstanceAs (Decidable (KeepsSettled s.rewarded s.round))

/-- What holds of every state reached: rewards are distinct, the rows of a rewarded height are not
pending, and no block of the round is of a rewarded height. -/
structure Inv (s : State) : Prop where
  nodup : s.rewarded.Nodup
  settled : ∀ p h, (p, h) ∈ s.rewarded → ∀ b ∈ s.db.blocks, b.poolId = p → b.blockHeight = h →
    b.status ≠ .pending
  fresh : ∀ pool blocks, s.round = some (pool, blocks) → (blocks.map Block.blockHeight).Nodup ∧
    ∀ b ∈ blocks, (pool.id, b.blockHeight) ∉ s.rewarded

theorem inv_init : Inv State.init where
  nodup := List.nodup_nil
  settled := fun _ _ h => absurd h List.not_mem_nil
  fresh := fun _ _ h => absurd h (by simp [State.init])

/-- Without a round there is nothing to be fresh. -/
theorem Inv.endRound {s : State} (hI : Inv s) : Inv { s with round := none } where
  nodup := hI.nodup
  settled := hI.settled
  fresh := fun _ _ h => absurd h (by simp)

theorem Inv.persistShares {s : State} (hI : Inv s) {shares : List (Mining.Share ℚ)}
    (hG : Guard s (.persistShares shares)) :
    Inv { s with db := Mining.persistSharesCoreAsync s.db shares } where
  nodup := hI.nodup
  settled := fun p h hr b hb hp hh => by
    rcases Mining.mem_blocks_persistSharesCoreAsync.mp hb with hb | ⟨c, hc, hcand, rfl⟩
    · exact hI.settled p h hr b hb hp hh
    · subst hp hh
      exact absurd hr (hG c hc hcand)
  fresh := hI.fresh

theorem Inv.startRound {s : State} (hI : Inv s) {pool : PoolConfig} {pendingBlocks : List Block}
    {answers : Answers} (hsel : BlockRepository.IsDistinctPending s.db.blocks pool.id pendingBlocks)
    {updatedBlocks : List Block}
    (hcl : classifyBlocksAsync pool answers pendingBlocks = .ok updatedBlocks) :
    Inv { s with round := some (pool, roundBlocks updatedBlocks) } where
  nodup := hI.nodup
  settled := hI.settled
  fresh := fun pool' blocks h => by
    obtain ⟨rfl, rfl⟩ := Prod.mk.inj (Option.some.inj h)
    obtain ⟨hheights, hnd⟩ := roundBlocks_spec hcl
    refine ⟨hnd hsel.2.1, fun b hb hr => ?_⟩
    obtain ⟨c, hc, hcb⟩ := List.mem_map.mp (hheights b hb)
    obtain ⟨hcdb, hcpool, hcst⟩ := hsel.1 c hc
    exact hI.settled _ _ hr c hcdb hcpool hcb hcst

theorem mem_rewardOf {pool : PoolConfig} {block : Block} {p : String} {h : UInt64} :
    (p, h) ∈ rewardOf pool block ↔
      block.status = .confirmed ∧ p = pool.id ∧ h = block.blockHeight := by
  unfold rewardOf
  split
  · rename_i hst
    simp [hst]
  · rename_i hst
    simp [hst]

/-- A committed transaction: its height was not rewarded before, and the rows it updates take the
status of its block. -/
theorem Inv.blockTransaction {s : State} (hI : Inv s) {pool : PoolConfig} {block : Block}
    {blocks : List Block} (hround : s.round = some (pool, block :: blocks))
    (hG : KeepsSettled s.rewarded s.round)
    {db : Database} (hdb : PayoutManager.blockTransaction pool s.db block = .ok db) :
    Inv ⟨db, some (pool, blocks), s.rewarded ++ rewardOf pool block⟩ := by
  obtain ⟨hnd, hfresh⟩ := hI.fresh pool (block :: blocks) hround
  obtain ⟨hnot, hnd⟩ := List.nodup_cons.mp hnd
  have hnew := hfresh block List.mem_cons_self
  obtain ⟨effort, hblocks⟩ := blockTransaction_blocks hdb
  rw [hround] at hG
  refine ⟨?_, fun p h hr b hb hp hh => ?_, fun pool' blocks' h => ?_⟩
  · rw [List.nodup_append]
    refine ⟨hI.nodup, ?_, ?_⟩
    · unfold rewardOf
      split
      · exact List.nodup_singleton _
      · exact List.nodup_nil
    · rintro r hr ⟨p, h⟩ hr' rfl
      obtain ⟨-, rfl, rfl⟩ := mem_rewardOf.mp hr'
      exact hnew hr
  · rw [hblocks, BlockRepository.mem_updateBlockAsync] at hb
    rcases hb with ⟨hb, hne⟩ | ⟨r, hr', hrh, rfl⟩
    · -- a row of another height
      rcases List.mem_append.mp hr with hr | hr
      · exact hI.settled p h hr b hb hp hh
      · obtain ⟨-, -, rfl⟩ := mem_rewardOf.mp hr
        exact absurd hh hne
    · -- an updated row has the status of the block
      rw [BlockRepository.updated_poolId] at hp
      rw [BlockRepository.updated_blockHeight] at hh
      rw [BlockRepository.updated_status]
      intro hpending
      dsimp only at hpending hh
      subst hp hh
      rcases List.mem_append.mp hr with hr | hr
      · have hpool : r.poolId = pool.id := hG hpending _ hr rfl
        rw [hpool] at hr
        exact hnew hr
      · have hst := (mem_rewardOf.mp hr).1
        rw [hpending] at hst
        exact absurd hst (by simp)
  · obtain ⟨rfl, rfl⟩ := Prod.mk.inj (Option.some.inj h)
    refine ⟨hnd, fun b hb hr => ?_⟩
    rcases List.mem_append.mp hr with hr | hr
    · exact hfresh b (List.mem_cons_of_mem block hb) hr
    · obtain ⟨-, -, hbh⟩ := mem_rewardOf.mp hr
      exact hnot (hbh ▸ List.mem_map_of_mem hb)

/-- **The step lemma.** -/
theorem inv_step {s s' : State} {e : Event} (hI : Inv s) (hG : Guard s e)
    (h : step s e = some s') : Inv s' := by
  cases e with
  | persistShares shares =>
    obtain rfl := Option.some.inj h
    exact hI.persistShares hG
  | startRound pool pendingBlocks answers =>
    rw [step] at h
    split at h
    · rename_i hsel
      split at h
      · obtain rfl := Option.some.inj h
        exact hI
      · rename_i updatedBlocks hcl
        obtain rfl := Option.some.inj h
        exact hI.startRound hsel.2 hcl
    · exact absurd h (by simp)
  | blockTransaction outcome =>
    rw [step] at h
    split at h
    · exact absurd h (by simp)
    · obtain rfl := Option.some.inj h
      exact hI.endRound
    · rename_i pool block blocks hround
      split at h
      · obtain rfl := Option.some.inj h
        exact hI.endRound
      · obtain rfl := Option.some.inj h
        exact hI.endRound
      · rename_i db hdb
        obtain rfl := Option.some.inj h
        exact (hI.blockTransaction hround hG hdb).endRound
      · rename_i db hdb
        obtain rfl := Option.some.inj h
        exact hI.blockTransaction hround hG hdb

/-- **A chain block is rewarded at most once** along every guarded run. -/
theorem rewarded_nodup {es : List Event} {s : State} (hG : Along step Guard State.init es)
    (h : run step State.init es = some s) : s.rewarded.Nodup :=
  (run_invariant (fun _ _ _ hI hG hs => inv_step hI hG hs) inv_init hG h).nodup

/-- A block candidate of the sample pool at height 10. -/
def sampleCandidate (created : DateTime) : Mining.Share ℚ where
  poolId := "aion1"
  miner := "a"
  worker := none
  ipAddress := none
  userAgent := none
  source := none
  difficulty := 1
  blockHeight := 10
  blockReward := 0
  blockHash := none
  isBlockCandidate := true
  transactionConfirmationData := "0x0"
  networkDifficulty := 4
  created := created

/-- The pending row the candidate becomes. -/
def samplePending (created : DateTime) : Block :=
  BlockRepository.row (sampleCandidate created).toModelBlock

/-- The chain block at height 10 is ours, and the chain has grown to height 20. -/
def grownAnswers : Answers where
  latest _ := [⟨some ⟨some 20, none, 0, []⟩, none⟩]
  blocks _ _ := .ok [⟨some ⟨some 10, some "0xa0pool", 0, []⟩, none⟩]
  receipts _ _ := .ok []

/-- A candidate is persisted and its block paid. -/
def payOnce : List Event :=
  [.persistShares [sampleCandidate 30], .startRound samplePool [samplePending 30] grownAnswers,
    .blockTransaction .committed, .blockTransaction .committed]

theorem rewarded_nodup_payOnce : ∃ s, run step State.init payOnce = some s ∧
    s.rewarded = [("aion1", 10)] ∧ s.rewarded.Nodup := by
  have hrun : (run step State.init payOnce).map State.rewarded = some [("aion1", 10)] := by
    decide +kernel
  obtain ⟨s, hs, hr⟩ := Option.map_eq_some_iff.mp hrun
  have hG : Along step Guard State.init payOnce := by decide +kernel
  exact ⟨s, hs, hr, rewarded_nodup hG hs⟩

/-- **A late candidate of a paid height is paid again.** -/
theorem late_candidate_rewarded_again : ∃ s,
    run step State.init (payOnce ++ [.persistShares [sampleCandidate 31],
      .startRound samplePool [samplePending 31] grownAnswers, .blockTransaction .committed]) =
        some s ∧
      s.rewarded = [("aion1", 10), ("aion1", 10)] ∧ ¬ s.rewarded.Nodup := by
  have hrun : (run step State.init (payOnce ++ [.persistShares [sampleCandidate 31],
      .startRound samplePool [samplePending 31] grownAnswers, .blockTransaction .committed])).map
        State.rewarded = some [("aion1", 10), ("aion1", 10)] := by
    decide +kernel
  obtain ⟨s, hs, hr⟩ := Option.map_eq_some_iff.mp hrun
  exact ⟨s, hs, hr, by rw [hr]; decide⟩

end AionPool.Payments.RewardOnce
