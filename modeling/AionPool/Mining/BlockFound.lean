import AionPool.Lib.Effects
import AionPool.Mining.ShareRecorder
import Mathlib.Algebra.Order.BigOperators.Group.List

/-!
# Block-found notifications

`PersistSharesCoreAsync` sends a `BlockFoundNotification` for each block it inserts, from inside the
transaction: the rows of an attempt that fails are rolled back, its messages are sent.

* `Failure`: how an attempt on a batch can fail. A batch ends with an attempt that commits, or with
  the recovery file.
* `persistSharesCore`: one attempt; **`places_persistSharesCore`**: what it stores and sends.
* **`matches_iff`**: each share has as many messages as rows, and one at most, exactly if no attempt
  that was rolled back had inserted a block and the batch was not committed twice.

Models `ShareRecorder.cs:107-128` with `MessageBusExtensions.cs:12-29`, attempt after attempt.
-/

namespace AionPool.Mining.BlockFound

open AionPool.Persistence AionPool.Lib.Effects

/-! ## Notifications -/

/-- What is read of a `CoinTemplate`. -/
structure CoinTemplate where
  symbol : String
  explorerAccountLink : Option String

/-- `BlockFoundNotification`. -/
structure BlockFoundNotification where
  poolId : String
  blockHeight : UInt64
  symbol : String
  miner : Option String
  minerExplorerLink : Option String
  source : Option String
  deriving DecidableEq

/-- The templates of the pools, and `string.Format`. -/
structure Pools where
  template : String → CoinTemplate
  format : String → Option String → String

/-- `NotifyBlockFound`. -/
def blockFound (pools : Pools) (poolId : String) (block : Block) : BlockFoundNotification where
  poolId := poolId
  blockHeight := block.blockHeight
  symbol := (pools.template poolId).symbol
  miner := block.miner
  minerExplorerLink :=
    ((pools.template poolId).explorerAccountLink.filter fun link => link ≠ "").map fun link =>
      pools.format link block.miner
  source := block.source

/-! ## Attempts on a batch -/

/-- A share of a batch that found a block, and its place in the batch. -/
abbrev Candidate := Share ℚ × ℕ

def candidates (shares : List (Share ℚ)) : List Candidate :=
  shares.zipIdx.filter fun c => c.1.isBlockCandidate

/-- How an attempt fails: an insert throws, or the commit does. A commit whose acknowledgement is
lost has committed. -/
inductive Failure (shares : List (Share ℚ)) where
  | batchInsert
  | blockInsert (n : Fin (candidates shares).length)
  | commit
  | ackLost

/-- The recorder while it works on a batch: what is stored, and the messages it has sent. -/
structure State where
  database : Database
  /-- The block rows of the batch, by the places of their shares. -/
  rows : List (ℕ × Block)
  messages : List (ℕ × BlockFoundNotification)
  /-- The shares that were appended to the recovery file. -/
  recovered : List (Share ℚ)

/-- What an attempt throws. -/
inductive Fault where
  | db

abbrev Recorder := EStateM Fault State Unit

variable (pools : Pools)

/-- `blockRepo.InsertAsync` and `NotifyBlockFound`. -/
def insertBlock (c : Candidate) (s : State) : State :=
  { s with
    database := BlockRepository.insertAsync s.database c.1.toModelBlock
    rows := s.rows ++ [(c.2, c.1.toModelBlock)]
    messages := s.messages ++ [(c.2, blockFound pools c.1.poolId c.1.toModelBlock)] }

/-- The loop over the shares; the insert of the block with number `fails` throws. -/
def insertBlocks (fails : Option ℕ) : ℕ → List Candidate → Recorder
  | _, [] => pure ()
  | n, c :: cs =>
    if c.1.isBlockCandidate then
      if fails = some n then throw .db
      else do
        modify (insertBlock pools c)
        insertBlocks fails (n + 1) cs
    else insertBlocks fails n cs

/-- `RunTx`: what the action has stored is rolled back when it throws, or when the commit does. -/
def runTx (outcome : TxOutcome) (action : Recorder) : Recorder := fun before =>
  match action before with
  | .error e s => .error e { s with database := before.database, rows := before.rows }
  | .ok _ s =>
    match outcome with
    | .committed => .ok () s
    | .ackLost => .error .db s
    | .rolledBack => .error .db { s with database := before.database, rows := before.rows }

variable {shares : List (Share ℚ)}

/-- The end of the transaction of an attempt. -/
def outcome : Option (Failure shares) → TxOutcome
  | some .commit => .rolledBack
  | some .ackLost => .ackLost
  | _ => .committed

/-- The insert that throws. -/
def failingInsert : Option (Failure shares) → Option ℕ
  | some (.blockInsert n) => some n
  | _ => none

/-- The batch is inserted. -/
def insertShares (failure : Option (Failure shares)) : Recorder :=
  match failure with
  | some .batchInsert => throw .db
  | _ => modify fun s => { s with
      database := ShareRepository.batchInsertAsync s.database (shares.map Share.toModelShare) }

/-- The action of the transaction. -/
def inserts (failure : Option (Failure shares)) : Recorder := do
  insertShares failure
  insertBlocks pools (failingInsert failure) 0 shares.zipIdx

/-- `PersistSharesCoreAsync`, of an attempt that fails so, or does not. -/
def persistSharesCore (failure : Option (Failure shares)) : Recorder :=
  runTx (outcome failure) (inserts pools failure)

/-- How the attempts on a batch end: with one that commits, or with the recovery file. -/
inductive Ending where
  | success
  | fallback

/-- A batch: attempts that fail, and how it ends. -/
def recordBatch (failures : List (Failure shares)) (ending : Ending) (s : State) : State :=
  let s := failures.foldl (fun s failure => after (persistSharesCore pools (some failure)) s) s
  match ending with
  | .success => after (persistSharesCore pools (none : Option (Failure shares))) s
  | .fallback => { s with recovered := s.recovered ++ shares }

/-! ## One attempt -/

/-- The blocks of `cs` are inserted and notified. -/
def insertAll (cs : List Candidate) (s : State) : State :=
  cs.foldl (fun s c => insertBlock pools c s) s

theorem places_insertAll (cs : List Candidate) (s : State) :
    (insertAll pools cs s).rows.map Prod.fst = s.rows.map Prod.fst ++ cs.map Prod.snd ∧
      (insertAll pools cs s).messages.map Prod.fst =
        s.messages.map Prod.fst ++ cs.map Prod.snd := by
  unfold insertAll
  induction cs generalizing s with
  | nil => simp
  | cons c cs ih =>
    obtain ⟨hrows, hmessages⟩ := ih (insertBlock pools c s)
    rw [List.foldl_cons, hrows, hmessages]
    simp [insertBlock]

/-- The loop inserts the candidates, those before the insert that throws. -/
theorem run_insertBlocks (fails : Option ℕ) (n : ℕ) (cs : List Candidate) (s : State) :
    (insertBlocks pools fails n cs).run s =
      match fails with
      | none => .ok () (insertAll pools (cs.filter fun c => c.1.isBlockCandidate) s)
      | some m =>
        if n ≤ m ∧ m < n + (cs.filter fun c => c.1.isBlockCandidate).length then
          .error .db (insertAll pools ((cs.filter fun c => c.1.isBlockCandidate).take (m - n)) s)
        else .ok () (insertAll pools (cs.filter fun c => c.1.isBlockCandidate) s) := by
  induction cs generalizing n s with
  | nil =>
    cases fails with
    | none => rfl
    | some m =>
      have hout : ¬ (n ≤ m ∧ m < n +
          (([] : List Candidate).filter fun c => c.1.isBlockCandidate).length) := by
        rw [List.filter_nil, List.length_nil]
        omega
      dsimp only
      rw [if_neg hout]
      rfl
  | cons c cs ih =>
    rw [insertBlocks]
    cases hc : c.1.isBlockCandidate with
    | false =>
      rw [if_neg (by simp), ih, List.filter_cons_of_neg (by simp [hc])]
    | true =>
      rw [if_pos rfl, List.filter_cons_of_pos (by simp [hc])]
      by_cases hfails : fails = some n
      · subst hfails
        rw [if_pos rfl]
        dsimp only
        rw [if_pos (by simp), Nat.sub_self, List.take_zero]
        rfl
      · rw [if_neg hfails, EStateM.run_bind, EStateM.run_modify]
        dsimp only
        rw [ih]
        cases fails with
        | none => rfl
        | some m =>
          have hne : m ≠ n := fun h => hfails (congrArg some h)
          dsimp only
          by_cases hin : n + 1 ≤ m ∧ m < n + 1 + (cs.filter fun c => c.1.isBlockCandidate).length
          · have hsub : m - n = (m - (n + 1)) + 1 := by omega
            rw [if_pos hin, if_pos (by rw [List.length_cons]; omega), hsub, List.take_succ_cons]
            rfl
          · rw [if_neg hin, if_neg (by rw [List.length_cons]; omega)]
            rfl

/-- The places of the candidates of a batch. -/
def places (shares : List (Share ℚ)) : List ℕ := (candidates shares).map Prod.snd

/-- The places of the shares that an attempt sends a message for. -/
def sent : Option (Failure shares) → List ℕ
  | some .batchInsert => []
  | some (.blockInsert n) => (places shares).take n
  | none | some .commit | some .ackLost => places shares

/-- The places of the shares that an attempt stores a block for. -/
def stored : Option (Failure shares) → List ℕ
  | none | some .ackLost => places shares
  | some .batchInsert | some (.blockInsert _) | some .commit => []

/-- A transaction whose action throws keeps what it stored before, and sends what it has sent. -/
theorem after_runTx_error {outcome : TxOutcome} {action : Recorder} {s t : State} {e : Fault}
    (h : action.run s = .error e t) :
    after (runTx outcome action) s = { t with database := s.database, rows := s.rows } := by
  have hrun : (runTx outcome action).run s =
      .error e { t with database := s.database, rows := s.rows } := by
    change (match action.run s with | .error e s' => _ | .ok _ s' => _) = _
    rw [h]
  exact after_error hrun

theorem after_runTx_ok {outcome : TxOutcome} {action : Recorder} {s t : State}
    (h : action.run s = .ok () t) :
    after (runTx outcome action) s =
      match outcome with
      | .rolledBack => { t with database := s.database, rows := s.rows }
      | _ => t := by
  have hrun : (runTx outcome action).run s =
      match outcome with
      | .committed => .ok () t
      | .ackLost => .error .db t
      | .rolledBack => .error .db { t with database := s.database, rows := s.rows } := by
    change (match action.run s with | .error e s' => _ | .ok _ s' => _) = _
    rw [h]
  cases outcome with
  | committed => exact after_ok hrun
  | ackLost => exact after_error hrun
  | rolledBack => exact after_error hrun

/-- The batch as it is inserted. -/
def insertedShares (shares : List (Share ℚ)) (s : State) : State :=
  { s with
    database := ShareRepository.batchInsertAsync s.database (shares.map Share.toModelShare) }

/-- An attempt whose inserts succeed. -/
theorem run_inserts {failure : Option (Failure shares)} (h : failure ≠ some .batchInsert)
    (hfails : failingInsert failure = none) (s : State) :
    (inserts pools failure).run s =
      .ok () (insertAll pools (candidates shares) (insertedShares shares s)) := by
  have hshares : (insertShares failure).run s = .ok () (insertedShares shares s) := by
    unfold insertShares
    split
    · exact absurd rfl h
    · rfl
  unfold inserts
  rw [run_bind_ok hshares, hfails, run_insertBlocks]
  rfl

/-- An attempt that fails at a block has inserted those before it. -/
theorem run_inserts_blockInsert (n : Fin (candidates shares).length) (s : State) :
    (inserts pools (some (.blockInsert n) : Option (Failure shares))).run s =
      .error .db (insertAll pools ((candidates shares).take n) (insertedShares shares s)) := by
  have hshares : (insertShares (some (.blockInsert n) : Option (Failure shares))).run s =
      .ok () (insertedShares shares s) := rfl
  have hin : 0 ≤ (n : ℕ) ∧
      (n : ℕ) < 0 + (shares.zipIdx.filter fun c => c.1.isBlockCandidate).length :=
    ⟨Nat.zero_le _, by rw [Nat.zero_add]; exact n.isLt⟩
  unfold inserts failingInsert
  rw [run_bind_ok hshares, run_insertBlocks]
  dsimp only
  rw [if_pos hin]
  rfl

/-- **What an attempt leaves**: the rows of one that commits, and the messages of every one. -/
theorem places_persistSharesCore (failure : Option (Failure shares)) (s : State) :
    (after (persistSharesCore pools failure) s).rows.map Prod.fst =
        s.rows.map Prod.fst ++ stored failure ∧
      (after (persistSharesCore pools failure) s).messages.map Prod.fst =
        s.messages.map Prod.fst ++ sent failure := by
  have hall := places_insertAll pools (candidates shares) (insertedShares shares s)
  unfold persistSharesCore
  cases failure with
  | none =>
    have hnone : (none : Option (Failure shares)) ≠ some .batchInsert := nofun
    rw [after_runTx_ok (run_inserts pools hnone rfl s)]
    exact hall
  | some failure =>
    cases failure with
    | batchInsert =>
      have hrun : (inserts pools (some .batchInsert : Option (Failure shares))).run s =
          .error .db s := rfl
      rw [after_runTx_error hrun]
      simp [stored, sent]
    | blockInsert n =>
      have hmessages := (places_insertAll pools ((candidates shares).take n)
        (insertedShares shares s)).2
      rw [after_runTx_error (run_inserts_blockInsert pools n s)]
      refine ⟨by simp [stored], hmessages.trans ?_⟩
      rw [sent, places, List.map_take]
      rfl
    | commit =>
      have hcommit : (some .commit : Option (Failure shares)) ≠ some .batchInsert := nofun
      rw [after_runTx_ok (run_inserts pools hcommit rfl s)]
      exact ⟨by simp [outcome, stored], hall.2⟩
    | ackLost =>
      have hlost : (some .ackLost : Option (Failure shares)) ≠ some .batchInsert := nofun
      rw [after_runTx_ok (run_inserts pools hlost rfl s)]
      exact hall

/-! ## A batch -/

/-- An attempt that is rolled back before it has inserted a block, or is not rolled back. -/
def Failure.Quiet : Failure shares → Prop
  | .batchInsert | .ackLost => True
  | .blockInsert n => (n : ℕ) = 0
  | .commit => candidates shares = []

/-- A quiet attempt sends a message for each block it stores, and for no other. -/
theorem sent_eq_stored {failure : Failure shares} (h : failure.Quiet) :
    sent (some failure) = stored (some failure) := by
  cases failure with
  | batchInsert => rfl
  | ackLost => rfl
  | blockInsert n =>
    have hn : (n : ℕ) = 0 := h
    rw [sent, hn, List.take_zero]
    rfl
  | commit =>
    have hnil : candidates shares = [] := h
    rw [sent, places, hnil]
    rfl

/-- One that is not sends a message for the first candidate, and stores nothing. -/
theorem first_sent {failure : Failure shares} (h : ¬ failure.Quiet) :
    ∃ first rest, places shares = first :: rest ∧ first ∈ sent (some failure) ∧
      stored (some failure) = [] := by
  have hplaces : candidates shares ≠ [] → ∃ first rest, places shares = first :: rest := fun hne =>
    List.exists_cons_of_ne_nil (mt List.map_eq_nil_iff.mp hne)
  cases failure with
  | batchInsert => exact absurd trivial h
  | ackLost => exact absurd trivial h
  | commit =>
    obtain ⟨first, rest, hfirst⟩ := hplaces h
    exact ⟨first, rest, hfirst, by rw [sent, hfirst]; exact List.mem_cons_self, rfl⟩
  | blockInsert n =>
    have hn : (n : ℕ) ≠ 0 := h
    have hpos : 0 < (candidates shares).length := Nat.zero_lt_of_lt n.isLt
    obtain ⟨first, rest, hfirst⟩ := hplaces (List.ne_nil_of_length_pos hpos)
    obtain ⟨k, hk⟩ := Nat.exists_eq_succ_of_ne_zero hn
    refine ⟨first, rest, hfirst, ?_, rfl⟩
    rw [sent, hfirst, hk, List.take_succ_cons]
    exact List.mem_cons_self

/-- Every block that an attempt stores it has sent a message for. -/
theorem count_stored_le (failure : Failure shares) (i : ℕ) :
    (stored (some failure)).count i ≤ (sent (some failure)).count i := by
  by_cases h : failure.Quiet
  · rw [sent_eq_stored h]
  · obtain ⟨_, _, _, _, hstored⟩ := first_sent h
    rw [hstored]
    exact Nat.zero_le _

/-- The failed attempts on a batch, one after the other. -/
theorem places_failures (failures : List (Failure shares)) (s : State) :
    let s' := failures.foldl (fun s failure => after (persistSharesCore pools (some failure)) s) s
    s'.rows.map Prod.fst =
        s.rows.map Prod.fst ++ failures.flatMap (fun failure => stored (some failure)) ∧
      s'.messages.map Prod.fst =
        s.messages.map Prod.fst ++ failures.flatMap fun failure => sent (some failure) := by
  induction failures generalizing s with
  | nil => simp
  | cons failure failures ih =>
    obtain ⟨hrows, hmessages⟩ := places_persistSharesCore pools (some failure) s
    have ih := ih (after (persistSharesCore pools (some failure)) s)
    dsimp only at ih ⊢
    rw [List.foldl_cons, ih.1, ih.2, hrows, hmessages, List.flatMap_cons, List.flatMap_cons,
      List.append_assoc, List.append_assoc]
    exact ⟨rfl, rfl⟩

/-- What the end of a batch stores and sends. -/
def ended (shares : List (Share ℚ)) : Ending → List ℕ
  | .success => places shares
  | .fallback => []

theorem places_recordBatch (failures : List (Failure shares)) (ending : Ending) (s : State) :
    (recordBatch pools failures ending s).rows.map Prod.fst = s.rows.map Prod.fst ++
        failures.flatMap (fun failure => stored (some failure)) ++ ended shares ending ∧
      (recordBatch pools failures ending s).messages.map Prod.fst = s.messages.map Prod.fst ++
        failures.flatMap (fun failure => sent (some failure)) ++ ended shares ending := by
  obtain ⟨hrows, hmessages⟩ := places_failures pools failures s
  unfold recordBatch
  cases ending with
  | success =>
    obtain ⟨hrows', hmessages'⟩ := places_persistSharesCore pools (none : Option (Failure shares))
      (failures.foldl (fun s failure => after (persistSharesCore pools (some failure)) s) s)
    exact ⟨hrows'.trans (by rw [hrows]; rfl), hmessages'.trans (by rw [hmessages]; rfl)⟩
  | fallback =>
    exact ⟨hrows.trans (List.append_nil _).symm, hmessages.trans (List.append_nil _).symm⟩

/-- Messages and rows of the batch agree, share by share. -/
def Agrees (s : State) : Prop :=
  ∀ place, (s.messages.map Prod.fst).count place = (s.rows.map Prod.fst).count place

/-- The messages of each share are as many as its rows exactly if every attempt was quiet, for any
batch, any attempts that fail and either end. -/
theorem agrees_iff_quiet (database : Database) (recovered : List (Share ℚ))
    (failures : List (Failure shares)) (ending : Ending) :
    Agrees (recordBatch pools failures ending ⟨database, [], [], recovered⟩) ↔
      ∀ failure ∈ failures, failure.Quiet := by
  obtain ⟨hrows, hmessages⟩ :=
    places_recordBatch pools failures ending ⟨database, [], [], recovered⟩
  unfold Agrees
  rw [hrows, hmessages]
  constructor
  · intro h
    by_contra hloud
    obtain ⟨failure, hmem, hfailure⟩ := not_forall₂.mp hloud
    obtain ⟨first, _, _, hsent, hstored⟩ := first_sent hfailure
    have hlt : ((failures.flatMap fun failure => stored (some failure)).count first) <
        (failures.flatMap fun failure => sent (some failure)).count first := by
      rw [List.count_flatMap, List.count_flatMap]
      refine List.sum_lt_sum _ _ (fun f _ => count_stored_le f first) ⟨failure, hmem, ?_⟩
      dsimp only [Function.comp]
      rw [hstored]
      exact List.count_pos_iff.mpr hsent
    have hcount := h first
    simp only [List.map_nil, List.nil_append, List.count_append] at hcount
    omega
  · intro h place
    have hflat : (failures.flatMap fun failure => sent (some failure)) =
        failures.flatMap fun failure => stored (some failure) :=
      List.flatMap_congr fun failure hmem => sent_eq_stored (h failure hmem)
    rw [hflat]
    rfl

/-- An attempt that throws and has committed. -/
def Failure.commits : Failure shares → Bool
  | .ackLost => true
  | .batchInsert | .blockInsert _ | .commit => false

/-- How often a batch is committed. -/
def commits (failures : List (Failure shares)) : Ending → ℕ
  | .success => failures.countP Failure.commits + 1
  | .fallback => failures.countP Failure.commits

theorem count_stored (failure : Failure shares) (place : ℕ) :
    (stored (some failure)).count place =
      if failure.commits then (places shares).count place else 0 := by
  cases failure <;> rfl

theorem count_flatMap_stored (failures : List (Failure shares)) (place : ℕ) :
    (failures.flatMap fun failure => stored (some failure)).count place =
      failures.countP Failure.commits * (places shares).count place := by
  induction failures with
  | nil => simp
  | cons failure failures ih =>
    rw [List.flatMap_cons, List.count_append, ih, count_stored, List.countP_cons]
    split
    · rw [Nat.add_mul, Nat.one_mul, Nat.add_comm]
    · rw [Nat.zero_add, Nat.add_zero]

/-- The rows of a share: one for each time the batch is committed. -/
theorem count_rows (database : Database) (recovered : List (Share ℚ))
    (failures : List (Failure shares)) (ending : Ending) (place : ℕ) :
    ((recordBatch pools failures ending ⟨database, [], [], recovered⟩).rows.map
        Prod.fst).count place = commits failures ending * (places shares).count place := by
  rw [(places_recordBatch pools failures ending ⟨database, [], [], recovered⟩).1, List.map_nil,
    List.nil_append, List.count_append, count_flatMap_stored]
  cases ending with
  | success => exact (Nat.succ_mul _ _).symm
  | fallback => rfl

theorem nodup_places (shares : List (Share ℚ)) : (places shares).Nodup := by
  have hsub : ((candidates shares).map Prod.snd).Sublist (shares.zipIdx.map Prod.snd) :=
    List.filter_sublist.map Prod.snd
  rw [List.zipIdx_map_snd] at hsub
  exact List.Nodup.sublist hsub List.nodup_range'

/-- Messages match the rows, share by share: none for a batch that was never committed, one for each
candidate of a batch that was. -/
def Matches (failures : List (Failure shares)) (ending : Ending) (s : State) : Prop :=
  Agrees s ∧ ∀ place, (s.messages.map Prod.fst).count place =
    if 0 < commits failures ending ∧ place ∈ places shares then 1 else 0

/-- **The messages match the rows exactly if every attempt was quiet** and the batch was committed
once at most, or had no candidates. -/
theorem matches_iff (database : Database) (recovered : List (Share ℚ))
    (failures : List (Failure shares)) (ending : Ending) :
    Matches failures ending (recordBatch pools failures ending ⟨database, [], [], recovered⟩) ↔
      (∀ failure ∈ failures, failure.Quiet) ∧
        (candidates shares = [] ∨ commits failures ending ≤ 1) := by
  have hcount := count_rows pools database recovered failures ending
  unfold Matches
  constructor
  · rintro ⟨hagrees, hone⟩
    refine ⟨(agrees_iff_quiet pools database recovered failures ending).mp hagrees, ?_⟩
    by_cases hnil : candidates shares = []
    · exact .inl hnil
    · obtain ⟨first, rest, hfirst⟩ := List.exists_cons_of_ne_nil (mt List.map_eq_nil_iff.mp hnil)
      have hmem : first ∈ places shares := by
        rw [places, hfirst]
        exact List.mem_cons_self
      have hrows := (hagrees first).symm.trans (hone first)
      rw [hcount, List.count_eq_one_of_mem (nodup_places shares) hmem, Nat.mul_one] at hrows
      refine .inr ?_
      split at hrows <;> omega
  · rintro ⟨hquiet, honce⟩
    have hagrees := (agrees_iff_quiet pools database recovered failures ending).mpr hquiet
    refine ⟨hagrees, fun place => ?_⟩
    rw [hagrees place, hcount]
    by_cases hmem : place ∈ places shares
    · have hle : commits failures ending ≤ 1 := honce.resolve_left fun hnil => by
        rw [places, hnil] at hmem
        exact nomatch hmem
      rw [List.count_eq_one_of_mem (nodup_places shares) hmem, Nat.mul_one]
      split
      · omega
      · rename_i h
        have : ¬ 0 < commits failures ending := fun hpos => h ⟨hpos, hmem⟩
        omega
    · rw [List.count_eq_zero_of_not_mem hmem, Nat.mul_zero, if_neg fun h => hmem h.2]

def sampleCandidate : Share ℚ where
  poolId := "aion1"
  miner := "0xa0"
  worker := none
  ipAddress := none
  userAgent := none
  source := none
  difficulty := 1
  blockHeight := 10
  blockReward := 1
  blockHash := some "0xb10c"
  isBlockCandidate := true
  transactionConfirmationData := "0xb10c"
  networkDifficulty := 100
  created := 40

def samplePools : Pools where
  template _ := ⟨"AION", none⟩
  format link _ := link

/-- One candidate, a commit that is rolled back, and the recovery file: a message, and no row. -/
theorem message_without_row :
    let failures : List (Failure [sampleCandidate]) := [.commit]
    ¬ Matches failures .fallback
      (recordBatch samplePools failures .fallback ⟨Database.empty, [], [], []⟩) := by
  intro failures h
  have hmessages := h.2 0
  revert hmessages
  decide +kernel

/-- The block rows of an attempt, in the database. -/
theorem database_insertAll (cs : List Candidate) (s : State) :
    (insertAll pools cs s).database = cs.foldl
      (fun db c => BlockRepository.insertAsync db c.1.toModelBlock) s.database := by
  unfold insertAll
  induction cs generalizing s with
  | nil => rfl
  | cons c cs ih => exact ih (insertBlock pools c s)

/-- **An attempt that succeeds** stores what the recorder's model of it stores. -/
theorem database_persistSharesCore (s : State) :
    (after (persistSharesCore pools (none : Option (Failure shares))) s).database =
      persistSharesCoreAsync s.database shares := by
  have hnone : (none : Option (Failure shares)) ≠ some .batchInsert := nofun
  have hcandidates : (candidates shares).map Prod.fst =
      shares.filter fun s => s.isBlockCandidate := by
    have h := List.filter_map (f := Prod.fst) (p := fun s : Share ℚ => s.isBlockCandidate)
      (l := shares.zipIdx)
    rw [List.zipIdx_map_fst] at h
    exact h.symm
  unfold persistSharesCore
  rw [after_runTx_ok (run_inserts pools hnone rfl s)]
  dsimp only [outcome]
  rw [database_insertAll]
  unfold persistSharesCoreAsync
  rw [← hcandidates, List.foldl_map]
  rfl

end AionPool.Mining.BlockFound
