import AionPool.Lib.Run
import AionPool.Lib.FixedPoint

/-!
# The miner info recorder

A `MinerInfo` message replaces the minimum payment of a miner: the row is deleted in one transaction
and inserted again in another one. The queue hands a batch of messages to a task and does not wait
for it, so the tasks of several batches, and the payouts that read the table, come in between.

* `Task.next`: the next transaction of a batch.
* `Inv`: the rows of a miner are those of the last message that is finished, but for a replacement
  that is half done.
* **`replaced_of_run`**: a minimum payment is replaced atomically and in order when a row is deleted
  only behind the messages of earlier batches, and no payout reads in the middle of a replacement.

Models `MinerInfoRecorder.cs:89-99` and `:134-182`, and `MinerInfoRepository.cs:44-73`.
-/

namespace AionPool.Mining.MinerInfoRecorder

open AionPool.Lib.Run AionPool.Lib.FixedPoint

/-! ## The table -/

/-- A miner of a pool. -/
structure Miner where
  poolId : String
  miner : String
  deriving DecidableEq

/-- `Blockchain.MinerInfo`. -/
structure MinerInfo where
  poolId : String
  miner : Option String
  minimumPayment : ℚ
  deriving DecidableEq

/-- A row of `miner_info`. -/
structure Row where
  poolId : String
  miner : String
  minimumPayment : ℚ
  deriving DecidableEq

/-- The message is about the miner. -/
def MinerInfo.isFor (k : Miner) (m : MinerInfo) : Bool :=
  m.poolId = k.poolId ∧ m.miner = some k.miner

/-- The row is that of the miner. -/
def Row.isFor (k : Miner) (r : Row) : Bool := r.poolId = k.poolId ∧ r.miner = k.miner

/-- `AddMinerInfo`, into columns `not null` and `decimal(28, 12)`. -/
def addMinerInfo (table : List Row) (m : MinerInfo) : Option (List Row) :=
  match m.miner with
  | none => none
  | some miner =>
    let minimumPayment := (Fixed.store 12 m.minimumPayment).value
    if |minimumPayment| < 10 ^ 16 then some (table ++ [⟨m.poolId, miner, minimumPayment⟩])
    else none

/-- `DeleteMinerInfo`. -/
def deleteMinerInfo (table : List Row) (m : MinerInfo) : List Row :=
  table.filter fun r => ¬ (r.poolId = m.poolId ∧ m.miner = some r.miner)

/-- `GetMinerInfo`; of several rows any may be the first one. -/
def getMinerInfo (table : List Row) (k : Miner) : Option Row := table.find? (Row.isFor k)

/-! ## Batches -/

/-- Where `AddOrUpdateMinerInfo` is. -/
inductive Stage where
  | start
  | delete
  | insert
  deriving DecidableEq

/-- The task of a batch: the messages that are not finished, of which the first one is being
processed. -/
structure Task where
  remaining : List MinerInfo
  stage : Stage
  deriving DecidableEq

/-- The next transaction of a batch: what it leaves of the table and of the task, and the message it
finishes. The row that is read at the start is not used; an exception ends the batch. -/
def Task.next (table : List Row) : Task → Option (List Row × Task × List MinerInfo)
  | ⟨[], _⟩ => none
  | ⟨m :: rest, .start⟩ =>
    if m.minimumPayment = 0 then some (deleteMinerInfo table m, ⟨rest, .start⟩, [m])
    else some (table, ⟨m :: rest, .delete⟩, [])
  | ⟨m :: rest, .delete⟩ => some (deleteMinerInfo table m, ⟨m :: rest, .insert⟩, [])
  | ⟨m :: rest, .insert⟩ =>
    match addMinerInfo table m with
    | some table => some (table, ⟨rest, .start⟩, [m])
    | none => some (table, ⟨[], .start⟩, [])

/-- The table, the tasks in the order of their batches, and the messages by now. -/
structure State where
  table : List Row
  tasks : List Task
  /-- What the tasks were given. -/
  received : List MinerInfo
  /-- What was processed to its end. -/
  finished : List MinerInfo
  deriving DecidableEq

def State.init (table : List Row) : State := ⟨table, [], [], []⟩

inductive Event where
  /-- `PersistMinerInfosFaulTolerant`. -/
  | batch (minerInfos : List MinerInfo)
  | task (i : ℕ)
  /-- A payout reads the minimum payment of a miner. -/
  | payout (k : Miner)

def step (s : State) : Event → Option State
  | .batch minerInfos => some { s with
      tasks := s.tasks ++ [⟨minerInfos, .start⟩]
      received := s.received ++ minerInfos }
  | .task i => do
    let task ← s.tasks[i]?
    let (table, task, finished) ← task.next s.table
    return { s with
      table := table
      tasks := s.tasks.set i task
      finished := s.finished ++ finished }
  | .payout _ => some s

/-! ## What is to hold -/

/-- The minimum payment a message leaves a miner with. -/
def MinerInfo.value (m : MinerInfo) : Option ℚ :=
  if m.minimumPayment = 0 then none else some m.minimumPayment

/-- The minimum payments of a miner in the table. -/
def payments (table : List Row) (k : Miner) : List ℚ :=
  (table.filter (Row.isFor k)).map Row.minimumPayment

/-- What a payout reads. -/
def read (table : List Row) (k : Miner) : Option ℚ :=
  (getMinerInfo table k).map Row.minimumPayment

variable (table₀ : List Row)

/-- The minimum payments the messages leave a miner with. -/
def left (k : Miner) (ms : List MinerInfo) : List ℚ :=
  match (ms.filter (MinerInfo.isFor k)).getLast? with
  | none => payments table₀ k
  | some m => m.value.toList

/-- Once all tasks have finished, a miner has the minimum payment of its last message. -/
def Settled (s : State) : Prop :=
  (∀ task ∈ s.tasks, task.remaining = []) → ∀ k, payments s.table k = left table₀ k s.received

/-- A message for the miner is being processed, and is not finished. -/
def Processing (s : State) (k : Miner) (m : MinerInfo) : Prop :=
  ∃ task ∈ s.tasks, task.remaining.head? = some m ∧ m.isFor k = true

/-- A payout reads the value of a message that was received, or the one before all of them; and
there is one when it reads in an update from one that is not zero to another. -/
def Seen (s : State) (k : Miner) : Prop :=
  (read s.table k = read table₀ k ∨
      ∃ m ∈ s.received, m.isFor k = true ∧ read s.table k = m.value) ∧
    ∀ m, Processing s k m → m.minimumPayment ≠ 0 → left table₀ k s.finished ≠ [] →
      read s.table k ≠ none

/-- The messages are about the same miner. -/
def MinerInfo.sameMiner (m m' : MinerInfo) : Bool :=
  m'.poolId = m.poolId ∧ m'.miner = m.miner ∧ m.miner ≠ none

/-- The messages of earlier batches are about other miners. -/
def Behind (tasks : List Task) (i : ℕ) (m : MinerInfo) : Prop :=
  ∀ earlier ∈ tasks.take i, ∀ m' ∈ earlier.remaining, m.sameMiner m' = false

/-- The table can keep the minimum payment of a message, for a miner that is given. -/
def Storable (m : MinerInfo) : Prop :=
  m.miner ≠ none ∧ |m.minimumPayment| < 10 ^ 16 ∧
    (Fixed.store 12 m.minimumPayment).value = m.minimumPayment

instance (m : MinerInfo) : Decidable (Storable m) := inferInstanceAs (Decidable (_ ∧ _ ∧ _))

/-- The next transaction of the task deletes the row of its message. -/
def Task.deletes (task : Task) (m : MinerInfo) : Bool :=
  task.stage = .delete ∨ (task.stage = .start ∧ m.minimumPayment = 0)

/-- The row of the miner is deleted, and not inserted again. -/
def Task.replaces (k : Miner) (task : Task) : Bool :=
  task.stage = .insert ∧ task.remaining.head?.any (MinerInfo.isFor k)

/-- A row is deleted behind the messages of earlier batches for its miner, it is inserted with a
minimum payment the table can keep, and it is not read in between. -/
def Undisturbed (s : State) : Event → Prop
  | .batch _ => True
  | .task i => ∀ task ∈ s.tasks[i]?, ∀ m ∈ task.remaining.head?,
      (task.deletes m = true → Behind s.tasks i m) ∧ (task.stage = .insert → Storable m)
  | .payout k => ∀ task ∈ s.tasks, task.replaces k = false

instance (tasks : List Task) (i : ℕ) (m : MinerInfo) : Decidable (Behind tasks i m) :=
  inferInstanceAs (Decidable (∀ earlier ∈ tasks.take i, ∀ m' ∈ earlier.remaining, _ = _))

instance (s : State) (e : Event) : Decidable (Undisturbed s e) :=
  match e with
  | .batch _ => isTrue trivial
  | .task i => inferInstanceAs (Decidable (∀ task ∈ s.tasks[i]?, ∀ m ∈ task.remaining.head?, _ ∧ _))
  | .payout k => inferInstanceAs (Decidable (∀ task ∈ s.tasks, task.replaces k = false))

/-! ## Rows of a miner -/

theorem sameMiner_of_isFor {m m' : MinerInfo} {k : Miner} (h : m.isFor k = true)
    (h' : m'.isFor k = true) : m.sameMiner m' = true := by
  obtain ⟨hpool, hminer⟩ := of_decide_eq_true h
  obtain ⟨hpool', hminer'⟩ := of_decide_eq_true h'
  refine decide_eq_true ⟨hpool'.trans hpool.symm, hminer'.trans hminer.symm, ?_⟩
  rw [hminer]
  exact Option.some_ne_none _

/-- Whose row it is. -/
theorem isFor_iff {r : Row} {m : MinerInfo} {k : Miner} (h : r.isFor k = true) :
    (r.poolId = m.poolId ∧ m.miner = some r.miner) ↔ m.isFor k = true := by
  obtain ⟨hpool, hminer⟩ := of_decide_eq_true h
  unfold MinerInfo.isFor
  rw [decide_eq_true_iff, hpool, hminer, eq_comm]

theorem payments_deleteMinerInfo (table : List Row) (m : MinerInfo) (k : Miner) :
    payments (deleteMinerInfo table m) k = if m.isFor k then [] else payments table k := by
  unfold payments deleteMinerInfo
  rw [List.filter_filter]
  by_cases hm : m.isFor k = true
  · rw [if_pos hm, List.map_eq_nil_iff, List.filter_eq_nil_iff]
    intro r _ hr
    obtain ⟨hfor, hnot⟩ := Bool.and_eq_true_iff.mp hr
    exact of_decide_eq_true hnot ((isFor_iff hfor).mpr hm)
  · rw [if_neg hm]
    refine congrArg (List.map Row.minimumPayment) (List.filter_congr fun r _ => ?_)
    cases hfor : r.isFor k with
    | false => rfl
    | true =>
      rw [Bool.true_and, decide_eq_true_iff, isFor_iff hfor]
      exact hm

theorem payments_addMinerInfo {m : MinerInfo} (h : Storable m) (table : List Row) :
    ∃ table', addMinerInfo table m = some table' ∧ ∀ k, payments table' k =
      payments table k ++ if m.isFor k then [m.minimumPayment] else [] := by
  obtain ⟨hminer, hlt, hstore⟩ := h
  obtain ⟨miner, hsome⟩ := Option.ne_none_iff_exists'.mp hminer
  refine ⟨table ++ [⟨m.poolId, miner, m.minimumPayment⟩], ?_, fun k => ?_⟩
  · unfold addMinerInfo
    rw [hsome]
    dsimp only
    rw [hstore, if_pos hlt]
  · unfold payments
    rw [List.filter_append, List.map_append]
    have hrow : Row.isFor k ⟨m.poolId, miner, m.minimumPayment⟩ = m.isFor k :=
      decide_eq_decide.mpr (and_congr_right fun _ => by rw [hsome, Option.some_inj])
    cases hfor : m.isFor k with
    | true => rw [List.filter_cons_of_pos (hrow.trans hfor)]; rfl
    | false => rw [List.filter_cons_of_neg (by rw [hrow, hfor]; simp)]; rfl

theorem left_append (k : Miner) (ms : List MinerInfo) (m : MinerInfo) :
    left table₀ k (ms ++ [m]) = if m.isFor k then m.value.toList else left table₀ k ms := by
  unfold left
  rw [List.filter_append]
  by_cases h : m.isFor k = true
  · rw [if_pos h, List.filter_cons_of_pos h, List.filter_nil, List.getLast?_concat]
  · rw [if_neg h, List.filter_cons_of_neg h, List.filter_nil, List.append_nil]

/-- The first row of a miner is what a payout reads. -/
theorem read_eq_head? (table : List Row) (k : Miner) : read table k = (payments table k).head? := by
  unfold read getMinerInfo payments
  rw [List.head?_map, List.head?_filter]

/-! ## Tasks -/

section Lists

variable {α β : Type} {l : List α} {i : ℕ} {a : α}

theorem eq_take_cons_drop (h : l[i]? = some a) : l = l.take i ++ a :: l.drop (i + 1) := by
  obtain ⟨hlt, rfl⟩ := List.getElem?_eq_some_iff.mp h
  rw [List.getElem_cons_drop, List.take_append_drop]

theorem flatMap_getElem? (h : l[i]? = some a) (f : α → List β) :
    l.flatMap f = (l.take i).flatMap f ++ (f a ++ (l.drop (i + 1)).flatMap f) := by
  nth_rewrite 1 [eq_take_cons_drop h]
  rw [List.flatMap_append, List.flatMap_cons]

theorem flatMap_set (h : l[i]? = some a) (b : α) (f : α → List β) :
    (l.set i b).flatMap f = (l.take i).flatMap f ++ (f b ++ (l.drop (i + 1)).flatMap f) := by
  obtain ⟨hlt, rfl⟩ := List.getElem?_eq_some_iff.mp h
  rw [List.set_eq_take_cons_drop b hlt, List.flatMap_append, List.flatMap_cons]

theorem mem_take_of_getElem? (h : l[i]? = some a) {j : ℕ} (hij : i < j) : a ∈ l.take j := by
  refine List.mem_of_getElem? (i := i) ?_
  rw [List.getElem?_take_of_lt hij, h]

/-- What comes before an entry, when another one is changed. -/
theorem mem_take_set (h : l[i]? = some a) {b x : α} {j : ℕ} (hx : x ∈ (l.set i b).take j) :
    x ∈ l.take j ∨ (x = b ∧ a ∈ l.take j) := by
  by_cases hij : j ≤ i
  · rw [List.take_set_of_le hij] at hx
    exact Or.inl hx
  · rw [List.take_set] at hx
    exact (List.mem_or_eq_of_mem_set hx).imp id fun heq =>
      ⟨heq, mem_take_of_getElem? h (not_le.mp hij)⟩

end Lists

/-- The messages that are not finished, in the order of their batches. -/
def State.pending (s : State) : List MinerInfo := s.tasks.flatMap Task.remaining

/-- A replacement of the miner's row is half done. -/
def Replaced (tasks : List Task) (k : Miner) : Prop := ∃ task ∈ tasks, task.replaces k = true

/-- A replacement is half done for the first message of a miner only. -/
def First (tasks : List Task) : Prop :=
  ∀ i task, tasks[i]? = some task → task.stage = .insert → ∀ m ∈ task.remaining.head?,
    Behind tasks i m

/-- What holds of the rows in an undisturbed run. -/
structure Inv (s : State) : Prop where
  /-- The messages of a miner are finished in the order they are received. -/
  order : ∀ k, s.finished.filter (MinerInfo.isFor k) ++ s.pending.filter (MinerInfo.isFor k) =
    s.received.filter (MinerInfo.isFor k)
  /-- A row is inserted for a message with a minimum payment. -/
  nonzero : ∀ task ∈ s.tasks, task.stage ≠ .start → ∀ m ∈ task.remaining.head?,
    m.minimumPayment ≠ 0
  first : First s.tasks
  replaced : ∀ k, Replaced s.tasks k → payments s.table k = []
  rows : ∀ k, ¬ Replaced s.tasks k → payments s.table k = left table₀ k s.finished

theorem inv_init : Inv table₀ (State.init table₀) where
  order _ := rfl
  nonzero _ h := absurd h List.not_mem_nil
  first _ _ h := nomatch h
  replaced _ h := by
    obtain ⟨_, hmem, _⟩ := h
    exact absurd hmem List.not_mem_nil
  rows _ _ := rfl

variable {table₀}

theorem inv_batch {s : State} (h : Inv table₀ s) (minerInfos : List MinerInfo) :
    Inv table₀ { s with
      tasks := s.tasks ++ [⟨minerInfos, .start⟩]
      received := s.received ++ minerInfos } := by
  have hreplaced : ∀ k, Replaced (s.tasks ++ [⟨minerInfos, .start⟩]) k ↔ Replaced s.tasks k := by
    intro k
    constructor
    · rintro ⟨task, hmem, hrep⟩
      rcases List.mem_append.mp hmem with hmem | hmem
      · exact ⟨task, hmem, hrep⟩
      · obtain rfl := List.mem_singleton.mp hmem
        exact absurd hrep (by simp [Task.replaces])
    · rintro ⟨task, hmem, hrep⟩
      exact ⟨task, List.mem_append_left _ hmem, hrep⟩
  refine ⟨fun k => ?_, fun task hmem hstage => ?_, fun i task hget hstage => ?_,
    fun k hk => h.replaced k ((hreplaced k).mp hk),
    fun k hk => h.rows k fun hs => hk ((hreplaced k).mpr hs)⟩
  · unfold State.pending
    dsimp only
    rw [List.flatMap_append, List.flatMap_singleton, List.filter_append, List.filter_append,
      ← List.append_assoc]
    exact congrArg (· ++ _) (h.order k)
  · rcases List.mem_append.mp hmem with hmem | hmem
    · exact h.nonzero task hmem hstage
    · obtain rfl := List.mem_singleton.mp hmem
      exact absurd rfl hstage
  · dsimp only at hget ⊢
    by_cases hlt : i < s.tasks.length
    · rw [List.getElem?_append_left hlt] at hget
      unfold Behind
      rw [List.take_append_of_le_length hlt.le]
      exact h.first i task hget hstage
    · rw [List.getElem?_append_right (not_lt.mp hlt)] at hget
      obtain rfl := List.mem_singleton.mp (List.mem_of_getElem? hget)
      exact nomatch hstage

theorem replaces_iff {k : Miner} {task : Task} : task.replaces k = true ↔
    task.stage = .insert ∧ ∃ m, task.remaining.head? = some m ∧ m.isFor k = true := by
  unfold Task.replaces
  rw [decide_eq_true_iff, Option.any_eq_true]

section Task

variable {tasks : List Task} {i : ℕ} {task task' : Task}

/-- A task goes on, with no more messages than it had. -/
theorem First.set (h : First tasks) (hget : tasks[i]? = some task)
    (hremaining : ∀ m ∈ task'.remaining, m ∈ task.remaining)
    (hself : task'.stage = .insert → ∀ m ∈ task'.remaining.head?, Behind tasks i m) :
    First (tasks.set i task') := by
  intro j t ht hstage m hm earlier hearlier m' hm'
  by_cases hij : i = j
  · subst hij
    obtain ⟨hlt, -⟩ := List.getElem?_eq_some_iff.mp hget
    rw [List.getElem?_set_self hlt] at ht
    obtain rfl := Option.some.inj ht
    rw [List.take_set_of_le le_rfl] at hearlier
    exact hself hstage m hm earlier hearlier m' hm'
  · rw [List.getElem?_set_ne hij] at ht
    rcases mem_take_set hget hearlier with hmem | ⟨rfl, hmem⟩
    · exact h j t ht hstage m hm earlier hmem m' hm'
    · exact h j t ht hstage m hm task hmem m' (hremaining m' hm')

theorem replaced_set (hget : tasks[i]? = some task) {k : Miner} (h : task.replaces k = false)
    (h' : task'.replaces k = false) : Replaced (tasks.set i task') k ↔ Replaced tasks k := by
  constructor
  · rintro ⟨t, hmem, hrep⟩
    rcases List.mem_or_eq_of_mem_set hmem with hmem | rfl
    · exact ⟨t, hmem, hrep⟩
    · exact absurd (hrep.symm.trans h') (by simp)
  · rintro ⟨t, hmem, hrep⟩
    obtain ⟨j, hj⟩ := List.mem_iff_getElem?.mp hmem
    refine ⟨t, List.mem_of_getElem? (i := j) ?_, hrep⟩
    rw [List.getElem?_set_ne, hj]
    rintro rfl
    obtain rfl := Option.some.inj (hj.symm.trans hget)
    exact absurd (hrep.symm.trans h) (by simp)

/-- A replacement of the first message of a miner is the only one. -/
theorem not_replaced_set (hfirst : First tasks) (hget : tasks[i]? = some task)
    {m : MinerInfo} {rest : List MinerInfo} (hremaining : task.remaining = m :: rest)
    (hbehind : Behind tasks i m) {k : Miner} (hm : m.isFor k = true)
    (h' : task'.replaces k = false) : ¬ Replaced (tasks.set i task') k := by
  rintro ⟨t, hmem, hrep⟩
  obtain ⟨j, hj⟩ := List.mem_iff_getElem?.mp hmem
  by_cases hij : i = j
  · subst hij
    obtain ⟨hlt, -⟩ := List.getElem?_eq_some_iff.mp hget
    rw [List.getElem?_set_self hlt] at hj
    obtain rfl := Option.some.inj hj
    exact absurd (hrep.symm.trans h') (by simp)
  rw [List.getElem?_set_ne hij] at hj
  obtain ⟨hinsert, m', hhead, hm'⟩ := replaces_iff.mp hrep
  rcases lt_or_gt_of_ne hij with hlt | hlt
  · have hnot := hfirst j t hj hinsert m' hhead task (mem_take_of_getElem? hget hlt) m
      (hremaining ▸ List.mem_cons_self)
    exact absurd ((sameMiner_of_isFor hm' hm).symm.trans hnot) (by simp)
  · have hnot := hbehind t (mem_take_of_getElem? hj hlt) m' (List.mem_of_mem_head? hhead)
    exact absurd ((sameMiner_of_isFor hm hm').symm.trans hnot) (by simp)

end Task

/-- A message that is finished is the first one of its miner that was not. -/
theorem order_finish {tasks : List Task} {i : ℕ} {m : MinerInfo} {rest : List MinerInfo}
    {stage : Stage} (hget : tasks[i]? = some ⟨m :: rest, stage⟩) (hbehind : Behind tasks i m)
    (k : Miner) :
    [m].filter (MinerInfo.isFor k) ++
        ((tasks.set i ⟨rest, .start⟩).flatMap Task.remaining).filter (MinerInfo.isFor k) =
      (tasks.flatMap Task.remaining).filter (MinerInfo.isFor k) := by
  rw [flatMap_set hget, flatMap_getElem? hget]
  by_cases hm : m.isFor k = true
  · have hnone : ((tasks.take i).flatMap Task.remaining).filter (MinerInfo.isFor k) = [] := by
      refine List.filter_eq_nil_iff.mpr fun m' hmem hm' => ?_
      obtain ⟨earlier, hearlier, hm''⟩ := List.mem_flatMap.mp hmem
      exact absurd ((sameMiner_of_isFor hm hm').symm.trans (hbehind earlier hearlier m' hm''))
        (by simp)
    simp only [List.filter_append, List.cons_append, List.filter_cons_of_pos hm, List.filter_nil,
      hnone, List.nil_append]
  · simp only [List.filter_append, List.cons_append, List.filter_cons_of_neg hm, List.filter_nil,
      List.nil_append]

/-- Another miner's replacement is not this one's. -/
theorem replaces_cons {k : Miner} {m : MinerInfo} {rest : List MinerInfo} {stage : Stage}
    (h : m.isFor k ≠ true) : Task.replaces k ⟨m :: rest, stage⟩ = false := by
  refine Bool.eq_false_iff.mpr fun hrep => ?_
  obtain ⟨-, m', hhead, hm'⟩ := replaces_iff.mp hrep
  obtain rfl := Option.some.inj hhead
  exact h hm'

/-- A transaction that does not finish its message. -/
theorem inv_proceed {s : State} {i : ℕ} {m : MinerInfo} {rest : List MinerInfo}
    {stage stage' : Stage} (h : Inv table₀ s) (hget : s.tasks[i]? = some ⟨m :: rest, stage⟩)
    (hstage : stage ≠ .insert) (hnonzero : m.minimumPayment ≠ 0)
    (hbehind : stage' = .insert → Behind s.tasks i m) {table : List Row}
    (htable : ∀ k, payments table k =
      if stage' = .insert ∧ m.isFor k then [] else payments s.table k) :
    Inv table₀ { s with table := table, tasks := s.tasks.set i ⟨m :: rest, stage'⟩ } := by
  have hold : ∀ k, Task.replaces k ⟨m :: rest, stage⟩ = false := fun k =>
    Bool.eq_false_iff.mpr fun hrep => hstage (replaces_iff.mp hrep).1
  have hnew : ∀ {k}, ¬ (stage' = .insert ∧ m.isFor k = true) →
      Task.replaces k ⟨m :: rest, stage'⟩ = false := fun hnot => by
    refine Bool.eq_false_iff.mpr fun hrep => hnot ?_
    obtain ⟨hinsert, m', hhead, hm'⟩ := replaces_iff.mp hrep
    obtain rfl := Option.some.inj hhead
    exact ⟨hinsert, hm'⟩
  refine ⟨fun k => ?_, fun task hmem hstage => ?_,
    h.first.set hget (fun m' hm' => hm') fun hinsert m' hm' => ?_, fun k hk => ?_, fun k hk => ?_⟩
  · unfold State.pending
    dsimp only
    rw [flatMap_set hget, ← h.order k]
    unfold State.pending
    rw [flatMap_getElem? hget]
  · rcases List.mem_or_eq_of_mem_set hmem with hmem | rfl
    · exact h.nonzero task hmem hstage
    · rintro m' hm'
      obtain rfl := Option.some.inj hm'
      exact hnonzero
  · obtain rfl := Option.some.inj hm'
    exact hbehind hinsert
  · rw [htable k]
    split
    · rfl
    · rename_i hnot
      exact h.replaced k ((replaced_set hget (hold k) (hnew hnot)).mp hk)
  · rw [htable k]
    split
    · rename_i hinsert
      obtain ⟨hlt, -⟩ := List.getElem?_eq_some_iff.mp hget
      exact absurd ⟨⟨m :: rest, stage'⟩, List.mem_set hlt _,
        replaces_iff.mpr ⟨hinsert.1, m, rfl, hinsert.2⟩⟩ hk
    · rename_i hnot
      exact h.rows k fun hs => hk ((replaced_set hget (hold k) (hnew hnot)).mpr hs)

/-- A transaction that finishes its message. -/
theorem inv_finish {s : State} {i : ℕ} {m : MinerInfo} {rest : List MinerInfo} {stage : Stage}
    (h : Inv table₀ s) (hget : s.tasks[i]? = some ⟨m :: rest, stage⟩)
    (hbehind : Behind s.tasks i m) {table : List Row}
    (htable : ∀ k, payments table k =
      if m.isFor k then m.value.toList else payments s.table k) :
    Inv table₀ { s with
      table := table
      tasks := s.tasks.set i ⟨rest, .start⟩
      finished := s.finished ++ [m] } := by
  have hnew : ∀ k, Task.replaces k ⟨rest, .start⟩ = false := fun _ => rfl
  refine ⟨fun k => ?_, fun task hmem hstage => ?_,
    h.first.set hget (fun m' hm' => List.mem_cons_of_mem _ hm') nofun, fun k hk => ?_,
    fun k hk => ?_⟩
  · unfold State.pending
    dsimp only
    rw [List.filter_append, List.append_assoc, order_finish hget hbehind k]
    exact h.order k
  · rcases List.mem_or_eq_of_mem_set hmem with hmem | rfl
    · exact h.nonzero task hmem hstage
    · exact absurd rfl hstage
  · by_cases hm : m.isFor k = true
    · exact absurd hk (not_replaced_set h.first hget rfl hbehind hm (hnew k))
    · rw [htable k, if_neg hm]
      exact h.replaced k ((replaced_set hget (replaces_cons hm) (hnew k)).mp hk)
  · rw [htable k, left_append]
    by_cases hm : m.isFor k = true
    · rw [if_pos hm, if_pos hm]
    · rw [if_neg hm, if_neg hm]
      exact h.rows k fun hold => hk ((replaced_set hget (replaces_cons hm) (hnew k)).mpr hold)

theorem inv_task {s s' : State} {i : ℕ} (h : Inv table₀ s) (hguard : Undisturbed s (.task i))
    (hstep : step s (.task i) = some s') : Inv table₀ s' := by
  obtain ⟨task, hget, hrest⟩ := Option.bind_eq_some_iff.mp hstep
  obtain ⟨⟨table, task', finished⟩, hnext, hs'⟩ := Option.bind_eq_some_iff.mp hrest
  obtain rfl := Option.some.inj hs'
  obtain ⟨remaining, stage⟩ := task
  cases remaining with
  | nil => exact nomatch hnext
  | cons m rest =>
    obtain ⟨hbehind, hstorable⟩ := hguard _ hget m rfl
    cases stage with
    | start =>
      dsimp only [Task.next] at hnext
      by_cases hzero : m.minimumPayment = 0
      · rw [if_pos hzero] at hnext
        cases hnext
        refine inv_finish h hget (hbehind (decide_eq_true (Or.inr ⟨rfl, hzero⟩))) fun k => ?_
        unfold MinerInfo.value
        rw [payments_deleteMinerInfo, if_pos hzero]
        rfl
      · rw [if_neg hzero] at hnext
        cases hnext
        rw [List.append_nil]
        exact inv_proceed h hget (by simp) hzero
          (fun hinsert : Stage.delete = .insert => nomatch hinsert)
          fun k => (if_neg fun hinsert => nomatch hinsert.1).symm
    | delete =>
      cases hnext
      have hnonzero := h.nonzero _ (List.mem_of_getElem? hget) (by simp) m rfl
      rw [List.append_nil]
      refine inv_proceed h hget (by simp) hnonzero
        (fun _ => hbehind (decide_eq_true (Or.inl rfl))) fun k => ?_
      rw [payments_deleteMinerInfo]
      simp only [true_and]
    | insert =>
      obtain ⟨table', hadd, hpayments⟩ := payments_addMinerInfo (hstorable rfl) s.table
      dsimp only [Task.next] at hnext
      rw [hadd] at hnext
      cases hnext
      have hnonzero := h.nonzero _ (List.mem_of_getElem? hget) (by simp) m rfl
      refine inv_finish h hget (h.first i _ hget rfl m rfl) fun k => ?_
      rw [hpayments k]
      by_cases hm : m.isFor k = true
      · have hnone := h.replaced k
          ⟨_, List.mem_of_getElem? hget, replaces_iff.mpr ⟨rfl, m, rfl, hm⟩⟩
        unfold MinerInfo.value
        rw [hnone, if_pos hm, if_pos hm, if_neg hnonzero]
        rfl
      · rw [if_neg hm, if_neg hm, List.append_nil]

theorem inv_step (s : State) (e : Event) (s' : State) (h : Inv table₀ s)
    (hguard : Undisturbed s e) (hstep : step s e = some s') : Inv table₀ s' := by
  cases e with
  | batch minerInfos =>
    obtain rfl := Option.some.inj hstep
    exact inv_batch h minerInfos
  | task i => exact inv_task h hguard hstep
  | payout k =>
    obtain rfl := Option.some.inj hstep
    exact h

/-! ## Runs -/

theorem settled_of_inv {s : State} (h : Inv table₀ s) : Settled table₀ s := by
  intro hdone k
  have hpending : s.pending = [] := List.flatMap_eq_nil_iff.mpr hdone
  have hnot : ¬ Replaced s.tasks k := by
    rintro ⟨task, hmem, hrep⟩
    obtain ⟨-, m, hhead, -⟩ := replaces_iff.mp hrep
    rw [hdone task hmem] at hhead
    exact nomatch hhead
  have horder := h.order k
  rw [hpending, List.filter_nil, List.append_nil] at horder
  rw [h.rows k hnot]
  unfold left
  rw [horder]

theorem seen_of_inv {s : State} (h : Inv table₀ s) {k : Miner}
    (hnot : ∀ task ∈ s.tasks, task.replaces k = false) : Seen table₀ s k := by
  have hrows := h.rows k fun ⟨task, hmem, hrep⟩ =>
    absurd (hrep.symm.trans (hnot task hmem)) (by simp)
  refine ⟨?_, fun m _ _ hleft => ?_⟩
  · rw [read_eq_head?, read_eq_head?, hrows]
    unfold left
    cases hlast : (s.finished.filter (MinerInfo.isFor k)).getLast? with
    | none => exact Or.inl rfl
    | some m =>
      have hmem := List.mem_of_getLast? hlast
      have hreceived : m ∈ s.received.filter (MinerInfo.isFor k) :=
        h.order k ▸ List.mem_append_left _ hmem
      obtain ⟨hreceived, hm⟩ := List.mem_filter.mp hreceived
      exact Or.inr ⟨m, hreceived, hm, Option.head?_toList⟩
  · rw [read_eq_head?, hrows]
    exact fun hnone => hleft (List.head?_eq_none_iff.mp hnone)

/-- **A minimum payment is replaced atomically and in order** in every undisturbed run: once all
tasks have finished, a miner has that of its last message, and no payout misses it before. -/
theorem replaced_of_run {s' : State} {es : List Event}
    (hguard : Along step Undisturbed (State.init table₀) es)
    (hrun : run step (State.init table₀) es = some s') :
    Settled table₀ s' ∧ ∀ es₁ k es₂ s, es = es₁ ++ .payout k :: es₂ →
      run step (State.init table₀) es₁ = some s → Seen table₀ s k := by
  refine ⟨settled_of_inv (run_invariant inv_step (inv_init table₀) hguard hrun), ?_⟩
  rintro es₁ k es₂ s rfl hs
  obtain ⟨hbefore, hafter⟩ := along_append.mp hguard
  exact seen_of_inv (run_invariant inv_step (inv_init table₀) hbefore hs) (hafter s hs).1

/-- A miner with a minimum payment of one. -/
def sampleTable : List Row := [⟨"aion1", "a0", 1⟩]

/-- A message for the miner. -/
def sampleInfo (minimumPayment : ℚ) : MinerInfo := ⟨"aion1", some "a0", minimumPayment⟩

/-- Two replacements, one behind the other. -/
def sampleEvents : List Event :=
  [.batch [sampleInfo 2], .batch [sampleInfo 3], .task 0, .payout ⟨"aion1", "a0"⟩, .task 0, .task 0,
    .payout ⟨"aion1", "a0"⟩, .task 1, .task 1, .task 1]

theorem replaced_in_order :
    Settled sampleTable
      { table := [⟨"aion1", "a0", 3⟩]
        tasks := [⟨[], .start⟩, ⟨[], .start⟩]
        received := [sampleInfo 2, sampleInfo 3]
        finished := [sampleInfo 2, sampleInfo 3] } ∧
    ∀ es₁ k es₂ s, sampleEvents = es₁ ++ .payout k :: es₂ →
      run step (State.init sampleTable) es₁ = some s → Seen sampleTable s k :=
  replaced_of_run (by decide +kernel) (by decide +kernel)

/-- Two replacements at a time leave two rows, and a payout reads none in between. -/
theorem not_replaced : ∃ (table₀ : List Row) (es es₁ es₂ : List Event) (k : Miner) (s s' : State),
    run step (State.init table₀) es = some s' ∧ ¬ Settled table₀ s' ∧
      es = es₁ ++ .payout k :: es₂ ∧ run step (State.init table₀) es₁ = some s ∧
      ¬ Seen table₀ s k := by
  refine ⟨sampleTable, _, [.batch [sampleInfo 2], .batch [sampleInfo 3], .task 0, .task 1, .task 0],
    [.task 1, .task 0, .task 1], ⟨"aion1", "a0"⟩,
    { table := []
      tasks := [⟨[sampleInfo 2], .insert⟩, ⟨[sampleInfo 3], .delete⟩]
      received := [sampleInfo 2, sampleInfo 3]
      finished := [] },
    { table := [⟨"aion1", "a0", 2⟩, ⟨"aion1", "a0", 3⟩]
      tasks := [⟨[], .start⟩, ⟨[], .start⟩]
      received := [sampleInfo 2, sampleInfo 3]
      finished := [sampleInfo 2, sampleInfo 3] },
    by decide +kernel, fun hsettled => ?_, rfl, by decide +kernel, fun hseen => ?_⟩
  · have hrows := hsettled (by decide +kernel) ⟨"aion1", "a0"⟩
    exact absurd hrows (by decide +kernel)
  · refine hseen.2 (sampleInfo 2) ⟨⟨[sampleInfo 2], .insert⟩, ?_, rfl, by decide⟩ ?_ ?_ ?_
    · exact List.mem_cons_self
    all_goals decide +kernel

end AionPool.Mining.MinerInfoRecorder
