import AionPool.Lib.Resilience
import AionPool.Mining.ShareRecorder

/-!
# The fault policy of the share recorder

`PersistSharesAsync` runs `PersistSharesCoreAsync` in four policies, from the outside to the inside:
a fallback for a broken circuit, a fallback for the faults of a database, a circuit breaker and
retries. Both fallbacks append the batch to the recovery file.

* `RecorderEnvironment`: how the attempts end, what the clock says, and whether the file can be
  written, call by call.
* `atomic_persistSharesAsync`: a batch is committed or appended, and nothing is thrown.
* **`recorded_once`**: the same of every sequence of batches.

Models `ShareRecorder.cs:100-105`, `:141-180`, `:282-293` and `:352-383`, and
`ConnectionFactoryExtensions.cs:60-83`.
-/

namespace AionPool.Mining.ShareRecorder

open AionPool.Persistence AionPool.Lib.Effects AionPool.Lib.Resilience

/-! ## Attempts -/

/-- What an attempt throws: `DbException`, `SocketException` or `TimeoutException`. -/
inductive Fault where
  | db
  | socket
  | timeout
  deriving DecidableEq

inductive PersistException where
  | fault (fault : Fault)
  | brokenCircuit
  deriving DecidableEq

/-- `Handle<DbException>().Or<SocketException>().Or<TimeoutException>()`. -/
def handlesFault : PersistException → Bool
  | .fault _ => true
  | .brokenCircuit => false

/-- `Handle<BrokenCircuitException>()`. -/
def handlesBrokenCircuit : PersistException → Bool
  | .fault _ => false
  | .brokenCircuit => true

/-- What surrounds the recorder, by the number of the call. -/
structure RecorderEnvironment where
  /-- How an attempt ends; without a fault it commits. -/
  attempt : ℕ → Option Fault
  clock : ℕ → DateTime
  writable : ℕ → Bool
  serializeObject : Share ℚ → String
  /-- The configuration asks for notifications of the admin. -/
  notifyAdmin : Bool
  recoveryFilename : String

/-- The recorder, its stores, and the calls it has made so far. -/
structure RecorderState where
  database : Database
  /-- The lines of the recovery file. -/
  recoveryFile : List String
  circuit : Circuit
  hasLoggedPolicyFallbackFailure : Bool
  notifiedAdminOnPolicyFallback : Bool
  /-- The notifications of the admin, by subject and message. -/
  adminNotifications : List (String × String)
  attempts : ℕ
  clockReadings : ℕ
  writes : ℕ

abbrev Recorder := EStateM PersistException RecorderState Unit

/-- `RunTx`: the transaction is rolled back when its action throws, and else committed. -/
def runTx (action : Database → Except PersistException Database) : Recorder := do
  let s ← get
  match action s.database with
  | .ok database => set { s with database := database }
  | .error e => throw e

variable (env : RecorderEnvironment)

/-- `PersistSharesCoreAsync`. -/
def persistSharesCore (shares : List (Share ℚ)) : Recorder := do
  let attempt := (← get).attempts
  modify fun s => { s with attempts := s.attempts + 1 }
  runTx fun database =>
    match env.attempt attempt with
    | none => .ok (persistSharesCoreAsync database shares)
    | some fault => .error (.fault fault)

/-! ## The recovery file -/

/-- `WriteRecoveryFileheader`. -/
def recoveryFileheader : List String :=
  ["# The existence of this file means shares could not be committed to the database.",
    "# You should stop the pool cluster and run the following command:",
    "# miningcore -c <path-to-config> -rs <path-to-this-file>",
    ""]

/-- The file with the shares of a batch behind what it has. -/
def appendShares (file : List String) (shares : List (Share ℚ)) : List String :=
  (if file = [] then recoveryFileheader else file) ++ shares.map env.serializeObject

/-- `NotifyAdminOnPolicyFallback`. -/
def notifyAdminOnPolicyFallback (s : RecorderState) : RecorderState :=
  if env.notifyAdmin ∧ s.notifiedAdminOnPolicyFallback = false then
    { s with
      notifiedAdminOnPolicyFallback := true
      adminNotifications := s.adminNotifications ++
        [("Share Recorder Policy Fallback",
          "The Share Recorder's Policy Fallback has been engaged. Check share recovery file " ++
            env.recoveryFilename ++ ".")] }
  else s

/-- `OnExecutePolicyFallbackAsync`; when the file cannot be written the batch is lost. -/
def onExecutePolicyFallbackAsync (shares : List (Share ℚ)) : Recorder := do
  let writable := env.writable (← get).writes
  modify fun s => { s with writes := s.writes + 1 }
  if writable then
    modify fun s => { s with recoveryFile := appendShares env s.recoveryFile shares }
    modify (notifyAdminOnPolicyFallback env)
  else modify fun s => { s with hasLoggedPolicyFallbackFailure := true }

/-! ## The policies -/

def retryCount : ℕ := 3

/-- The clock of the recorder. -/
def now : EStateM PersistException RecorderState DateTime := do
  let reading := (← get).clockReadings
  modify fun s => { s with clockReadings := s.clockReadings + 1 }
  return env.clock reading

/-- `CircuitBreakerAsync(2, TimeSpan.FromMinutes(1))`. -/
def breaker : CircuitBreaker PersistException RecorderState where
  handles := handlesFault
  exceptionsAllowedBeforeBreaking := 2
  durationOfBreak := 600000000
  brokenCircuit := .brokenCircuit
  now := now env
  circuit := RecorderState.circuit
  setCircuit circuit s := { s with circuit := circuit }

/-- `faultPolicy`, for a batch. -/
def faultPolicy (shares : List (Share ℚ)) : Policy PersistException RecorderState := fun x =>
  fallback handlesBrokenCircuit (onExecutePolicyFallbackAsync env shares)
    (fallback handlesFault (onExecutePolicyFallbackAsync env shares)
      ((breaker env).policy (retry handlesFault retryCount x)))

/-- `PersistSharesAsync`. -/
def persistSharesAsync (shares : List (Share ℚ)) : Recorder :=
  faultPolicy env shares (persistSharesCore env shares)

/-- One batch after another. -/
def persistBatches : List (List (Share ℚ)) → Recorder
  | [] => pure ()
  | shares :: batches => do
    persistSharesAsync env shares
    persistBatches batches

/-! ## Where a batch ends up -/

/-- Where shares are kept. -/
structure Stores where
  database : Database
  recoveryFile : List String

def RecorderState.stores (s : RecorderState) : Stores := ⟨s.database, s.recoveryFile⟩

/-- The batch is committed to the database. -/
def Stores.commit (shares : List (Share ℚ)) (t : Stores) : Stores :=
  { t with database := persistSharesCoreAsync t.database shares }

/-- The batch is appended to the recovery file. -/
def Stores.append (shares : List (Share ℚ)) (t : Stores) : Stores :=
  { t with recoveryFile := appendShares env t.recoveryFile shares }

/-- Where a batch is kept. -/
inductive Place where
  | database
  | recoveryFile
  deriving DecidableEq

/-- The shares of the batches that are kept in a place. -/
def sharesIn (place : Place) (places : List Place) (batches : List (List (Share ℚ))) :
    List (Share ℚ) :=
  ((places.zip batches).filter fun e => e.1 = place).flatMap Prod.snd

/-- **Every batch is in one place**: its shares are new rows of the database, with a pending block
for each candidate, or new lines of the recovery file, which has its header before the first of
them; there are no other new rows and lines. -/
structure Recorded (places : List Place) (batches : List (List (Share ℚ))) (t t' : Stores) :
    Prop where
  length : places.length = batches.length
  shares : t'.database.shares =
    t.database.shares ++ (sharesIn .database places batches).map Share.toModelShare
  blocks : t'.database.blocks = t.database.blocks ++
    ((sharesIn .database places batches).filter fun s => s.isBlockCandidate).map fun s =>
      BlockRepository.row s.toModelBlock
  others : t'.database = { t.database with
    shares := t'.database.shares
    blocks := t'.database.blocks }
  lines : t'.recoveryFile =
    (if t.recoveryFile = [] ∧ Place.recoveryFile ∈ places then recoveryFileheader
      else t.recoveryFile) ++
      (sharesIn .recoveryFile places batches).map env.serializeObject

theorem Recorded.nil (t : Stores) : Recorded env [] [] t t := by
  refine ⟨rfl, (List.append_nil _).symm, (List.append_nil _).symm, rfl, ?_⟩
  rw [if_neg fun h => absurd h.2 List.not_mem_nil]
  exact (List.append_nil _).symm

theorem sharesIn_cons_self (place : Place) (places : List Place) (shares : List (Share ℚ))
    (batches : List (List (Share ℚ))) :
    sharesIn place (place :: places) (shares :: batches) =
      shares ++ sharesIn place places batches := by
  unfold sharesIn
  rw [List.zip_cons_cons, List.filter_cons_of_pos (by simp), List.flatMap_cons]

theorem sharesIn_cons_of_ne {place place' : Place} (h : place' ≠ place) (places : List Place)
    (shares : List (Share ℚ)) (batches : List (List (Share ℚ))) :
    sharesIn place (place' :: places) (shares :: batches) = sharesIn place places batches := by
  unfold sharesIn
  rw [List.zip_cons_cons, List.filter_cons_of_neg (by simpa using h)]

/-- A batch that is committed is new rows. -/
theorem Recorded.committed {places : List Place} {shares : List (Share ℚ)}
    {batches : List (List (Share ℚ))} {t t' : Stores}
    (h : Recorded env places batches (t.commit shares) t') :
    Recorded env (.database :: places) (shares :: batches) t t' := by
  have hshares : (t.commit shares).database.shares =
      t.database.shares ++ shares.map Share.toModelShare := shares_foldl_insert _ _
  have hblocks : (t.commit shares).database.blocks = t.database.blocks ++
      (shares.filter fun s => s.isBlockCandidate).map fun s =>
        BlockRepository.row s.toModelBlock := blocks_foldl_insert _ _
  have hne : Place.database ≠ .recoveryFile := by simp
  refine ⟨congrArg (· + 1) h.length, ?_, ?_, ?_, ?_⟩
  · rw [h.shares, hshares, sharesIn_cons_self, List.map_append, List.append_assoc]
  · rw [h.blocks, hblocks, sharesIn_cons_self, List.filter_append, List.map_append,
      List.append_assoc]
  · refine h.others.trans ?_
    have hothers := persistSharesCoreAsync_others t.database shares
    unfold Stores.commit
    rw [hothers]
  · rw [h.lines, sharesIn_cons_of_ne hne]
    simp only [List.mem_cons, reduceCtorEq, false_or]
    rfl

theorem appendShares_ne_nil (file : List String) (shares : List (Share ℚ)) :
    appendShares env file shares ≠ [] := by
  unfold appendShares
  by_cases hfile : file = []
  · rw [if_pos hfile]
    exact List.append_ne_nil_of_left_ne_nil (List.cons_ne_nil _ _) _
  · rw [if_neg hfile]
    exact List.append_ne_nil_of_left_ne_nil hfile _

/-- A batch that is appended is new lines. -/
theorem Recorded.appended {places : List Place} {shares : List (Share ℚ)}
    {batches : List (List (Share ℚ))} {t t' : Stores}
    (h : Recorded env places batches (t.append env shares) t') :
    Recorded env (.recoveryFile :: places) (shares :: batches) t t' := by
  have hne : Place.recoveryFile ≠ .database := by simp
  have hfile : (t.append env shares).recoveryFile ≠ [] := appendShares_ne_nil env _ _
  refine ⟨congrArg (· + 1) h.length, ?_, ?_, h.others, ?_⟩
  · rw [h.shares, sharesIn_cons_of_ne hne]
    rfl
  · rw [h.blocks, sharesIn_cons_of_ne hne]
    rfl
  · rw [h.lines, if_neg fun hnil => hfile hnil.1, sharesIn_cons_self, List.map_append,
      ← List.append_assoc]
    simp only [List.mem_cons, true_or, and_true]
    rfl

variable {env}

theorem run_runTx (action : Database → Except PersistException Database) (s : RecorderState) :
    (runTx action).run s =
      match action s.database with
      | .ok database => .ok () { s with database := database }
      | .error e => .error e s := by
  unfold runTx
  rw [run_bind_ok (EStateM.run_get s)]
  cases action s.database with
  | ok database => rfl
  | error e => rfl

theorem atomic_persistSharesCore (env : RecorderEnvironment) (shares : List (Share ℚ)) :
    Atomic RecorderState.stores (fun t t' => t' = t.commit shares)
      (fun e => handlesFault e = true) (persistSharesCore env shares) := by
  intro s
  have hattempt : (modify fun s => { s with attempts := s.attempts + 1 } : Recorder).run s =
      .ok () { s with attempts := s.attempts + 1 } := rfl
  unfold persistSharesCore
  rw [run_bind_ok (EStateM.run_get s), run_bind_ok hattempt, run_runTx]
  dsimp only
  cases env.attempt s.attempts with
  | none => exact rfl
  | some fault => exact ⟨rfl, rfl⟩

theorem atomic_onExecutePolicyFallbackAsync (hwritable : ∀ n, env.writable n = true)
    (shares : List (Share ℚ)) :
    Atomic RecorderState.stores (fun t t' => t' = t.append env shares) (fun _ => False)
      (onExecutePolicyFallbackAsync env shares) := by
  intro s
  have hwrite : (modify fun s => { s with writes := s.writes + 1 } : Recorder).run s =
      .ok () { s with writes := s.writes + 1 } := rfl
  have hnotify : ∀ t, (notifyAdminOnPolicyFallback env t).stores = t.stores := by
    intro t
    unfold notifyAdminOnPolicyFallback
    split
    · rfl
    · rfl
  unfold onExecutePolicyFallbackAsync
  rw [run_bind_ok (EStateM.run_get s), run_bind_ok hwrite, if_pos (hwritable _)]
  exact hnotify _

theorem breaker_apart : (breaker env).Apart RecorderState.stores where
  setCircuit _ _ := rfl
  now := fun _ => rfl

/-- A batch is committed or appended, and nothing is thrown. -/
theorem atomic_persistSharesAsync (hwritable : ∀ n, env.writable n = true)
    (shares : List (Share ℚ)) :
    Atomic RecorderState.stores (fun t t' => t' = t.commit shares ∨ t' = t.append env shares)
      (fun _ => False) (persistSharesAsync env shares) := by
  have hfile := atomic_onExecutePolicyFallbackAsync hwritable shares
  have hretry := atomic_retry handlesFault (atomic_persistSharesCore env shares) retryCount
  have hbreaker := atomic_circuitBreaker (breaker env) breaker_apart hretry
  have hfallback := atomic_fallback handlesFault hbreaker hfile
  refine (atomic_fallback handlesBrokenCircuit hfallback hfile).mono ?_ ?_
  · rintro t t' ((hcommit | happend) | happend)
    · exact Or.inl hcommit
    · exact Or.inr happend
    · exact Or.inr happend
  · -- a fault does not get past the inner fallback, and a broken circuit not past the outer one
    rintro e (⟨⟨he, hnot⟩ | hfalse, hnot'⟩ | hfalse)
    · rcases he with hfault | rfl
      · exact absurd (hfault.symm.trans hnot) (by simp)
      · have hbroken : handlesBrokenCircuit (breaker env).brokenCircuit = true := rfl
        exact absurd (hbroken.symm.trans hnot') (by simp)
    · exact hfalse
    · exact hfalse

/-- **No share is lost or duplicated**: whatever the attempts do, and in whatever state the circuit
is, no call throws, and every batch has a place where its shares are the new rows or the new lines,
once. -/
theorem recorded_once (hwritable : ∀ n, env.writable n = true) :
    ∀ (batches : List (List (Share ℚ))) (s : RecorderState),
      ∃ s', (persistBatches env batches).run s = .ok () s' ∧
        ∃ places, Recorded env places batches s.stores s'.stores
  | [], s => ⟨s, rfl, [], .nil _ _⟩
  | shares :: batches, s => by
    obtain ⟨t, hrun, hplace⟩ := (atomic_persistSharesAsync hwritable shares).returns s
    obtain ⟨s', hrest, places, hrecorded⟩ := recorded_once hwritable batches t
    refine ⟨s', (run_bind_ok hrun).trans hrest, ?_⟩
    rcases hplace with hcommit | happend
    · exact ⟨_, .committed _ (hcommit ▸ hrecorded)⟩
    · exact ⟨_, .appended _ (happend ▸ hrecorded)⟩

/-- A database that does not answer. -/
def sampleEnvironment : RecorderEnvironment where
  attempt := fun _ => some .timeout
  clock := fun _ => 0
  writable := fun _ => true
  serializeObject := Share.miner
  notifyAdmin := false
  recoveryFilename := "recovered-shares.txt"

/-- A recorder that has not recorded anything. -/
def sampleState : RecorderState where
  database := .empty
  recoveryFile := []
  circuit := .closed 0
  hasLoggedPolicyFallbackFailure := false
  notifiedAdminOnPolicyFallback := false
  adminNotifications := []
  attempts := 0
  clockReadings := 0
  writes := 0

def sampleShare : Share ℚ where
  poolId := "aion1"
  miner := "a0"
  worker := none
  ipAddress := none
  userAgent := none
  source := none
  difficulty := 4
  blockHeight := 1
  blockReward := 0
  blockHash := none
  isBlockCandidate := false
  transactionConfirmationData := ""
  networkDifficulty := 100
  created := 0

theorem recorded_once_three :
    ∃ s', (persistBatches sampleEnvironment [[sampleShare], [sampleShare], [sampleShare]]).run
        sampleState = .ok () s' ∧
      ∃ places, Recorded sampleEnvironment places [[sampleShare], [sampleShare], [sampleShare]]
        sampleState.stores s'.stores :=
  recorded_once (fun _ => rfl) [[sampleShare], [sampleShare], [sampleShare]] sampleState

/-- The third batch finds the circuit open, and is not attempted. -/
example : (after (persistBatches sampleEnvironment [[sampleShare], [sampleShare], [sampleShare]])
    sampleState).attempts = 8 := by decide +kernel

end AionPool.Mining.ShareRecorder
