import AionPool.Aion.JobManager
import AionPool.Lib.Effects
import AionPool.Lib.Run

/-!
# New jobs

`UpdateJob` makes a job of every template with another header hash, installs it, and queries the
daemon for its statistics afterwards. An exception is caught and `false` is returned: when the last
query fails the job has already been installed, and since the next call compares header hashes with
it, it is never published.

* `updateJob_installed`: what a call changes.
* **`jobs_kept_iff`**: a run loses no job exactly when no query for the statistics fails in a call
  that has made a job.

Models `AionJobManager.cs:181-275` and `:300-331`, `JobManagerBase.cs:87-96` and
`AionJob.cs:181-185`.
-/

namespace AionPool.Aion.UpdateJob

open AionPool.Daemon AionPool.Extensions AionPool.Lib.Effects AionPool.Lib.Run
open AionPool.Lib.Binary64 (Double)

/-! ## Data -/

/-- `AionBlockTemplate`, as a daemon answers it: a text may be missing. -/
structure ReceivedTemplate where
  height : UInt64
  headerHash : Option Text
  target : Option Text

/-- `GetMinerHashRateResponse`. -/
structure GetMinerHashRateResponse where
  networkHashrate : Option Text
  minerHashrate : Option Text

/-- `Convert.ToInt32(value, 16)`, and `Convert.ToDouble` in the current culture. -/
structure Conversions where
  toInt32 : Option Text → Except Exn Int32
  toDouble : Option Text → Except Exn Double

/-- What the daemons answer during a call of `UpdateJobAsync`, and the time. -/
structure Answers where
  getWork : Except Exn (DaemonResponse ReceivedTemplate)
  getDifficulty : Except Exn (DaemonResponse Text)
  getMinerStats : Except Exn (DaemonResponse GetMinerHashRateResponse)
  now : DateTime

/-- The fields of `AionJobManager` that `UpdateJob` writes, those of `BlockchainStats` with them. -/
structure JobState extends AionJobManager where
  currentJob : Option AionJob
  /-- The counter of `NextJobId`. -/
  jobId : Int32
  lastNetworkBlockTime : Option DateTime
  blockHeight : UInt64
  networkHashrate : Double
  poolHashRate : Double

/-- A program of the manager. -/
abbrev Update (α : Type) := EStateM Exn JobState α

/-! ## `UpdateJob` -/

variable (conversions : Conversions)

/-- `NextJobId("x8")`. -/
def nextJobId : Update Text := do
  let s ← get
  let value := s.jobId + 1
  set { s with jobId := if value = Int32.minValue then 0 else value }
  return hexPadded 8 value.toUInt32.toNat

/-- `getNetworkDifficulty`. -/
def getNetworkDifficulty (answers : Answers) : Except Exn Int32 := do
  let response ← answers.getDifficulty
  conversions.toInt32 response.response

/-- The constructor of `AionJob`. -/
def newJob (id : Text) (template : ReceivedTemplate) (headerHash : Text) (answers : Answers) :
    Except Exn AionJob := do
  let some target := template.target | throw .nullReference
  let difficulty ← getNetworkDifficulty conversions answers
  AionJob.create id ⟨template.height, headerHash, target⟩ difficulty

/-- `getNetworkAndMinerHashRate`. -/
def getNetworkAndMinerHashRate (answers : Answers) : Except Exn (Double × Double) := do
  let response ← answers.getMinerStats
  let some response := response.response | throw .nullReference
  let networkHashRate ← conversions.toDouble response.networkHashrate
  let minerHashRate ← conversions.toDouble response.minerHashrate
  return (networkHashRate, minerHashRate)

/-- `MaxBlockBacklog`. -/
def maxBlockBacklog : UInt64 := 3

/-- The block that holds `jobLock`: the job is added, and those far behind it are removed. -/
def addJob (validJobs : Text → Option AionJob) (job : AionJob) : Text → Option AionJob :=
  fun key =>
    (Function.update validJobs job.id (some job) key).filter fun valid =>
      ¬ valid.blockTemplate.height.toInt64 <
        (job.blockTemplate.height - maxBlockBacklog).toInt64

/-- The new job is current. -/
def JobState.install (s : JobState) (job : AionJob) (now : DateTime) : JobState :=
  { s with
    validJobs := addJob s.validJobs job
    currentJob := some job
    lastNetworkBlockTime := some now
    blockHeight := job.blockTemplate.height }

/-- Whether a template is for another job. -/
def isNew (currentJob : Option AionJob) (headerHash : Text) : Bool :=
  match currentJob with
  | none => true
  | some job => job.blockTemplate.headerHash ≠ headerHash

/-- The `try` block of `UpdateJob`, behind its checks. -/
def installJob (answers : Answers) (template : ReceivedTemplate) (headerHash : Text) :
    Update Bool := do
  let jobId ← nextJobId
  let job ← MonadExcept.ofExcept (newJob conversions jobId template headerHash answers)
  modify fun s => s.install job answers.now
  let (networkHashrate, poolHashRate) ←
    MonadExcept.ofExcept (getNetworkAndMinerHashRate conversions answers)
  modify fun s => { s with networkHashrate := networkHashrate, poolHashRate := poolHashRate }
  return true

/-- The template `UpdateJob` works with, and its header hash. A daemon that has no peers answers
none. -/
def ReceivedTemplate.usable (blockTemplate : Option ReceivedTemplate) :
    Option (ReceivedTemplate × Text) := do
  let template ← blockTemplate
  let headerHash ← template.headerHash
  if headerHash = [] then none else some (template, headerHash)

/-- `UpdateJob`. -/
def updateJob (answers : Answers) (blockTemplate : Option ReceivedTemplate) : Update Bool :=
  tryCatch
    (match ReceivedTemplate.usable blockTemplate with
    | none => return false
    | some (template, headerHash) => do
      let s ← get
      if isNew s.currentJob headerHash then installJob conversions answers template headerHash
      else return false)
    fun _ => return false

/-- `UpdateJobAsync`. -/
def updateJobAsync (answers : Answers) : Update Bool :=
  tryCatch
    (do
      let result ← MonadExcept.ofExcept answers.getWork
      updateJob conversions answers result.response)
    fun _ => return false

/-! ## `Jobs` -/

/-- The parameters of `mining.notify`. -/
structure JobParams where
  id : Text
  cleanJob : Bool
  target : Text
  headerHash : Text
  deriving DecidableEq

/-- `GetJobParamsForStratum`; there is none without a job. -/
def getJobParamsForStratum (currentJob : Option AionJob) : Option JobParams :=
  currentJob.map fun job =>
    ⟨job.id, true, job.blockTemplate.target, job.blockTemplate.headerHash⟩

/-- The manager, and what `Jobs` has published. -/
structure State where
  manager : JobState
  published : List (Option JobParams)

/-- What a call of `UpdateJobAsync` returns, and the manager after it. -/
def call (m : JobState) (answers : Answers) : Bool × JobState :=
  match (updateJobAsync conversions answers).run m with
  | .ok result m => (result, m)
  | .error _ m => (false, m)

/-- The timer ticks: `UpdateJobAsync` is called, and the job published when it is new. -/
def step (s : State) (answers : Answers) : Option State :=
  let (result, manager) := call conversions s.manager answers
  some {
    manager := manager
    published :=
      if result then s.published ++ [getJobParamsForStratum manager.currentJob] else s.published }

/-- A call loses no job: it returns `true` when there is a new one, which is published, and else
leaves everything as it is. -/
structure JobKept (s : State) (answers : Answers) : Prop where
  result : (call conversions s.manager answers).1 = true ↔
    (call conversions s.manager answers).2.currentJob ≠ s.manager.currentJob
  published : ∀ s', step conversions s answers = some s' →
    s'.manager.currentJob ≠ s.manager.currentJob →
    s'.published = s.published ++ [getJobParamsForStratum s'.manager.currentJob]
  unchanged : (call conversions s.manager answers).1 = false →
    (call conversions s.manager answers).2.currentJob = s.manager.currentJob ∧
      (call conversions s.manager answers).2.validJobs = s.manager.validJobs

/-- The constructor makes a job: the target has 32 bytes, and the difficulty is known. -/
def Constructs (template : ReceivedTemplate) (answers : Answers) : Prop :=
  ∃ target difficulty, template.target = some target ∧
    (hexToReverseByteArray (skip0x target)).length = 32 ∧
    getNetworkDifficulty conversions answers = .ok difficulty

/-- The answers make a job: there is a template, it is new, and the constructor does not throw. -/
def MakesJob (m : JobState) (answers : Answers) : Prop :=
  ∃ response template headerHash, answers.getWork = .ok response ∧
    ReceivedTemplate.usable response.response = some (template, headerHash) ∧
    isNew m.currentJob headerHash = true ∧ Constructs conversions template answers

/-- The statistics cannot be read. -/
def StatsFail (answers : Answers) : Prop :=
  ∃ e, getNetworkAndMinerHashRate conversions answers = .error e

/-! ## One call -/

variable {conversions}

/-- The job that is made of a difficulty and a target of 32 bytes. -/
theorem newJob_of_difficulty {template : ReceivedTemplate}
    {answers : Answers} {target : Text} {difficulty : Int32}
    (htarget : template.target = some target)
    (hlen : (hexToReverseByteArray (skip0x target)).length = 32)
    (hdifficulty : getNetworkDifficulty conversions answers = .ok difficulty)
    (id headerHash : Text) : newJob conversions id template headerHash answers =
      .ok ⟨id, ⟨template.height, headerHash, target⟩, .fin difficulty.toInt,
        ⟨hexToReverseByteArray (skip0x target), hlen⟩, fun _ => none⟩ := by
  unfold newJob
  rw [htarget, hdifficulty]
  dsimp only [bind, Except.bind]
  unfold AionJob.create uint256
  rw [dif_pos hlen]
  rfl

theorem newJob_of_constructs {template : ReceivedTemplate} {answers : Answers}
    (h : Constructs conversions template answers) (id headerHash : Text) :
    ∃ job, newJob conversions id template headerHash answers = .ok job ∧
      job.blockTemplate.headerHash = headerHash := by
  obtain ⟨target, difficulty, htarget, hlen, hdifficulty⟩ := h
  exact ⟨_, newJob_of_difficulty htarget hlen hdifficulty id headerHash, rfl⟩

theorem newJob_of_not_constructs {template : ReceivedTemplate} {answers : Answers}
    (h : ¬ Constructs conversions template answers) (id headerHash : Text) :
    ∃ e, newJob conversions id template headerHash answers = .error e := by
  unfold newJob
  cases htarget : template.target with
  | none => exact ⟨_, rfl⟩
  | some target =>
    cases hdifficulty : getNetworkDifficulty conversions answers with
    | error e => exact ⟨_, rfl⟩
    | ok difficulty =>
      have hlen : (hexToReverseByteArray (skip0x target)).length ≠ 32 := fun hlen =>
        h ⟨target, difficulty, htarget, hlen, hdifficulty⟩
      refine ⟨.format, ?_⟩
      dsimp only [bind, Except.bind]
      unfold AionJob.create uint256
      rw [dif_neg hlen]
      rfl

/-- The job is installed before the statistics are read. -/
theorem installJob_of_constructs {template : ReceivedTemplate} {answers : Answers}
    (h : Constructs conversions template answers) (m : JobState) (headerHash : Text) :
    ∃ job m', job.blockTemplate.headerHash = headerHash ∧ m'.currentJob = some job ∧
      (¬ StatsFail conversions answers ∧
          (installJob conversions answers template headerHash).run m = .ok true m' ∨
        StatsFail conversions answers ∧
          ∃ e, (installJob conversions answers template headerHash).run m = .error e m') := by
  obtain ⟨id, jobId, hid⟩ :
      ∃ id jobId, nextJobId.run m = .ok id { m with jobId := jobId } := ⟨_, _, rfl⟩
  obtain ⟨job, hjob, hheader⟩ := newJob_of_constructs h id headerHash
  unfold installJob
  rw [run_bind_ok hid, run_bind_ok (run_ofExcept_ok hjob _)]
  cases hstats : getNetworkAndMinerHashRate conversions answers with
  | ok rates =>
    refine ⟨job, _, hheader, ?_, Or.inl ⟨?_, rfl⟩⟩
    · rfl
    · rintro ⟨e, he⟩
      exact absurd (hstats.symm.trans he) (by simp)
  | error e => exact ⟨job, _, hheader, rfl, Or.inr ⟨⟨e, hstats⟩, e, rfl⟩⟩

/-- A constructor that throws leaves the jobs as they are. -/
theorem installJob_of_not_constructs {template : ReceivedTemplate} {answers : Answers}
    (h : ¬ Constructs conversions template answers) (m : JobState) (headerHash : Text) :
    ∃ e m', (installJob conversions answers template headerHash).run m = .error e m' ∧
      m'.currentJob = m.currentJob ∧ m'.validJobs = m.validJobs := by
  obtain ⟨id, jobId, hid⟩ :
      ∃ id jobId, nextJobId.run m = .ok id { m with jobId := jobId } := ⟨_, _, rfl⟩
  obtain ⟨e, he⟩ := newJob_of_not_constructs h id headerHash
  unfold installJob
  rw [run_bind_ok hid]
  exact ⟨e, _, run_bind_error (run_ofExcept_error he _), rfl, rfl⟩

/-- What `UpdateJob` does behind its checks. -/
theorem call_of_usable {m : JobState} {answers : Answers}
    {response : DaemonResponse ReceivedTemplate} {template : ReceivedTemplate} {headerHash : Text}
    (hwork : answers.getWork = .ok response)
    (husable : ReceivedTemplate.usable response.response = some (template, headerHash))
    (hnew : isNew m.currentJob headerHash = true) :
    call conversions m answers =
      match (installJob conversions answers template headerHash).run m with
      | .ok result m => (result, m)
      | .error _ m => (false, m) := by
  have hcore : (updateJob conversions answers response.response).run m =
      match (installJob conversions answers template headerHash).run m with
      | .ok result m => .ok result m
      | .error _ m => .ok false m := by
    unfold updateJob
    rw [husable]
    have hinstall : ∀ x, (installJob conversions answers template headerHash).run m = x →
        (do
          let s ← get
          if isNew s.currentJob headerHash then
            installJob conversions answers template headerHash
          else return false : Update Bool).run m = x := by
      intro x hx
      rw [EStateM.run_bind, EStateM.run_get]
      dsimp only
      rw [if_pos hnew, hx]
    cases hrun : (installJob conversions answers template headerHash).run m with
    | ok result m' => exact run_tryCatch_ok (hinstall _ hrun)
    | error e m' => exact run_tryCatch_error (hinstall _ hrun)
  have hcall : (updateJobAsync conversions answers).run m =
      (updateJob conversions answers response.response).run m := by
    unfold updateJobAsync
    cases hrun : (updateJob conversions answers response.response).run m with
    | ok result m' =>
      exact run_tryCatch_ok ((run_bind_ok (run_ofExcept_ok hwork m)).trans hrun)
    | error e m' =>
      rw [hcore] at hrun
      split at hrun
      · exact nomatch hrun
      · exact nomatch hrun
  unfold call
  rw [hcall, hcore]
  cases (installJob conversions answers template headerHash).run m with
  | ok result m' => rfl
  | error e m' => rfl

/-- A call that returns `false` without a change. -/
theorem call_of_unchanged {m : JobState} {answers : Answers}
    {response : DaemonResponse ReceivedTemplate} (hwork : answers.getWork = .ok response)
    (h : (updateJob conversions answers response.response).run m = .ok false m) :
    call conversions m answers = (false, m) := by
  unfold call updateJobAsync
  rw [run_tryCatch_ok ((run_bind_ok (run_ofExcept_ok hwork m)).trans h)]

theorem updateJob_of_not_new {m : JobState} {answers : Answers}
    {blockTemplate : Option ReceivedTemplate} {template : ReceivedTemplate} {headerHash : Text}
    (husable : ReceivedTemplate.usable blockTemplate = some (template, headerHash))
    (hnew : isNew m.currentJob headerHash = false) :
    (updateJob conversions answers blockTemplate).run m = .ok false m := by
  unfold updateJob
  rw [husable]
  refine run_tryCatch_ok ?_
  dsimp only
  rw [EStateM.run_bind, EStateM.run_get]
  dsimp only
  rw [if_neg (by simp [hnew])]
  rfl

/-- A call whose answers make a job installs it, and returns `true` when the statistics can be
read. -/
theorem call_of_makesJob {m : JobState} {answers : Answers}
    (h : MakesJob conversions m answers) :
    (∃ job, (call conversions m answers).2.currentJob = some job) ∧
      (call conversions m answers).2.currentJob ≠ m.currentJob ∧
      ((call conversions m answers).1 = true ↔ ¬ StatsFail conversions answers) := by
  obtain ⟨response, template, headerHash, hwork, husable, hnew, hconstructs⟩ := h
  obtain ⟨job, m', hheader, hjob, hrun⟩ := installJob_of_constructs hconstructs m headerHash
  rw [call_of_usable hwork husable hnew]
  have hne : m'.currentJob ≠ m.currentJob := by
    intro heq
    unfold isNew at hnew
    rw [← heq, hjob] at hnew
    exact of_decide_eq_true hnew hheader
  rcases hrun with ⟨hstats, hrun⟩ | ⟨hstats, e, hrun⟩
  · rw [hrun]
    exact ⟨⟨job, hjob⟩, hne, iff_of_true rfl hstats⟩
  · rw [hrun]
    exact ⟨⟨job, hjob⟩, hne, iff_of_false (by simp) (not_not.mpr hstats)⟩

variable (conversions) in
/-- A call does nothing, or the daemon has answered with a template for another job. -/
theorem call_unchanged_or_usable (m : JobState) (answers : Answers) :
    call conversions m answers = (false, m) ∨
      ∃ response template headerHash, answers.getWork = .ok response ∧
        ReceivedTemplate.usable response.response = some (template, headerHash) ∧
        isNew m.currentJob headerHash = true := by
  cases hwork : answers.getWork with
  | error e =>
    left
    unfold call updateJobAsync
    rw [run_tryCatch_error (run_bind_error (run_ofExcept_error hwork m))]
    rfl
  | ok response =>
    cases husable : ReceivedTemplate.usable response.response with
    | none => exact Or.inl (call_of_unchanged hwork (by unfold updateJob; rw [husable]; rfl))
    | some usable =>
      cases hnew : isNew m.currentJob usable.2 with
      | false => exact Or.inl (call_of_unchanged hwork (updateJob_of_not_new husable hnew))
      | true => exact Or.inr ⟨response, usable.1, usable.2, rfl, husable, hnew⟩

/-- A call whose answers make no job returns `false` and leaves the jobs as they are. -/
theorem call_of_not_makesJob {m : JobState} {answers : Answers}
    (h : ¬ MakesJob conversions m answers) :
    (call conversions m answers).1 = false ∧
      (call conversions m answers).2.currentJob = m.currentJob ∧
      (call conversions m answers).2.validJobs = m.validJobs := by
  rcases call_unchanged_or_usable conversions m answers with
    hcall | ⟨response, template, headerHash, hwork, husable, hnew⟩
  · rw [hcall]
    exact ⟨rfl, rfl, rfl⟩
  · have hconstructs : ¬ Constructs conversions template answers := fun hconstructs =>
      h ⟨response, template, headerHash, hwork, husable, hnew, hconstructs⟩
    obtain ⟨e, m', hrun, hcurrent, hvalid⟩ :=
      installJob_of_not_constructs hconstructs m headerHash
    rw [call_of_usable hwork husable hnew, hrun]
    exact ⟨rfl, hcurrent, hvalid⟩

/-! ## Whole runs -/

/-- A call loses no job exactly when it does not fail to read the statistics once it has made
one. -/
theorem jobKept_iff (s : State) (answers : Answers) :
    JobKept conversions s answers ↔
      ¬ (MakesJob conversions s.manager answers ∧ StatsFail conversions answers) := by
  by_cases hmakes : MakesJob conversions s.manager answers
  · obtain ⟨-, hne, hresult⟩ := call_of_makesJob hmakes
    constructor
    · rintro hkept ⟨-, hstats⟩
      exact hresult.mp (hkept.result.mpr hne) hstats
    · intro hstats
      have htrue := hresult.mpr fun h => hstats ⟨hmakes, h⟩
      refine ⟨iff_of_true htrue hne, fun s' hs' _ => ?_, fun hfalse => ?_⟩
      · obtain rfl := Option.some.inj hs'
        exact if_pos htrue
      · exact absurd (htrue.symm.trans hfalse) (by simp)
  · obtain ⟨hfalse, hcurrent, hvalid⟩ := call_of_not_makesJob hmakes
    refine iff_of_true ⟨?_, fun s' hs' hne => ?_, fun _ => ⟨hcurrent, hvalid⟩⟩
      fun h => hmakes h.1
    · exact iff_of_false (by simp [hfalse]) (not_not.mpr hcurrent)
    · obtain rfl := Option.some.inj hs'
      exact absurd hcurrent hne

theorem step_eq (s : State) (answers : Answers) :
    step conversions s answers = some
      { manager := (call conversions s.manager answers).2
        published :=
          if (call conversions s.manager answers).1 then
            s.published ++
              [getJobParamsForStratum (call conversions s.manager answers).2.currentJob]
          else s.published } := rfl

/-- The miners were told last about the job that is current. -/
def Told (s : State) : Prop :=
  s.published.getLast? = s.manager.currentJob.map fun job => getJobParamsForStratum (some job)

theorem told_step (s : State) (answers : Answers) (s' : State) (hI : Told s)
    (hG : ¬ (MakesJob conversions s.manager answers ∧ StatsFail conversions answers))
    (h : step conversions s answers = some s') : Told s' := by
  have hkept := (jobKept_iff s answers).mpr hG
  rw [step_eq] at h
  obtain rfl := Option.some.inj h
  unfold Told
  dsimp only
  cases hresult : (call conversions s.manager answers).1 with
  | true =>
    have hmakes : MakesJob conversions s.manager answers := by
      by_contra hnot
      exact absurd ((call_of_not_makesJob hnot).1.symm.trans hresult) (by simp)
    obtain ⟨⟨job, hjob⟩, -⟩ := call_of_makesJob hmakes
    rw [if_pos rfl, List.getLast?_concat, hjob]
    rfl
  | false =>
    rw [if_neg (by simp), (hkept.unchanged hresult).1]
    exact hI

/-- A manager that has no job. -/
def State.init (poolId : String) (clusterName : Option String) : State where
  manager :=
    { poolId := poolId
      clusterName := clusterName
      validJobs := fun _ => none
      currentJob := none
      jobId := 0
      lastNetworkBlockTime := none
      blockHeight := 0
      networkHashrate := .fin 0
      poolHashRate := .fin 0 }
  published := []

variable (conversions)

/-- **No job is lost** in a run exactly when no query for the statistics fails in a call that has
made a job; the miners were then told last about the job that is current. -/
theorem jobs_kept_iff (poolId : String) (clusterName : Option String) (ticks : List Answers) :
    (Along (step conversions) (JobKept conversions) (State.init poolId clusterName) ticks ↔
      Along (step conversions) (fun s answers =>
        ¬ (MakesJob conversions s.manager answers ∧ StatsFail conversions answers))
        (State.init poolId clusterName) ticks) ∧
    ∀ s, Along (step conversions) (JobKept conversions) (State.init poolId clusterName) ticks →
      run (step conversions) (State.init poolId clusterName) ticks = some s → Told s := by
  refine ⟨along_congr jobKept_iff, fun s hkept hrun => ?_⟩
  have hinit : Told (State.init poolId clusterName) := rfl
  exact run_invariant told_step hinit ((along_congr jobKept_iff).mp hkept) hrun

/-- Conversions that read the texts of the sample answers as the runtime does. -/
def sampleConversions : Conversions where
  toInt32
    | none => .ok 0
    | some value => fromHex value
  toDouble
    | none => .ok (.fin 0)
    | some value => if value = ascii "5" then .ok (.fin 5) else .error .format

/-- A template with the target `2 ^ 254`, and statistics that are there or not. -/
def sampleAnswers (headerHash : String) (stats : Bool) : Answers where
  getWork := .ok
    { response := some
        { height := 7
          headerHash := some (ascii headerHash)
          target := some (ascii "40" ++ List.replicate 62 48) }
      error := none }
  getDifficulty := .ok { response := some (ascii "0x4"), error := none }
  getMinerStats := .ok
    { response := if stats then some ⟨some (ascii "5"), some (ascii "5")⟩ else none
      error := none }
  now := 0

/-- Two templates, the second of which comes twice: the jobs are kept, and the last is told. -/
theorem jobs_kept_three_ticks :
    Along (step sampleConversions) (JobKept sampleConversions) (State.init "aion" none)
        [sampleAnswers "a0" true, sampleAnswers "b0" true, sampleAnswers "b0" true] ∧
      ∀ s, run (step sampleConversions) (State.init "aion" none)
        [sampleAnswers "a0" true, sampleAnswers "b0" true, sampleAnswers "b0" true] = some s →
        Told s := by
  have hstats : ∀ headerHash,
      ¬ StatsFail sampleConversions (sampleAnswers headerHash true) := by
    rintro headerHash ⟨e, he⟩
    have hok : getNetworkAndMinerHashRate sampleConversions (sampleAnswers headerHash true) =
        .ok (.fin 5, .fin 5) := rfl
    exact absurd (hok.symm.trans he) (by simp)
  obtain ⟨hiff, htold⟩ := jobs_kept_iff sampleConversions "aion" none
    [sampleAnswers "a0" true, sampleAnswers "b0" true, sampleAnswers "b0" true]
  have hkept := hiff.mpr
    ⟨fun h => hstats _ h.2, fun _ _ => ⟨fun h => hstats _ h.2, fun _ _ =>
      ⟨fun h => hstats _ h.2, fun _ _ => trivial⟩⟩⟩
  exact ⟨hkept, fun s hrun => htold s hkept hrun⟩

/-- The statistics fail once: the job is current, and never published. -/
theorem job_lost :
    ∃ ticks s, run (step sampleConversions) (State.init "aion" none) ticks = some s ∧
      s.manager.currentJob.isSome = true ∧ s.published = [] ∧
      ¬ Along (step sampleConversions) (JobKept sampleConversions) (State.init "aion" none)
        ticks := by
  have hfacts : (run (step sampleConversions) (State.init "aion" none)
      [sampleAnswers "a0" false, sampleAnswers "a0" true]).map
        (fun s => (s.manager.currentJob.isSome, s.published)) = some (true, []) := by
    decide +kernel
  obtain ⟨s, hs, hfacts⟩ := Option.map_eq_some_iff.mp hfacts
  obtain ⟨hsome, hpublished⟩ := Prod.mk.inj hfacts
  refine ⟨_, s, hs, hsome, hpublished, fun hkept => (jobKept_iff _ _).mp hkept.1 ⟨?_, _, rfl⟩⟩
  exact ⟨_, _, _, rfl, rfl, rfl, _, 4, rfl, by decide, rfl⟩

end AionPool.Aion.UpdateJob
