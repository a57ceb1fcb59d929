import AionPool.Aion.UpdateJob

/-!
# The jobs that are valid

`validJobs` has the jobs a share may name: `UpdateJob` adds the new job and removes those that are
more than `MaxBlockBacklog` blocks behind it. The heights of the templates need not rise, and the
test subtracts unsigned numbers before it compares signed ones.

* `obsolete_iff`: the test is the comparison it stands for, also where the subtraction wraps.
* `callEffect`: what a call does to the jobs and to the counter of their ids.
* **`job_window`**: which jobs are valid, after every call of a run.

About `AionJobManager.cs:217-275` and `JobManagerBase.cs:87-96`, call after call.
-/

namespace AionPool.Aion.JobWindow

open AionPool.Extensions AionPool.Lib.Effects AionPool.Lib.Run UpdateJob

/-! ## Data -/

/-- The manager, the jobs it has installed, and the number of jobs it has begun. A job draws its id
before its constructor runs, which may throw. -/
structure Window where
  manager : JobState
  installed : List AionJob
  begun : ℕ

/-- The job a call has installed: the current one, when it has another header hash than before. -/
def installedBy (m m' : JobState) : Option AionJob :=
  if m'.currentJob.map (·.blockTemplate.headerHash) =
      m.currentJob.map (·.blockTemplate.headerHash) then none
  else m'.currentJob

/-- The number of ids a call has drawn. -/
def idsDrawn (m m' : JobState) : ℕ := if m'.jobId = m.jobId then 0 else 1

variable (conversions : Conversions)

/-- A call of `UpdateJobAsync`. -/
def windowStep (s : Window) (answers : Answers) : Option Window :=
  let manager := (call conversions s.manager answers).2
  some {
    manager := manager
    installed := s.installed ++ (installedBy s.manager manager).toList
    begun := s.begun + idsDrawn s.manager manager }

/-- A manager that has no job. -/
def Window.init (poolId : String) (clusterName : Option String) : Window where
  manager := (UpdateJob.State.init poolId clusterName).manager
  installed := []
  begun := 0

/-- The template a call is about, when the daemon answers with one. -/
def receivedTemplate (answers : Answers) : Option ReceivedTemplate :=
  match answers.getWork with
  | .ok response => response.response
  | .error _ => none

/-- The height of the template is below `2 ^ 63`. -/
def HeightFits (answers : Answers) : Prop :=
  ∀ template ∈ receivedTemplate answers, template.height.toNat < 2 ^ 63

/-! ## The valid jobs -/

/-- The height of a job. -/
def height (job : AionJob) : ℕ := job.blockTemplate.height.toNat

/-- The valid jobs after a call. -/
structure Sound (s : Window) : Prop where
  last : s.manager.currentJob = s.installed.getLast?
  current : ∀ job, s.manager.currentJob = some job → s.manager.validJobs job.id = some job
  backlog : ∀ job key valid, s.manager.currentJob = some job →
    s.manager.validJobs key = some valid → height job - 3 ≤ height valid
  installed : ∀ key valid, s.manager.validJobs key = some valid →
    valid ∈ s.installed ∧ valid.id = key
  ids : (s.installed.map AionJob.id).Nodup
  removed : ∀ job ∈ s.installed, s.manager.validJobs job.id = some job ∨
    ∃ later ∈ s.installed, height job + 3 < height later

/-- A call removes only jobs that are more than three blocks behind the one it installs. -/
def RemovesObsolete (s s' : Window) : Prop :=
  ∀ key job, s.manager.validJobs key = some job → s'.manager.validJobs key ≠ some job →
    ∃ later, installedBy s.manager s'.manager = some later ∧ later ∈ s'.installed ∧
      height job + 3 < height later

/-! ## The test for obsolete jobs -/

theorem toInt_toInt64_of_lt {x : UInt64} (h : x.toNat < 2 ^ 63) : x.toInt64.toInt = x.toNat := by
  have hbmod : x.toInt64.toInt = Int.bmod (x.toNat : ℤ) (2 ^ 64) :=
    BitVec.toInt_eq_toNat_bmod x.toBitVec
  rw [hbmod, Int.bmod_eq_of_le (by omega) (by omega)]

/-- The unsigned difference wraps below three, and is negative as a `long`: nothing is obsolete. -/
theorem obsolete_iff {valid current : UInt64} (hvalid : valid.toNat < 2 ^ 63)
    (hcurrent : current.toNat < 2 ^ 63) :
    valid.toInt64 < (current - maxBlockBacklog).toInt64 ↔ valid.toNat + 3 < current.toNat := by
  have hbacklog : maxBlockBacklog.toInt64.toInt = 3 := by decide
  rw [Int64.lt_iff_toInt_lt, UInt64.toInt64_sub, Int64.toInt_sub, toInt_toInt64_of_lt hvalid,
    toInt_toInt64_of_lt hcurrent, hbacklog, Int.bmod_eq_of_le (by omega) (by omega)]
  omega

/-- What is valid once a job is added. -/
theorem addJob_eq_some {validJobs : Text → Option AionJob} {job valid : AionJob} {key : Text}
    (hjob : height job < 2 ^ 63) (hvalid : height valid < 2 ^ 63) :
    addJob validJobs job key = some valid ↔
      Function.update validJobs job.id (some job) key = some valid ∧
        height job ≤ height valid + 3 := by
  unfold addJob
  rw [Option.filter_eq_some_iff, decide_eq_true_eq, obsolete_iff hvalid hjob, not_lt]
  rfl

/-! ## What a call does -/

theorem mem_of_usable {blockTemplate : Option ReceivedTemplate} {template : ReceivedTemplate}
    {headerHash : Text}
    (h : ReceivedTemplate.usable blockTemplate = some (template, headerHash)) :
    template ∈ blockTemplate := by
  unfold ReceivedTemplate.usable at h
  obtain ⟨t, ht, h⟩ := Option.bind_eq_some_iff.mp h
  obtain ⟨hash, -, h⟩ := Option.bind_eq_some_iff.mp h
  split at h
  · exact nomatch h
  · obtain ⟨rfl, -⟩ := Prod.mk.inj (Option.some.inj h)
    exact ht

theorem nextJobId_ok {m m' : JobState} {id : Text}
    (h : nextJobId.run m = .ok id { m with jobId := m'.jobId }) :
    id = hexPadded 8 (m.jobId + 1).toUInt32.toNat ∧
      m'.jobId = if m.jobId + 1 = Int32.minValue then 0 else m.jobId + 1 := by
  have hrun : nextJobId.run m = .ok (hexPadded 8 (m.jobId + 1).toUInt32.toNat)
      { m with jobId := if m.jobId + 1 = Int32.minValue then 0 else m.jobId + 1 } := rfl
  rw [h] at hrun
  injection hrun with hid hstate
  exact ⟨hid, congrArg JobState.jobId hstate⟩

theorem toNat_succ (jobId : Int32) :
    (jobId + 1).toUInt32.toNat = (jobId.toUInt32.toNat + 1) % 2 ^ 32 := by
  rw [Int32.toUInt32_add, UInt32.toNat_add]
  rfl

/-- Below `2 ^ 31` ids, the id that is drawn has the number of those drawn so far. -/
theorem nextJobId_counter {m m' : JobState} {id : Text} {begun : ℕ}
    (hcounter : m.jobId.toUInt32.toNat = begun) (hbegun : begun + 1 < 2 ^ 31)
    (h : nextJobId.run m = .ok id { m with jobId := m'.jobId }) :
    id = hexPadded 8 (begun + 1) ∧ m'.jobId.toUInt32.toNat = begun + 1 := by
  have hvalue : (m.jobId + 1).toUInt32.toNat = begun + 1 := by
    rw [toNat_succ, hcounter]
    exact Nat.mod_eq_of_lt (hbegun.trans (by norm_num))
  have hmin : m.jobId + 1 ≠ Int32.minValue := by
    intro hmin
    rw [hmin] at hvalue
    have hminValue : Int32.minValue.toUInt32.toNat = 2 ^ 31 := rfl
    omega
  obtain ⟨hid, hjobId⟩ := nextJobId_ok h
  rw [hid, hjobId, if_neg hmin]
  exact ⟨congrArg _ hvalue, hvalue⟩

/-- An id that is drawn changes the counter, also where it wraps. -/
theorem nextJobId_ne {m m' : JobState} {id : Text}
    (h : nextJobId.run m = .ok id { m with jobId := m'.jobId }) : m'.jobId ≠ m.jobId := by
  rw [(nextJobId_ok h).2]
  split
  · rename_i hmin
    intro hzero
    rw [← hzero] at hmin
    exact absurd hmin (by decide)
  · intro heq
    have hnat := toNat_succ m.jobId
    rw [heq] at hnat
    omega

/-- What a call does to the jobs, and to the counter of their ids. -/
inductive CallEffect (m : JobState) (answers : Answers) (m' : JobState) : Prop where
  | unchanged (jobId : m'.jobId = m.jobId) (currentJob : m'.currentJob = m.currentJob)
      (validJobs : m'.validJobs = m.validJobs)
  | thrown (id : Text) (jobId : nextJobId.run m = .ok id { m with jobId := m'.jobId })
      (currentJob : m'.currentJob = m.currentJob) (validJobs : m'.validJobs = m.validJobs)
  | installed (job : AionJob) (jobId : nextJobId.run m = .ok job.id { m with jobId := m'.jobId })
      (template : ReceivedTemplate) (received : template ∈ receivedTemplate answers)
      (height : job.blockTemplate.height = template.height)
      (isNew : isNew m.currentJob job.blockTemplate.headerHash = true)
      (currentJob : m'.currentJob = some job) (validJobs : m'.validJobs = addJob m.validJobs job)

variable {conversions}

/-- The two ways in which `installJob` can go, once it has drawn an id. -/
theorem callEffect_installJob {m : JobState} {answers : Answers} {template : ReceivedTemplate}
    {headerHash : Text} (hreceived : template ∈ receivedTemplate answers)
    (hnew : isNew m.currentJob headerHash = true) {r : Bool × JobState}
    (hr : r = match (installJob conversions answers template headerHash).run m with
      | .ok result m => (result, m)
      | .error _ m => (false, m)) : CallEffect m answers r.2 := by
  obtain ⟨id, jobId, hid⟩ :
      ∃ id jobId, nextJobId.run m = .ok id { m with jobId := jobId } := ⟨_, _, rfl⟩
  unfold installJob at hr
  by_cases hconstructs : Constructs conversions template answers
  · obtain ⟨target, difficulty, htarget, hlen, hdifficulty⟩ := hconstructs
    have hjob := newJob_of_difficulty htarget hlen hdifficulty id headerHash
    rw [run_bind_ok hid, run_bind_ok (run_ofExcept_ok hjob _)] at hr
    subst hr
    cases hstats : getNetworkAndMinerHashRate conversions answers with
    | ok rates => exact .installed _ hid template hreceived rfl hnew rfl rfl
    | error e => exact .installed _ hid template hreceived rfl hnew rfl rfl
  · obtain ⟨e, he⟩ := newJob_of_not_constructs hconstructs id headerHash
    rw [run_bind_ok hid, run_bind_error (run_ofExcept_error he _)] at hr
    subst hr
    exact .thrown id hid rfl rfl

variable (conversions) in
theorem callEffect (m : JobState) (answers : Answers) :
    CallEffect m answers (call conversions m answers).2 := by
  rcases call_unchanged_or_usable conversions m answers with
    hcall | ⟨response, template, headerHash, hwork, husable, hnew⟩
  · rw [hcall]
    exact .unchanged rfl rfl rfl
  · have hreceived : template ∈ receivedTemplate answers := by
      unfold receivedTemplate
      rw [hwork]
      exact mem_of_usable husable
    exact callEffect_installJob hreceived hnew (call_of_usable hwork husable hnew)

theorem installedBy_of_eq {m m' : JobState} (h : m'.currentJob = m.currentJob) :
    installedBy m m' = none := by
  unfold installedBy
  rw [h, if_pos rfl]

theorem installedBy_of_isNew {m m' : JobState} {job : AionJob} (h : m'.currentJob = some job)
    (hnew : isNew m.currentJob job.blockTemplate.headerHash = true) :
    installedBy m m' = some job := by
  have hne : m'.currentJob.map (·.blockTemplate.headerHash) ≠
      m.currentJob.map (·.blockTemplate.headerHash) := by
    rw [h]
    cases hcurrent : m.currentJob with
    | none => exact Option.some_ne_none _
    | some current =>
      rw [hcurrent] at hnew
      exact fun heq => of_decide_eq_true hnew (Option.some.inj heq).symm
  unfold installedBy
  rw [if_neg hne, h]

/-! ## The invariant -/

/-- Below `2 ^ 31` jobs begun, the jobs installed have different numbers. -/
structure Invariant (s : Window) : Prop extends Sound s where
  counter : s.manager.jobId.toUInt32.toNat = s.begun
  numbered : ∀ job ∈ s.installed, ∃ k ≤ s.begun, job.id = hexPadded 8 k
  heights : ∀ job ∈ s.installed, height job < 2 ^ 63

/-- The id of a job that is begun is not the id of one that is installed. -/
theorem Invariant.fresh {s : Window} (hI : Invariant s) {old : AionJob} (hold : old ∈ s.installed) :
    old.id ≠ hexPadded 8 (s.begun + 1) := by
  obtain ⟨k, hk, hid⟩ := hI.numbered old hold
  rw [hid]
  intro heq
  have := hexPadded_injective heq
  omega

variable {s s' : Window} {answers : Answers} {job : AionJob}

/-- A call that installs no job may have begun one. -/
theorem invariant_of_eq (hI : Invariant s) (hcurrent : s'.manager.currentJob = s.manager.currentJob)
    (hvalid : s'.manager.validJobs = s.manager.validJobs) (hinstalled : s'.installed = s.installed)
    (hcounter : s'.manager.jobId.toUInt32.toNat = s'.begun) (hbegun : s.begun ≤ s'.begun) :
    Invariant s' where
  last := by rw [hcurrent, hinstalled, hI.last]
  current := by rw [hcurrent, hvalid]; exact hI.current
  backlog := by rw [hcurrent, hvalid]; exact hI.backlog
  installed := by rw [hvalid, hinstalled]; exact hI.installed
  ids := by rw [hinstalled]; exact hI.ids
  removed := by rw [hvalid, hinstalled]; exact hI.removed
  counter := hcounter
  numbered := by
    intro job hjob
    rw [hinstalled] at hjob
    obtain ⟨k, hk, hid⟩ := hI.numbered job hjob
    exact ⟨k, hk.trans hbegun, hid⟩
  heights := by rw [hinstalled]; exact hI.heights

/-- What is valid once a job is added was valid, or is that job. -/
theorem eq_or_valid_of_addJob {validJobs : Text → Option AionJob} {key : Text} {valid : AionJob}
    (h : addJob validJobs job key = some valid) :
    key = job.id ∧ valid = job ∨ key ≠ job.id ∧ validJobs key = some valid := by
  have hupdate := (Option.filter_eq_some_iff.mp h).1
  by_cases hkey : key = job.id
  · subst hkey
    rw [Function.update_self] at hupdate
    exact Or.inl ⟨rfl, (Option.some.inj hupdate).symm⟩
  · rw [Function.update_of_ne hkey] at hupdate
    exact Or.inr ⟨hkey, hupdate⟩

/-- The job that is added stays. -/
theorem addJob_self (validJobs : Text → Option AionJob) (hjob : height job < 2 ^ 63) :
    addJob validJobs job job.id = some job :=
  (addJob_eq_some hjob hjob).mpr ⟨Function.update_self _ _ _, by omega⟩

/-- A valid job stays exactly when the job that is added is at most three blocks above it. -/
theorem addJob_of_valid {validJobs : Text → Option AionJob} {key : Text} {valid : AionJob}
    (hjob : height job < 2 ^ 63) (hheight : height valid < 2 ^ 63) (hkey : key ≠ job.id)
    (hvalid : validJobs key = some valid) :
    addJob validJobs job key = some valid ↔ height job ≤ height valid + 3 := by
  rw [addJob_eq_some hjob hheight, Function.update_of_ne hkey]
  exact and_iff_right hvalid

/-- Every job that is valid afterwards has been installed, and is found under its id. -/
theorem installed_of_addJob (hI : Sound s) {key : Text} {valid : AionJob}
    (h : addJob s.manager.validJobs job key = some valid) :
    valid ∈ s.installed ++ [job] ∧ valid.id = key := by
  rcases eq_or_valid_of_addJob h with ⟨rfl, rfl⟩ | ⟨-, hold⟩
  · exact ⟨List.mem_append_right _ (List.mem_singleton_self _), rfl⟩
  · obtain ⟨hold, hid⟩ := hI.installed key valid hold
    exact ⟨List.mem_append_left _ hold, hid⟩

/-- A job that has been installed is still valid, or another one is more than three blocks above
it. -/
theorem kept_or_removed (hI : Invariant s) (hfresh : ∀ old ∈ s.installed, old.id ≠ job.id)
    (hheight : height job < 2 ^ 63) {old : AionJob} (hold : old ∈ s.installed) :
    addJob s.manager.validJobs job old.id = some old ∨
      ∃ later ∈ s.installed ++ [job], height old + 3 < height later := by
  rcases hI.removed old hold with hkept | ⟨later, hlater, hlt⟩
  · by_cases hle : height job ≤ height old + 3
    · exact Or.inl
        ((addJob_of_valid hheight (hI.heights old hold) (hfresh old hold) hkept).mpr hle)
    · exact Or.inr
        ⟨job, List.mem_append_right _ (List.mem_singleton_self _), not_le.mp hle⟩
  · exact Or.inr ⟨later, List.mem_append_left _ hlater, hlt⟩

/-- **A call that installs a job** removes the jobs that are more than three blocks behind it, and
no others. -/
theorem sound_install (hI : Invariant s) (hfresh : ∀ old ∈ s.installed, old.id ≠ job.id)
    (hheight : height job < 2 ^ 63) (hcurrent : s'.manager.currentJob = some job)
    (hvalid : s'.manager.validJobs = addJob s.manager.validJobs job)
    (hinstalled : s'.installed = s.installed ++ [job]) : Sound s' := by
  have hheights : ∀ valid ∈ s.installed ++ [job], height valid < 2 ^ 63 :=
    List.forall_mem_append.mpr ⟨hI.heights, List.forall_mem_singleton.mpr hheight⟩
  have hself := addJob_self s.manager.validJobs hheight
  constructor
  · rw [hcurrent, hinstalled, List.getLast?_concat]
  · intro current hcurrent'
    obtain rfl := Option.some.inj (hcurrent.symm.trans hcurrent')
    rw [hvalid]
    exact hself
  · intro current key valid hcurrent' hkey
    obtain rfl := Option.some.inj (hcurrent.symm.trans hcurrent')
    rw [hvalid] at hkey
    have hbound := hheights valid (installed_of_addJob hI.toSound hkey).1
    have hle := ((addJob_eq_some hheight hbound).mp hkey).2
    omega
  · intro key valid hkey
    rw [hvalid] at hkey
    rw [hinstalled]
    exact installed_of_addJob hI.toSound hkey
  · rw [hinstalled, List.map_append, List.map_singleton, ← List.concat_eq_append]
    refine hI.ids.concat fun hid => ?_
    obtain ⟨old, hold, heq⟩ := List.mem_map.mp hid
    exact hfresh old hold heq
  · rw [hinstalled, hvalid]
    refine List.forall_mem_append.mpr
      ⟨fun old hold => kept_or_removed hI hfresh hheight hold, ?_⟩
    exact List.forall_mem_singleton.mpr (Or.inl hself)

theorem invariant_install (hI : Invariant s) (hid : job.id = hexPadded 8 (s.begun + 1))
    (hheight : height job < 2 ^ 63) (hcurrent : s'.manager.currentJob = some job)
    (hvalid : s'.manager.validJobs = addJob s.manager.validJobs job)
    (hinstalled : s'.installed = s.installed ++ [job])
    (hcounter : s'.manager.jobId.toUInt32.toNat = s'.begun) (hbegun : s'.begun = s.begun + 1) :
    Invariant s' where
  toSound := sound_install hI (fun _ hold => hid ▸ hI.fresh hold) hheight hcurrent hvalid hinstalled
  counter := hcounter
  numbered := by
    rw [hinstalled, hbegun, List.forall_mem_append, List.forall_mem_singleton]
    refine ⟨fun old hold => ?_, _, le_rfl, hid⟩
    obtain ⟨k, hk, hidOld⟩ := hI.numbered old hold
    exact ⟨k, hk.trans (Nat.le_succ _), hidOld⟩
  heights := by
    rw [hinstalled, List.forall_mem_append, List.forall_mem_singleton]
    exact ⟨hI.heights, hheight⟩

/-- What such a call removes is obsolete. -/
theorem removesObsolete_install (hI : Invariant s)
    (hfresh : ∀ old ∈ s.installed, old.id ≠ job.id) (hheight : height job < 2 ^ 63)
    (hinstalledBy : installedBy s.manager s'.manager = some job)
    (hvalid : s'.manager.validJobs = addJob s.manager.validJobs job)
    (hinstalled : s'.installed = s.installed ++ [job]) : RemovesObsolete s s' := by
  intro key old hkey hgone
  obtain ⟨hold, rfl⟩ := hI.installed key old hkey
  rw [hvalid, Ne, addJob_of_valid hheight (hI.heights old hold) (hfresh old hold) hkey,
    not_le] at hgone
  rw [hinstalled]
  exact ⟨job, hinstalledBy, List.mem_append_right _ (List.mem_singleton_self _), hgone⟩

/-- **One call** keeps the invariant, and removes only what is obsolete. -/
theorem invariant_step (hI : Invariant s) (hfits : HeightFits answers)
    (h : windowStep conversions s answers = some s') (hbegun : s'.begun < 2 ^ 31) :
    Invariant s' ∧ RemovesObsolete s s' := by
  have heffect := callEffect conversions s.manager answers
  unfold windowStep at h
  generalize (call conversions s.manager answers).2 = m' at heffect h
  obtain rfl := Option.some.inj h
  dsimp only at hbegun
  rcases heffect with ⟨jobId, currentJob, validJobs⟩ | ⟨id, jobId, currentJob, validJobs⟩ |
    ⟨job, jobId, template, received, hheight, isNew, currentJob, validJobs⟩
  · have hinstalled := installedBy_of_eq currentJob
    have hdrawn : idsDrawn s.manager m' = 0 := if_pos jobId
    rw [hinstalled, hdrawn, Option.toList_none, List.append_nil]
    refine ⟨invariant_of_eq hI currentJob validJobs rfl ?_ le_rfl, ?_⟩
    · exact (congrArg (·.toUInt32.toNat) jobId).trans hI.counter
    · exact fun key job hkey hgone => absurd ((congrFun validJobs key).trans hkey) hgone
  · have hinstalled := installedBy_of_eq currentJob
    have hdrawn : idsDrawn s.manager m' = 1 := if_neg (nextJobId_ne jobId)
    rw [hdrawn] at hbegun
    rw [hinstalled, hdrawn, Option.toList_none, List.append_nil]
    obtain ⟨-, hcounter⟩ := nextJobId_counter hI.counter hbegun jobId
    refine ⟨invariant_of_eq hI currentJob validJobs rfl hcounter (Nat.le_succ _), ?_⟩
    exact fun key job hkey hgone => absurd ((congrFun validJobs key).trans hkey) hgone
  · have hinstalledBy := installedBy_of_isNew currentJob isNew
    have hdrawn : idsDrawn s.manager m' = 1 := if_neg (nextJobId_ne jobId)
    rw [hdrawn] at hbegun
    obtain ⟨hid, hcounter⟩ := nextJobId_counter hI.counter hbegun jobId
    have hbound : height job < 2 ^ 63 := by
      unfold height
      rw [hheight]
      exact hfits template received
    rw [hinstalledBy, hdrawn, Option.toList_some]
    refine ⟨invariant_install hI hid hbound currentJob validJobs rfl hcounter rfl, ?_⟩
    exact removesObsolete_install hI (fun _ hold => hid ▸ hI.fresh hold) hbound hinstalledBy
      validJobs rfl

/-! ## Whole runs -/

theorem begun_le (h : windowStep conversions s answers = some s') : s.begun ≤ s'.begun := by
  obtain rfl := Option.some.inj h
  exact Nat.le_add_right _ _

theorem invariant_init (poolId : String) (clusterName : Option String) :
    Invariant (Window.init poolId clusterName) where
  last := rfl
  current := fun _ h => nomatch h
  backlog := fun _ _ _ h => nomatch h
  installed := fun _ _ h => nomatch h
  ids := List.nodup_nil
  removed := fun _ h => nomatch h
  counter := rfl
  numbered := fun _ h => nomatch h
  heights := fun _ h => nomatch h

variable (conversions)

/-- **The valid jobs** after every call of a run, whatever templates come, while fewer than `2 ^ 31`
jobs have been begun: the current job is one of them, none is more than three blocks behind it, no
two jobs share an id, and only a job that is more than three blocks above another removes it. -/
theorem job_window (poolId : String) (clusterName : Option String) (ticks : List Answers)
    (hfits : ∀ answers ∈ ticks, HeightFits answers) :
    Along (windowStep conversions)
      (fun s answers => ∀ s', windowStep conversions s answers = some s' → s'.begun < 2 ^ 31 →
        Sound s' ∧ RemovesObsolete s s')
      (Window.init poolId clusterName) ticks := by
  refine along_of_invariant (I := fun s => s.begun < 2 ^ 31 → Invariant s)
    (G := fun _ answers => HeightFits answers) ?_ ?_
    (fun _ => invariant_init poolId clusterName) (along_of_forall_mem hfits)
  · intro s answers hI hfits s' h hbegun
    obtain ⟨hI', hremoves⟩ := invariant_step (hI ((begun_le h).trans_lt hbegun)) hfits h hbegun
    exact ⟨hI'.toSound, hremoves⟩
  · intro s answers s' hI hfits h hbegun
    exact (invariant_step (hI ((begun_le h).trans_lt hbegun)) hfits h hbegun).1

/-- The sample answers, with a template of another height. -/
def atHeight (height : UInt64) (headerHash : String) : Answers :=
  { sampleAnswers headerHash true with
    getWork := .ok
      { response := some
          { height := height
            headerHash := some (ascii headerHash)
            target := some (ascii "40" ++ List.replicate 62 48) }
        error := none } }

/-- The heights 2, 9 and 5: the second job removes the first, and stays when the third comes. -/
theorem job_window_reorganised :
    Along (windowStep sampleConversions)
      (fun s answers => ∀ s', windowStep sampleConversions s answers = some s' →
        s'.begun < 2 ^ 31 → Sound s' ∧ RemovesObsolete s s')
      (Window.init "aion" none) [atHeight 2 "a0", atHeight 9 "b0", atHeight 5 "c0"] ∧
    (run (windowStep sampleConversions) (Window.init "aion" none)
      [atHeight 2 "a0", atHeight 9 "b0", atHeight 5 "c0"]).map (fun s =>
        (s.begun, s.installed.map fun job =>
          (height job, (s.manager.validJobs job.id).isSome))) =
      some (3, [(2, false), (9, true), (5, true)]) := by
  have hfits : ∀ (h : UInt64) (headerHash : String), h.toNat < 2 ^ 63 →
      HeightFits (atHeight h headerHash) := by
    intro h headerHash hlt template htemplate
    obtain rfl := Option.some.inj htemplate
    exact hlt
  refine ⟨job_window sampleConversions "aion" none _ ?_, by decide +kernel⟩
  intro answers hmem
  simp only [List.mem_cons, List.not_mem_nil, or_false] at hmem
  rcases hmem with rfl | rfl | rfl
  · exact hfits _ _ (by decide)
  · exact hfits _ _ (by decide)
  · exact hfits _ _ (by decide)

end AionPool.Aion.JobWindow
