import AionPool.Aion.Job
import AionPool.Lib.Run
import Mathlib.Logic.Relation

/-!
# Submissions in flight

Every line a client sends is processed in a task of its own. The tasks of a worker share the
dictionary of its nonces, and each of them looks at it before it changes it: `RegisterNonce`
installs a new dictionary when it saw none, over one that has been installed since, and does not
look whether `TryAdd` added the nonce.

* `reaches_registerNonce`: a task that is not disturbed does what `RegisterNonce` does.
* **`passed_once`**: in every run in which a dictionary is installed and a nonce is added only where
  there still is none, a nonce of a worker gets past `RegisterNonce` at most once.

Models `AionJob.cs:58-76`, one operation of a dictionary at a time.
-/

namespace AionPool.Aion.ConcurrentNonces

open AionPool.Extensions AionPool.Lib.Run AionJob

/-! ## Tasks -/

/-- What a task in `RegisterNonce` does next, or how it ended; `nonces` is the dictionary it got. -/
inductive Pc where
  | tryGetValue
  | install
  | tryGet (nonces : ℕ)
  | tryAdd (nonces : ℕ)
  | passed
  | rejected
  deriving DecidableEq

/-- A call of `RegisterNonce`. -/
structure Task where
  worker : String
  nonceLower : Text
  pc : Pc
  deriving DecidableEq

/-- `workerNonces`, and the dictionaries that were created. -/
structure Nonces where
  workerNonces : String → Option ℕ
  dictionaries : List (List Text)

/-- What is in a dictionary. -/
def Nonces.dictionary (s : Nonces) (nonces : ℕ) : List Text := (s.dictionaries[nonces]?).getD []

/-- `workerNonces[worker] = nonces`, for a new dictionary with one nonce. -/
def Nonces.install (s : Nonces) (worker : String) (nonceLower : Text) : Nonces where
  workerNonces := Function.update s.workerNonces worker (some s.dictionaries.length)
  dictionaries := s.dictionaries ++ [[nonceLower]]

/-- `nonces.TryAdd(nonceLower, true)`. -/
def Nonces.tryAdd (s : Nonces) (nonces : ℕ) (nonceLower : Text) : Nonces :=
  { s with dictionaries := s.dictionaries.modify nonces (List.insert nonceLower) }

/-- The next operation of a task on the shared dictionaries. -/
def perform (s : Nonces) (task : Task) : Option (Nonces × Pc) :=
  match task.pc with
  | .tryGetValue =>
    match s.workerNonces task.worker with
    | none => some (s, .install)
    | some nonces => some (s, .tryGet nonces)
  | .install => some (s.install task.worker task.nonceLower, .passed)
  | .tryGet nonces =>
    if (s.dictionary nonces).contains task.nonceLower then some (s, .rejected)
    else some (s, .tryAdd nonces)
  | .tryAdd nonces => some (s.tryAdd nonces task.nonceLower, .passed)
  | .passed => none
  | .rejected => none

/-- The dictionaries of a job, and the tasks. -/
structure State where
  nonces : Nonces
  tasks : List Task

/-- A submission gets to `RegisterNonce`, or a task takes its next step. -/
inductive Event where
  | submit (worker : String) (nonce : Text)
  | advance (i : ℕ)

variable (culture : Culture)

/-- A call of `RegisterNonce` that begins. -/
def Task.init (worker : String) (nonce : Text) : Task :=
  ⟨worker, culture.toLower nonce, .tryGetValue⟩

def step (s : State) : Event → Option State
  | .submit worker nonce => some { s with tasks := s.tasks ++ [Task.init culture worker nonce] }
  | .advance i => do
    let task ← s.tasks[i]?
    let (nonces, pc) ← perform s.nonces task
    return { nonces := nonces, tasks := s.tasks.set i { task with pc := pc } }

/-- A new job. -/
def State.init : State := ⟨⟨fun _ => none, []⟩, []⟩

/-- Nothing has come between a task's look at the dictionaries and the change it makes. -/
def Current (s : Nonces) (task : Task) : Prop :=
  match task.pc with
  | .install => s.workerNonces task.worker = none
  | .tryAdd nonces => task.nonceLower ∉ s.dictionary nonces
  | _ => True

/-- The task that takes a step is up to date. -/
def Undisturbed (s : State) : Event → Prop
  | .submit _ _ => True
  | .advance i => ∀ task ∈ s.tasks[i]?, Current s.nonces task

/-! ## One step -/

/-- The dictionaries that are installed have been created, each of them for one worker. -/
structure Nonces.Created (s : Nonces) : Prop where
  lt : ∀ worker nonces, s.workerNonces worker = some nonces → nonces < s.dictionaries.length
  own : ∀ worker worker' nonces, s.workerNonces worker = some nonces →
    s.workerNonces worker' = some nonces → worker = worker'

/-- The nonce is in the dictionary of the worker. -/
def Nonces.Registered (s : Nonces) (worker : String) (nonceLower : Text) : Prop :=
  ∃ nonces, s.workerNonces worker = some nonces ∧ nonceLower ∈ s.dictionary nonces

variable {s : Nonces} {worker : String} {nonceLower : Text} {nonces : ℕ}

theorem dictionary_install (h : nonces < s.dictionaries.length) (worker : String)
    (nonceLower : Text) :
    (s.install worker nonceLower).dictionary nonces = s.dictionary nonces := by
  unfold Nonces.dictionary Nonces.install
  rw [List.getElem?_append_left h]

theorem dictionary_install_self (s : Nonces) (worker : String) (nonceLower : Text) :
    (s.install worker nonceLower).dictionary s.dictionaries.length = [nonceLower] := by
  unfold Nonces.dictionary Nonces.install
  rw [List.getElem?_concat_length]
  rfl

theorem dictionary_tryAdd_self (h : nonces < s.dictionaries.length) (nonceLower : Text) :
    (s.tryAdd nonces nonceLower).dictionary nonces =
      List.insert nonceLower (s.dictionary nonces) := by
  unfold Nonces.dictionary Nonces.tryAdd
  rw [List.getElem?_modify, List.getElem?_eq_getElem h]
  simp

theorem dictionary_tryAdd_of_ne {nonces' : ℕ} (h : nonces ≠ nonces') (nonceLower : Text) :
    (s.tryAdd nonces nonceLower).dictionary nonces' = s.dictionary nonces' := by
  unfold Nonces.dictionary Nonces.tryAdd
  rw [List.getElem?_modify_ne _ _ h]

/-- No nonce is lost. -/
theorem mem_dictionary_tryAdd {n : Text} {nonces' : ℕ} (hlt : nonces < s.dictionaries.length)
    (nonceLower : Text) (h : n ∈ s.dictionary nonces') :
    n ∈ (s.tryAdd nonces nonceLower).dictionary nonces' := by
  by_cases hne : nonces = nonces'
  · subst hne
    rw [dictionary_tryAdd_self hlt]
    exact List.mem_insert_of_mem h
  · rw [dictionary_tryAdd_of_ne hne]
    exact h

/-- A new dictionary belongs to the worker it is installed for. -/
theorem created_install (h : s.Created) (worker : String) (nonceLower : Text) :
    (s.install worker nonceLower).Created := by
  have hcases : ∀ other nonces, (s.install worker nonceLower).workerNonces other = some nonces →
      other = worker ∧ nonces = s.dictionaries.length ∨
        s.workerNonces other = some nonces ∧ nonces < s.dictionaries.length := by
    intro other nonces hinstalled
    unfold Nonces.install at hinstalled
    dsimp only at hinstalled
    by_cases hother : other = worker
    · rw [hother, Function.update_self] at hinstalled
      exact Or.inl ⟨hother, (Option.some.inj hinstalled).symm⟩
    · rw [Function.update_of_ne hother] at hinstalled
      exact Or.inr ⟨hinstalled, h.lt other nonces hinstalled⟩
  refine ⟨fun other nonces hinstalled => ?_, fun other other' nonces ho ho' => ?_⟩
  · have hlen : (s.install worker nonceLower).dictionaries.length = s.dictionaries.length + 1 :=
      List.length_append
    rw [hlen]
    rcases hcases other nonces hinstalled with ⟨-, rfl⟩ | ⟨-, hlt⟩
    · exact Nat.lt_succ_self _
    · exact Nat.lt_succ_of_lt hlt
  · rcases hcases other nonces ho with ⟨hother, hn⟩ | ⟨hother, hn⟩
    · rcases hcases other' nonces ho' with ⟨hother', hn'⟩ | ⟨hother', hn'⟩
      · exact hother.trans hother'.symm
      · omega
    · rcases hcases other' nonces ho' with ⟨hother', hn'⟩ | ⟨hother', hn'⟩
      · omega
      · exact h.own other other' nonces hother hother'

theorem created_tryAdd (h : s.Created) (nonces : ℕ) (nonceLower : Text) :
    (s.tryAdd nonces nonceLower).Created where
  lt worker nonces' hinstalled := by
    have hlen : (s.tryAdd nonces nonceLower).dictionaries.length = s.dictionaries.length :=
      List.length_modify _ _ _
    rw [hlen]
    exact h.lt worker nonces' hinstalled
  own := h.own

/-- What a task that is up to date does to the dictionaries. -/
structure Performed (task : Task) (s s' : Nonces) (pc : Pc) : Prop where
  created : s'.Created
  kept : ∀ worker nonces, s.workerNonces worker = some nonces →
    s'.workerNonces worker = some nonces ∧ ∀ n ∈ s.dictionary nonces, n ∈ s'.dictionary nonces
  found : ∀ nonces, pc = .tryGet nonces ∨ pc = .tryAdd nonces →
    s'.workerNonces task.worker = some nonces
  passed : pc = .passed →
    ¬ s.Registered task.worker task.nonceLower ∧ s'.Registered task.worker task.nonceLower

/-- A look at the dictionaries changes nothing. -/
theorem performed_look {task : Task} {pc : Pc} (hcreated : s.Created)
    (hfound : ∀ nonces, pc = .tryGet nonces ∨ pc = .tryAdd nonces →
      s.workerNonces task.worker = some nonces) (hpc : pc ≠ .passed) : Performed task s s pc where
  created := hcreated
  kept _ _ hinstalled := ⟨hinstalled, fun _ hn => hn⟩
  found := hfound
  passed h := absurd h hpc

/-- A dictionary is installed where there is none. -/
theorem performed_install {task : Task} (hcreated : s.Created)
    (hnone : s.workerNonces task.worker = none) :
    Performed task s (s.install task.worker task.nonceLower) .passed where
  created := created_install hcreated _ _
  kept worker nonces hinstalled := by
    have hne : worker ≠ task.worker := by
      rintro rfl
      exact absurd (hnone.symm.trans hinstalled) (by simp)
    refine ⟨(Function.update_of_ne hne ..).trans hinstalled, fun n hn => ?_⟩
    rw [dictionary_install (hcreated.lt worker nonces hinstalled)]
    exact hn
  found := by simp
  passed _ := by
    refine ⟨?_, s.dictionaries.length, Function.update_self .., ?_⟩
    · rintro ⟨nonces, hinstalled, -⟩
      exact absurd (hnone.symm.trans hinstalled) (by simp)
    · rw [dictionary_install_self]
      exact List.mem_singleton_self _

/-- A nonce is added that is not there yet. -/
theorem performed_tryAdd {task : Task} (hcreated : s.Created)
    (hinstalled : s.workerNonces task.worker = some nonces)
    (hnew : task.nonceLower ∉ s.dictionary nonces) :
    Performed task s (s.tryAdd nonces task.nonceLower) .passed where
  created := created_tryAdd hcreated nonces _
  kept _ _ hworker :=
    ⟨hworker, fun _ hn => mem_dictionary_tryAdd (hcreated.lt _ _ hinstalled) _ hn⟩
  found := by simp
  passed _ := by
    refine ⟨?_, nonces, hinstalled, ?_⟩
    · rintro ⟨nonces', hworker, hmem⟩
      obtain rfl := Option.some.inj (hinstalled.symm.trans hworker)
      exact hnew hmem
    · rw [dictionary_tryAdd_self (hcreated.lt _ _ hinstalled)]
      exact List.mem_insert_self

/-- One operation of a task whose dictionary is the one that is installed. -/
theorem perform_spec {s' : Nonces} {task : Task} {pc : Pc} (hcreated : s.Created)
    (hfound : ∀ nonces, task.pc = .tryGet nonces ∨ task.pc = .tryAdd nonces →
      s.workerNonces task.worker = some nonces)
    (hcurrent : Current s task) (h : perform s task = some (s', pc)) :
    Performed task s s' pc := by
  unfold perform at h
  unfold Current at hcurrent
  cases hpc : task.pc with
  | tryGetValue =>
    rw [hpc] at h
    dsimp only at h
    split at h
    · obtain ⟨rfl, rfl⟩ := Prod.mk.inj (Option.some.inj h)
      exact performed_look hcreated (by simp) (by simp)
    · rename_i nonces hinstalled
      obtain ⟨rfl, rfl⟩ := Prod.mk.inj (Option.some.inj h)
      refine performed_look hcreated (fun nonces' hnonces' => ?_) (by simp)
      obtain rfl : nonces = nonces' := by simpa using hnonces'
      exact hinstalled
  | install =>
    rw [hpc] at h hcurrent
    obtain ⟨rfl, rfl⟩ := Prod.mk.inj (Option.some.inj h)
    exact performed_install hcreated hcurrent
  | tryGet nonces =>
    rw [hpc] at h
    dsimp only at h
    split at h
    · obtain ⟨rfl, rfl⟩ := Prod.mk.inj (Option.some.inj h)
      exact performed_look hcreated (by simp) (by simp)
    · obtain ⟨rfl, rfl⟩ := Prod.mk.inj (Option.some.inj h)
      refine performed_look hcreated (fun nonces' hnonces' => ?_) (by simp)
      obtain rfl : nonces = nonces' := by simpa using hnonces'
      exact hfound nonces (Or.inl hpc)
  | tryAdd nonces =>
    rw [hpc] at h hcurrent
    obtain ⟨rfl, rfl⟩ := Prod.mk.inj (Option.some.inj h)
    exact performed_tryAdd hcreated (hfound nonces (Or.inr hpc)) hcurrent
  | passed =>
    rw [hpc] at h
    exact nomatch h
  | rejected =>
    rw [hpc] at h
    exact nomatch h

/-! ## A task on its own -/

/-- The nonces registered for each worker. -/
def Nonces.registered (s : Nonces) : String → Option (List Text) :=
  fun worker => (s.workerNonces worker).map s.dictionary

/-- A task takes steps, and no other task does. -/
def Reaches : Nonces × Task → Nonces × Task → Prop :=
  Relation.ReflTransGen fun x y => ∃ pc, perform x.1 x.2 = some (y.1, pc) ∧
    y.2 = { x.2 with pc := pc }

theorem reaches_cons {s' : Nonces} {task : Task} {pc : Pc} {y : Nonces × Task}
    (h : perform s task = some (s', pc)) (hrest : Reaches (s', { task with pc := pc }) y) :
    Reaches (s, task) y := Relation.ReflTransGen.head ⟨pc, h, rfl⟩ hrest

theorem registered_install (hcreated : s.Created) (worker : String) (nonceLower : Text) :
    (s.install worker nonceLower).registered =
      Function.update s.registered worker (some [nonceLower]) := by
  funext other
  unfold Nonces.registered
  by_cases hother : other = worker
  · have hself : (s.install worker nonceLower).workerNonces worker = some s.dictionaries.length :=
      Function.update_self ..
    rw [hother, Function.update_self, hself, Option.map_some, dictionary_install_self]
  · have hkept : (s.install worker nonceLower).workerNonces other = s.workerNonces other :=
      Function.update_of_ne hother ..
    rw [Function.update_of_ne hother, hkept]
    cases hinstalled : s.workerNonces other with
    | none => rfl
    | some nonces =>
      rw [Option.map_some, Option.map_some,
        dictionary_install (hcreated.lt other nonces hinstalled)]

theorem registered_tryAdd (hcreated : s.Created) (hinstalled : s.workerNonces worker = some nonces)
    (hnew : nonceLower ∉ s.dictionary nonces) :
    (s.tryAdd nonces nonceLower).registered =
      Function.update s.registered worker (some (nonceLower :: s.dictionary nonces)) := by
  have hkept : (s.tryAdd nonces nonceLower).workerNonces = s.workerNonces := rfl
  funext other
  unfold Nonces.registered
  rw [hkept]
  by_cases hother : other = worker
  · rw [hother, Function.update_self, hinstalled, Option.map_some,
      dictionary_tryAdd_self (hcreated.lt _ _ hinstalled), List.insert_of_not_mem hnew]
  · rw [Function.update_of_ne hother]
    cases hinstalled' : s.workerNonces other with
    | none => rfl
    | some nonces' =>
      have hne : nonces ≠ nonces' := by
        rintro rfl
        exact hother (hcreated.own _ _ _ hinstalled' hinstalled)
      rw [Option.map_some, Option.map_some, dictionary_tryAdd_of_ne hne]

/-- **A task on its own does what `RegisterNonce` does.** -/
theorem reaches_registerNonce {alg : Algorithms} {s : Nonces} (hcreated : s.Created)
    {job : AionJob} (hjob : job.workerNonces = s.registered) (worker : StratumClient)
    (nonce : Text) :
    ∃ s' pc, Reaches (s, Task.init alg.culture worker.connectionId nonce)
        (s', { Task.init alg.culture worker.connectionId nonce with pc := pc }) ∧
      match job.registerNonce alg worker nonce with
      | .ok job' => pc = .passed ∧ job'.workerNonces = s'.registered
      | .error _ => pc = .rejected ∧ s' = s := by
  unfold registerNonce
  rw [hjob]
  cases hinstalled : s.workerNonces worker.connectionId with
  | none =>
    have hnone : s.registered worker.connectionId = none := by
      unfold Nonces.registered
      rw [hinstalled, Option.map_none]
    have hget : perform s (Task.init alg.culture worker.connectionId nonce) =
        some (s, .install) := by
      unfold perform Task.init
      dsimp only
      rw [hinstalled]
    rw [hnone]
    refine ⟨_, .passed, reaches_cons hget (reaches_cons rfl .refl), rfl, ?_⟩
    exact (registered_install hcreated worker.connectionId (alg.culture.toLower nonce)).symm
  | some nonces =>
    have hsome : s.registered worker.connectionId = some (s.dictionary nonces) := by
      unfold Nonces.registered
      rw [hinstalled, Option.map_some]
    have hget : perform s (Task.init alg.culture worker.connectionId nonce) =
        some (s, .tryGet nonces) := by
      unfold perform Task.init
      dsimp only
      rw [hinstalled]
    rw [hsome]
    dsimp only
    by_cases hmem : alg.culture.toLower nonce ∈ s.dictionary nonces
    · rw [if_pos hmem]
      have hfound := List.contains_iff_mem.mpr hmem
      exact ⟨s, .rejected, reaches_cons hget (reaches_cons (if_pos hfound) .refl), rfl, rfl⟩
    · rw [if_neg hmem]
      have hfresh := mt List.contains_iff_mem.mp hmem
      refine ⟨_, .passed, reaches_cons hget (reaches_cons (if_neg hfresh) (reaches_cons rfl .refl)),
        rfl, ?_⟩
      exact (registered_tryAdd hcreated hinstalled hmem).symm

/-! ## Whole runs -/

/-- What holds of the dictionaries and the tasks of an undisturbed run. -/
structure Inv (s : State) : Prop where
  created : s.nonces.Created
  found : ∀ (i : ℕ), ∀ task ∈ s.tasks[i]?, ∀ nonces,
    task.pc = .tryGet nonces ∨ task.pc = .tryAdd nonces →
    s.nonces.workerNonces task.worker = some nonces
  registered : ∀ (i : ℕ), ∀ task ∈ s.tasks[i]?, task.pc = .passed →
    s.nonces.Registered task.worker task.nonceLower
  once : ∀ (i j : ℕ), ∀ task ∈ s.tasks[i]?, ∀ task' ∈ s.tasks[j]?,
    task.pc = .passed → task'.pc = .passed → task.worker = task'.worker →
    task.nonceLower = task'.nonceLower → i = j

theorem registered_of_performed {task : Task} {s s' : Nonces} {pc : Pc}
    (h : Performed task s s' pc) {worker : String} {nonceLower : Text}
    (hregistered : s.Registered worker nonceLower) : s'.Registered worker nonceLower := by
  obtain ⟨nonces, hinstalled, hmem⟩ := hregistered
  obtain ⟨hinstalled', hkept⟩ := h.kept worker nonces hinstalled
  exact ⟨nonces, hinstalled', hkept nonceLower hmem⟩

variable {culture}

theorem inv_submit {s : State} (hI : Inv s) (worker : String) (nonce : Text) :
    Inv { s with tasks := s.tasks ++ [Task.init culture worker nonce] } := by
  have hcases : ∀ (i : ℕ), ∀ task ∈ (s.tasks ++ [Task.init culture worker nonce])[i]?,
      task ∈ s.tasks[i]? ∨ task.pc = .tryGetValue := by
    intro i task htask
    by_cases hi : i < s.tasks.length
    · rw [List.getElem?_append_left hi] at htask
      exact Or.inl htask
    · rw [List.getElem?_append_right (Nat.le_of_not_lt hi)] at htask
      rw [List.mem_singleton.mp (List.mem_of_getElem? htask)]
      exact Or.inr rfl
  refine ⟨hI.created, fun i task htask nonces hpc => ?_, fun i task htask hpc => ?_,
    fun i j task htask task' htask' hpc hpc' => ?_⟩
  · rcases hcases i task htask with hold | hnew
    · exact hI.found i task hold nonces hpc
    · rw [hnew] at hpc
      exact absurd hpc (by simp)
  · rcases hcases i task htask with hold | hnew
    · exact hI.registered i task hold hpc
    · exact absurd (hnew.symm.trans hpc) (by simp)
  · rcases hcases i task htask with hold | hnew
    · rcases hcases j task' htask' with hold' | hnew'
      · exact hI.once i j task hold task' hold' hpc hpc'
      · exact absurd (hnew'.symm.trans hpc') (by simp)
    · exact absurd (hnew.symm.trans hpc) (by simp)

/-- A task takes a step. -/
theorem inv_advance {s : State} (hI : Inv s) {i : ℕ} {task : Task} {nonces : Nonces} {pc : Pc}
    (htask : s.tasks[i]? = some task) (h : Performed task s.nonces nonces pc) :
    Inv { nonces := nonces, tasks := s.tasks.set i { task with pc := pc } } := by
  have hcases : ∀ (j : ℕ), ∀ task' ∈ (s.tasks.set i { task with pc := pc })[j]?,
      j = i ∧ task' = { task with pc := pc } ∨ j ≠ i ∧ task' ∈ s.tasks[j]? := by
    intro j task' htask'
    by_cases hj : i = j
    · subst hj
      rw [List.getElem?_set_self (List.getElem?_eq_some_iff.mp htask).1] at htask'
      exact Or.inl ⟨rfl, (Option.some.inj htask').symm⟩
    · rw [List.getElem?_set_ne hj] at htask'
      exact Or.inr ⟨Ne.symm hj, htask'⟩
  refine ⟨h.created, fun j task' htask' d hd => ?_, fun j task' htask' hpassed => ?_,
    fun j k task' htask' task'' htask'' hpassed hpassed' hworker hnonce => ?_⟩
  · rcases hcases j task' htask' with ⟨-, rfl⟩ | ⟨-, hold⟩
    · exact h.found d hd
    · exact (h.kept _ _ (hI.found j task' hold d hd)).1
  · rcases hcases j task' htask' with ⟨-, rfl⟩ | ⟨-, hold⟩
    · exact (h.passed hpassed).2
    · exact registered_of_performed h (hI.registered j task' hold hpassed)
  -- the nonce of a task that passes now was not registered before
  · rcases hcases j task' htask' with ⟨rfl, rfl⟩ | ⟨hj, hold⟩
    · rcases hcases k task'' htask'' with ⟨rfl, -⟩ | ⟨hk, hold'⟩
      · rfl
      · have hregistered := hI.registered k task'' hold' hpassed'
        rw [← hworker, ← hnonce] at hregistered
        exact absurd hregistered (h.passed hpassed).1
    · rcases hcases k task'' htask'' with ⟨rfl, rfl⟩ | ⟨hk, hold'⟩
      · have hregistered := hI.registered j task' hold hpassed
        rw [hworker, hnonce] at hregistered
        exact absurd hregistered (h.passed hpassed').1
      · exact hI.once j k task' hold task'' hold' hpassed hpassed' hworker hnonce

theorem inv_step (s : State) (e : Event) (s' : State) (hI : Inv s) (hG : Undisturbed s e)
    (h : step culture s e = some s') : Inv s' := by
  cases e with
  | submit worker nonce =>
    obtain rfl := Option.some.inj h
    exact inv_submit hI worker nonce
  | advance i =>
    obtain ⟨task, htask, h⟩ := Option.bind_eq_some_iff.mp h
    obtain ⟨⟨nonces, pc⟩, hperform, h⟩ := Option.bind_eq_some_iff.mp h
    obtain rfl := Option.some.inj h
    exact inv_advance hI htask
      (perform_spec hI.created (hI.found i task htask) (hG task htask) hperform)

theorem inv_init : Inv State.init := by
  refine ⟨⟨?_, ?_⟩, ?_, ?_, ?_⟩
  · exact fun _ _ h => absurd h (by simp [State.init])
  · exact fun _ _ _ h => absurd h (by simp [State.init])
  · exact fun _ _ h => absurd h (by simp [State.init])
  · exact fun _ _ h => absurd h (by simp [State.init])
  · exact fun _ _ _ h => absurd h (by simp [State.init])

/-- The submissions of a worker with a nonce that got past `RegisterNonce`. -/
def State.passed (s : State) (worker : String) (nonceLower : Text) : List Task :=
  s.tasks.filter fun task =>
    task.worker = worker ∧ task.nonceLower = nonceLower ∧ task.pc = .passed

theorem length_passed_le {s : State} (hI : Inv s) (worker : String) (nonceLower : Text) :
    (s.passed worker nonceLower).length ≤ 1 := by
  have hpairwise : (s.passed worker nonceLower).Pairwise fun _ _ => False := by
    have htasks : s.tasks.Pairwise fun task task' =>
        ¬ ((task.worker = worker ∧ task.nonceLower = nonceLower ∧ task.pc = .passed) ∧
          task'.worker = worker ∧ task'.nonceLower = nonceLower ∧ task'.pc = .passed) := by
      refine List.pairwise_iff_getElem.mpr fun i j hi hj hij => ?_
      rintro ⟨⟨hworker, hnonce, hpc⟩, hworker', hnonce', hpc'⟩
      have heq := hI.once i j _ (List.getElem?_eq_getElem hi) _ (List.getElem?_eq_getElem hj)
        hpc hpc' (hworker.trans hworker'.symm) (hnonce.trans hnonce'.symm)
      omega
    refine (htasks.filter _).imp_of_mem fun {task task'} htask htask' hnot => ?_
    exact hnot ⟨of_decide_eq_true (List.mem_filter.mp htask).2,
      of_decide_eq_true (List.mem_filter.mp htask').2⟩
  match hlist : s.passed worker nonceLower with
  | [] => exact Nat.zero_le 1
  | [_] => exact le_refl 1
  | _ :: _ :: _ =>
    rw [hlist, List.pairwise_cons] at hpairwise
    exact absurd List.mem_cons_self (hpairwise.1 _)

variable (culture)

/-- **A nonce of a worker gets past `RegisterNonce` at most once**, in every undisturbed run. -/
theorem passed_once {es : List Event} {s : State}
    (hG : Along (step culture) Undisturbed State.init es)
    (hrun : run (step culture) State.init es = some s) (worker : String) (nonceLower : Text) :
    (s.passed worker nonceLower).length ≤ 1 :=
  length_passed_le (run_invariant inv_step inv_init hG hrun) worker nonceLower

instance (s : Nonces) : ∀ task : Task, Decidable (Current s task)
  | ⟨worker, _, .install⟩ => inferInstanceAs (Decidable (s.workerNonces worker = none))
  | ⟨_, nonceLower, .tryAdd nonces⟩ =>
    inferInstanceAs (Decidable (nonceLower ∉ s.dictionary nonces))
  | ⟨_, _, .tryGetValue⟩ => isTrue trivial
  | ⟨_, _, .tryGet _⟩ => isTrue trivial
  | ⟨_, _, .passed⟩ => isTrue trivial
  | ⟨_, _, .rejected⟩ => isTrue trivial

instance (s : State) (e : Event) : Decidable (Undisturbed s e) :=
  match e with
  | .submit _ _ => isTrue trivial
  | .advance i => inferInstanceAs (Decidable (∀ task ∈ s.tasks[i]?, Current s.nonces task))

/-- Two submissions of one nonce and one of another find the dictionary of the worker together, and
the second looks in it when the first one is done. -/
def sampleUndisturbed : List Event :=
  [.submit "c1" (ascii "aB"), .advance 0, .advance 0, .submit "c1" (ascii "cd"),
    .submit "c1" (ascii "CD"), .submit "c1" (ascii "ef"), .advance 1, .advance 3, .advance 2,
    .advance 1, .advance 3, .advance 1, .advance 2, .advance 3]

/-- Of the submissions that overlap one is rejected. -/
theorem passed_once_in_turn :
    ∃ s, run (step sampleCulture) State.init sampleUndisturbed = some s ∧
      s.tasks.map Task.pc = [.passed, .passed, .rejected, .passed] ∧
      (s.passed "c1" (ascii "cd")).length ≤ 1 := by
  have hpcs : (run (step sampleCulture) State.init sampleUndisturbed).map
      (fun s => s.tasks.map Task.pc) = some [.passed, .passed, .rejected, .passed] := by
    decide +kernel
  obtain ⟨s, hs, hpc⟩ := Option.map_eq_some_iff.mp hpcs
  exact ⟨s, hs, hpc, passed_once sampleCulture (by decide +kernel) hs "c1" (ascii "cd")⟩

/-- Both submissions of a nonce see no dictionary, and both install one. -/
theorem passed_twice :
    ∃ es s worker nonceLower, run (step sampleCulture) State.init es = some s ∧
      ¬ (s.passed worker nonceLower).length ≤ 1 := by
  have hlength : (run (step sampleCulture) State.init
      [.submit "c1" (ascii "aB"), .submit "c1" (ascii "Ab"), .advance 0, .advance 1, .advance 0,
        .advance 1]).map (fun s => (s.passed "c1" (ascii "ab")).length) = some 2 := by
    decide +kernel
  obtain ⟨s, hs, hlen⟩ := Option.map_eq_some_iff.mp hlength
  exact ⟨_, s, "c1", ascii "ab", hs, by omega⟩

end AionPool.Aion.ConcurrentNonces
