import AionPool.Aion.Targets
import AionPool.VarDiff.Retarget

/-!
# The floor of a client's difficulty

A client starts with the difficulty of its port. A password can ask for a static difficulty, which
ends the client's VarDiff when it is taken; the `VarDiffManager` answers with difficulties in the
range of its configuration.

* `PoolEndpoint.validate`: what the configuration's validation says of the difficulties of a port.
  Its comparisons accept the infinite values.
* `PoolEndpoint.floor`: what no client of the port may be below.
* `Bounded`: what every step keeps. The static difficulty that is taken is above the one before, or
  above the minimum of VarDiff, and so is every answer.
* **`floored_of_run`**: every run keeps the difficulty finite and above the floor, on a port whose
  difficulties are numbers.

About `PoolBase.cs:143-163` and `:201-240`, with the manager of the port
(`VarDiffManager.cs:48-123`).
-/

namespace AionPool.Aion.DifficultyFloor

open AionPool.Extensions AionPool.Lib.Effects AionPool.Lib.Run AionPool.Aion.Pool
open AionPool.Aion.UpdateJob (JobParams)
open AionPool.Lib.Binary64 (Double)

/-! ## Ports -/

/-- What is read of a `PoolEndpoint` for its difficulties. -/
structure PoolEndpoint where
  difficulty : Double
  varDiff : Option (VarDiff.VarDiffConfig Double)

/-- `PoolEndpointValidator`, of the difficulties. -/
def PoolEndpoint.validate (port : PoolEndpoint) : List String :=
  VarDiff.rule (!port.difficulty.le? (.fin 0)) "Pool Endpoint: Difficulty missing or invalid" ++
    (port.varDiff.map VarDiff.VarDiffConfig.validate).getD []

/-- What no client of the port may be below. -/
def PoolEndpoint.floor (port : PoolEndpoint) : Double :=
  match port.varDiff with
  | some varDiff => .min port.difficulty varDiff.minDiff
  | none => port.difficulty

/-- The difficulties of the port are neither NaN nor infinite. -/
def PoolEndpoint.isFinite (port : PoolEndpoint) : Bool :=
  Pool.isFinite port.difficulty &&
    port.varDiff.all fun varDiff =>
      Pool.isFinite varDiff.minDiff && varDiff.maxDiff.all Pool.isFinite

/-- `OnConnect`: the context of a new client. -/
def onConnect (enableInternalStratum : Bool) (port : PoolEndpoint) (now : DateTime) :
    WorkerContext :=
  .init port.difficulty
    (if enableInternalStratum then port.varDiff.map fun varDiff => ⟨varDiff.minDiff⟩ else none) now

/-! ## Runs of a client -/

variable {Id : Type}

/-- What happens to a client, one thing after another. The `VarDiffContext` may be in any state when
an update comes to it. -/
inductive Event (Id : Type) where
  | request (world : World) (request : Request Id) (varDiff : VarDiff.VarDiffContext)
    (milliseconds : ℤ)
  | idleUpdate (world : World) (varDiff : VarDiff.VarDiffContext) (milliseconds : ℤ)
  | newJob (world : World) (jobParams : Option JobParams)
  /-- The connection is closed. -/
  | close

variable (rnd : ℚ → Double) (port : PoolEndpoint)

/-- `varDiffManager.Update`, of the manager of the port. -/
def managerUpdate (call : VarDiff.Call) (varDiff : VarDiff.VarDiffContext) : Option Double :=
  match port.varDiff with
  | none => none
  | some options =>
    match VarDiff.update rnd options call varDiff with
    | .ok (newDiff, _) => newDiff
    | .error _ => none

/-- The world in which the manager of the port answers. -/
def answering (world : World) (s : Session Id) (isIdleUpdate : Bool)
    (varDiff : VarDiff.VarDiffContext) (milliseconds : ℤ) : World :=
  { world with varDiffUpdate :=
      managerUpdate rnd port ⟨s.context.difficulty, isIdleUpdate, milliseconds, world.now⟩ varDiff }

variable (platform : Platform Id) (settings : Settings)

def step (s : Session Id) : Event Id → Option (Session Id)
  | .request world request varDiff milliseconds =>
    some (onReceive platform settings (answering rnd port world s false varDiff milliseconds)
      request s)
  | .idleUpdate world varDiff milliseconds =>
    some (after (updateVarDiffAsync platform
      (answering rnd port world s true varDiff milliseconds)) s)
  | .newJob world jobParams => some (after (onNewJobAsync platform settings world jobParams) s)
  | .close => some { s with isAlive := false }

/-- A difficulty that is finite and not below the floor. -/
structure Floored (difficulty : Double) : Prop where
  finite : Pool.isFinite difficulty = true
  floor : difficulty.lt port.floor = false

/-! ## Difficulties above the floor -/

theorem exists_of_isFinite {x : Double} (h : Pool.isFinite x = true) : ∃ q, x = .fin q := by
  cases x with
  | fin q => exact ⟨q, rfl⟩
  | nan => exact nomatch h
  | inf s => exact nomatch h

/-- A difficulty that is a number, and at least `minimum`. -/
def AtLeast (minimum : ℚ) (difficulty : Double) : Prop :=
  ∃ d, difficulty = .fin d ∧ minimum ≤ d

theorem AtLeast.floored {minimum : ℚ} {difficulty : Double} (hfloor : port.floor = .fin minimum)
    (h : AtLeast minimum difficulty) : Floored port difficulty := by
  obtain ⟨d, rfl, hle⟩ := h
  refine ⟨rfl, ?_⟩
  rw [hfloor]
  exact decide_eq_false hle.not_gt

/-- A port whose floor is the number `minimum`, and whose VarDiff has a range above it. -/
structure Ranged (minimum : ℚ) : Prop where
  floor : port.floor = .fin minimum
  difficulty : AtLeast minimum port.difficulty
  varDiff : ∀ options ∈ port.varDiff, ∃ lo hi, options.minDiff = .fin lo ∧
    VarDiff.maxDiff options = .fin hi ∧ minimum ≤ lo ∧ lo ≤ hi

/-- The range of a valid VarDiff. -/
theorem range_of_validate {options : VarDiff.VarDiffConfig Double} {lo : ℚ}
    (hvalid : options.validate = []) (hlo : options.minDiff = .fin lo)
    (hfinite : options.maxDiff.all Pool.isFinite = true) :
    ∃ hi, VarDiff.maxDiff options = .fin hi ∧ lo ≤ hi := by
  unfold VarDiff.maxDiff
  cases hmax : options.maxDiff with
  | none =>
    refine ⟨max lo ((2 ^ 53 - 1) * 2 ^ 971), ?_, le_max_left lo _⟩
    rw [hlo]
    exact Double.max_fin
  | some maxDiff =>
    rw [hmax] at hfinite
    obtain ⟨hi, rfl⟩ := exists_of_isFinite hfinite
    unfold VarDiff.VarDiffConfig.validate at hvalid
    have hrule := (VarDiff.rule_eq_nil _ _).mp
      (List.append_eq_nil_iff.mp (List.append_eq_nil_iff.mp
        (List.append_eq_nil_iff.mp hvalid).1).1).1
    rw [hmax, hlo] at hrule
    exact ⟨hi, rfl, of_decide_eq_true hrule⟩

/-- A valid port whose difficulties are numbers has a floor and a range. -/
theorem exists_ranged (hvalid : port.validate = []) (hfinite : port.isFinite = true) :
    ∃ minimum, Ranged port minimum := by
  obtain ⟨hdifficulty, hvarDiff⟩ := Bool.and_eq_true_iff.mp hfinite
  obtain ⟨d, hd⟩ := exists_of_isFinite hdifficulty
  obtain ⟨-, hoptions⟩ := List.append_eq_nil_iff.mp hvalid
  cases hv : port.varDiff with
  | none =>
    refine ⟨d, ?_, ⟨d, hd, le_rfl⟩, fun options h => ?_⟩
    · unfold PoolEndpoint.floor
      rw [hv]
      exact hd
    · rw [hv] at h
      exact nomatch h
  | some options =>
    rw [hv] at hvarDiff hoptions
    obtain ⟨hmin, hmax⟩ := Bool.and_eq_true_iff.mp hvarDiff
    obtain ⟨lo, hlo⟩ := exists_of_isFinite hmin
    obtain ⟨hi, hhi, hle⟩ := range_of_validate hoptions hlo hmax
    refine ⟨min d lo, ?_, ⟨d, hd, min_le_left d lo⟩, fun options' h => ?_⟩
    · unfold PoolEndpoint.floor
      rw [hv]
      dsimp only
      rw [hd, hlo, Double.min_fin]
    · rw [hv] at h
      obtain rfl := Option.mem_some.mp h
      exact ⟨lo, hi, hlo, hhi, min_le_right d lo, hle⟩

/-- A value that is clamped is NaN, or in the range. -/
theorem clamp_nan_or {lo hi : ℚ} (hle : lo ≤ hi) (y : Double) :
    VarDiff.clamp (.fin lo) (.fin hi) y = .nan ∨
      AtLeast lo (VarDiff.clamp (.fin lo) (.fin hi) y) := by
  cases y with
  | nan => exact .inl rfl
  | inf s =>
    cases s with
    | false => exact .inr ⟨hi, rfl, hle⟩
    | true =>
      refine .inr ⟨lo, ?_, le_rfl⟩
      have hnot : ¬ (Double.fin hi).lt (.fin lo) = true := by
        rw [Double.lt_fin, decide_eq_true_iff]
        exact hle.not_gt
      exact if_neg hnot
  | fin q =>
    obtain ⟨w, hw, hrange, -⟩ := VarDiff.clamp_exact le_rfl hle q
    exact .inr ⟨w, hw, hrange.1⟩

variable {rnd port} {minimum : ℚ}

/-- **An answer of the manager** is above the floor, whatever the rounding. -/
theorem atLeast_of_managerUpdate (hport : Ranged port minimum) {call : VarDiff.Call}
    {varDiff : VarDiff.VarDiffContext} {newDiff : Double}
    (h : managerUpdate rnd port call varDiff = some newDiff) : AtLeast minimum newDiff := by
  unfold managerUpdate at h
  cases hv : port.varDiff with
  | none =>
    rw [hv] at h
    exact nomatch h
  | some options =>
    obtain ⟨lo, hi, hlo, hhi, hminimum, hle⟩ := hport.varDiff options hv
    rw [hv] at h
    dsimp only at h
    split at h
    · rename_i answer _ hupdate
      subst h
      obtain ⟨avg, hnew, hchanged⟩ := VarDiff.update_retargets hupdate
      have hnan : newDiff ≠ .nan := by
        rintro rfl
        rcases Bool.or_eq_true_iff.mp hchanged with hlt | hlt
        · exact (Double.ne_nan_of_lt hlt).1 rfl
        · exact (Double.ne_nan_of_lt hlt).2 rfl
      unfold VarDiff.newDifficulty at hnew
      rw [hlo, hhi] at hnew
      rw [hnew] at hnan ⊢
      obtain ⟨d, hd, hlod⟩ := (clamp_nan_or hle _).resolve_left hnan
      exact ⟨d, hd, hminimum.trans hlod⟩
    · exact nomatch h

/-! ## Contexts -/

variable (minimum) in
/-- What every step keeps of a context. -/
structure Bounded (c : WorkerContext) : Prop where
  varDiff : ∀ varDiff ∈ c.varDiff, AtLeast minimum varDiff.minDiff
  difficulty : AtLeast minimum c.difficulty
  pending : ∀ difficulty ∈ c.pendingDifficulty, AtLeast minimum difficulty

theorem bounded_onConnect (hport : Ranged port minimum) (enableInternalStratum : Bool)
    (now : DateTime) : Bounded minimum (onConnect enableInternalStratum port now) := by
  refine ⟨fun varDiff h => ?_, hport.difficulty, nofun⟩
  unfold onConnect WorkerContext.init at h
  dsimp only at h
  split at h
  · obtain ⟨options, hoptions, rfl⟩ := Option.map_eq_some_iff.mp h
    obtain ⟨lo, -, hlo, -, hminimum, -⟩ := hport.varDiff options hoptions
    exact ⟨lo, hlo, hminimum⟩
  · exact nomatch h

theorem bounded_applyPendingDifficulty {c : WorkerContext} (h : Bounded minimum c) :
    Bounded minimum c.applyPendingDifficulty := by
  unfold WorkerContext.applyPendingDifficulty
  cases hpending : c.pendingDifficulty with
  | none => exact h
  | some difficulty => exact ⟨h.varDiff, h.pending difficulty hpending, nofun⟩

/-- A static difficulty that is taken is above the minimum of VarDiff, or above the one before. -/
theorem atLeast_of_staticDiff {platform : Platform Id} {passParts : List Text} {c : WorkerContext}
    {diff : Double} (h : Bounded minimum c) (hdiff : staticDiff platform passParts c = some diff) :
    AtLeast minimum diff := by
  unfold staticDiff at hdiff
  obtain ⟨hread, htaken⟩ := Option.filter_eq_some_iff.mp hdiff
  obtain ⟨d, rfl⟩ : ∃ d, diff = .fin d := by
    obtain ⟨part, -, hpart⟩ := List.exists_of_findSome?_eq_some hread
    exact exists_of_isFinite (Option.filter_eq_some_iff.mp hpart).2
  cases hv : c.varDiff with
  | none =>
    obtain ⟨q, hq, hle⟩ := h.difficulty
    rw [hv, hq] at htaken
    exact ⟨d, rfl, hle.trans (of_decide_eq_true htaken).le⟩
  | some varDiff =>
    obtain ⟨lo, hlo, hle⟩ := h.varDiff varDiff hv
    rw [hv] at htaken
    dsimp only at htaken
    rw [hlo] at htaken
    exact ⟨d, rfl, hle.trans (of_decide_eq_true htaken)⟩

theorem bounded_applyStaticDiff {platform : Platform Id} {passParts : List Text}
    {c : WorkerContext} (h : Bounded minimum c) :
    Bounded minimum (c.applyStaticDiff (staticDiff platform passParts c)) := by
  cases hdiff : staticDiff platform passParts c with
  | none => exact h
  | some diff => exact ⟨nofun, atLeast_of_staticDiff h hdiff, h.pending⟩

/-! ## Handlers -/

variable (minimum) in
/-- A program that keeps the difficulties of the context. -/
def Stays (s s' : Session Id) : Prop := Bounded minimum s.context → Bounded minimum s'.context

instance : IsPreorder (Session Id) (Stays minimum) where
  refl _ := id
  trans _ _ _ h h' := h' ∘ h

/-- A field that is no difficulty. -/
theorem Bounded.congr {c c' : WorkerContext} (h : Bounded minimum c) (hv : c'.varDiff = c.varDiff)
    (hd : c'.difficulty = c.difficulty) (hp : c'.pendingDifficulty = c.pendingDifficulty) :
    Bounded minimum c' :=
  ⟨hv ▸ h.varDiff, hd ▸ h.difficulty, hp ▸ h.pending⟩

variable {platform : Platform Id} {settings : Settings} {world : World}

theorem stays_mapContext {f : WorkerContext → WorkerContext}
    (h : ∀ c, Bounded minimum c → Bounded minimum (f c)) :
    Keeps (Stays minimum) Any (modify fun s => s.mapContext f : Handler Id Unit) :=
  keeps_modify fun s => h s.context

theorem stays_modify {f : Session Id → Session Id} (h : ∀ s, (f s).context = s.context) :
    Keeps (Stays minimum) Any (modify f : Handler Id Unit) :=
  keeps_modify fun s hs => h s ▸ hs

theorem stays_send (message : Message Id) :
    Keeps (Stays minimum) Any (send platform message) := keeps_send (fun _ => id) trivial

theorem stays_sendWork (target : Text) :
    Keeps (Stays minimum) Any (sendWork platform target) :=
  keeps_sendWork (fun _ => stays_send _) (fun _ => stays_send _) target

theorem stays_ensureInitialWorkSent :
    Keeps (Stays minimum) Any (ensureInitialWorkSent platform) :=
  keeps_ensureInitialWorkSent (fun _ => stays_send _) (fun _ => stays_send _)
    (fun _ => keeps_ofExcept_any _) (stays_mapContext fun _ h => h.congr rfl rfl rfl)

/-- The answer of the manager becomes the difficulty. -/
theorem stays_updateVarDiffAsync
    (hworld : ∀ newDiff ∈ world.varDiffUpdate, AtLeast minimum newDiff) :
    Keeps (Stays minimum) Any (updateVarDiffAsync platform world) := by
  refine keeps_bind keeps_get fun s => ?_
  cases hupdate : varDiffUpdate world s.context with
  | none => exact keeps_pure _
  | some newDiff =>
    have hnew : AtLeast minimum newDiff := by
      unfold varDiffUpdate at hupdate
      split at hupdate
      · exact nomatch hupdate
      · exact hworld newDiff hupdate
    refine keeps_bind (stays_mapContext fun c h => ⟨h.varDiff, h.difficulty, ?_⟩) fun _ => ?_
    · rintro difficulty hdifficulty
      obtain rfl := Option.mem_some.mp hdifficulty
      exact hnew
    refine keeps_bind (stays_mapContext fun _ => bounded_applyPendingDifficulty) fun _ => ?_
    exact keeps_bind (keeps_ofExcept_any _) fun _ => stays_sendWork _

theorem stays_onNewJobAsync (jobParams : Option JobParams) :
    Keeps (Stays minimum) Any (onNewJobAsync platform settings world jobParams) :=
  keeps_onNewJobAsync settings world jobParams (fun _ => id) (fun _ => id)
    (fun _ => bounded_applyPendingDifficulty) (fun _ => stays_send _)
    fun _ => keeps_ofExcept_any _

theorem stays_onSubscribeAsync (request : Request Id) :
    Keeps (Stays minimum) Any (onSubscribeAsync platform request) :=
  keeps_onSubscribeAsync request (fun _ _ _ h => h.congr rfl rfl rfl) (fun _ _ _ => stays_send _)
    (fun _ h => h.congr rfl rfl rfl) (fun _ _ h => h.congr rfl rfl rfl)

/-- The password's difficulty is taken or not. -/
theorem stays_onAuthorizeAsync (request : Request Id) :
    Keeps (Stays minimum) Any (onAuthorizeAsync platform settings world request) :=
  keeps_onAuthorizeAsync request (fun _ _ h => h.congr rfl rfl rfl)
    (fun _ _ h => h.congr rfl rfl rfl) (fun _ _ => stays_send _)
    (fun _ _ => bounded_applyStaticDiff) (fun _ _ h => h.congr rfl rfl rfl) (fun _ _ => id)
    stays_ensureInitialWorkSent

theorem stays_rejectShare : Keeps (Stays minimum) Any (rejectShare settings : Handler Id Unit) := by
  refine keeps_rejectShare (fun _ h => h.congr rfl rfl rfl) (fun s decision h => ?_) fun _ => id
  cases decision with
  | _ => exact h.congr rfl rfl rfl

theorem stays_rejectSubmit (request : Request Id) (code : StratumError) (message : String) :
    Keeps (Stays minimum) Any (rejectSubmit platform settings world request code message) :=
  keeps_rejectSubmit request code message (stays_send _) (fun _ => id) stays_rejectShare

section Answers

variable (hworld : ∀ newDiff ∈ world.varDiffUpdate, AtLeast minimum newDiff)

include hworld

theorem stays_acceptShare (id : Id) (share : Mining.Share Double) :
    Keeps (Stays minimum) Any (acceptShare platform world id share) := by
  refine keeps_bind (stays_send _) fun _ => ?_
  refine keeps_bind (stays_modify fun _ => rfl) fun _ => ?_
  refine keeps_bind stays_ensureInitialWorkSent fun _ => ?_
  refine keeps_bind (stays_mapContext fun _ h => h.congr rfl rfl rfl) fun _ => ?_
  exact stays_updateVarDiffAsync hworld

theorem stays_onSubmitAsync (request : Request Id) :
    Keeps (Stays minimum) Any (onSubmitAsync platform settings world request) := by
  refine keeps_catchStratum ?_ fun code message => stays_rejectSubmit request code message
  refine keeps_bind (keeps_ofExcept_any _) fun id => ?_
  split
  · exact keeps_pure _
  refine keeps_bind keeps_get fun s => ?_
  refine keeps_bind (keeps_ofExcept_any _) fun values => ?_
  refine keeps_bind (stays_mapContext fun _ h => h.congr rfl rfl rfl) fun _ => ?_
  refine keeps_catchStratum ?_ fun code message =>
    keeps_bind stays_rejectShare fun _ => keeps_throw trivial
  refine keeps_bind ?_ fun share => stays_acceptShare hworld id share
  refine keeps_bind keeps_get fun s => ?_
  exact keeps_bind (stays_modify fun _ => rfl) fun _ => keeps_ofExcept_any _

theorem stays_onRequestAsync (request : Request Id) :
    Keeps (Stays minimum) Any (onRequestAsync platform settings world request) := by
  refine keeps_catchStratum ?_ fun code message => stays_send _
  unfold dispatch
  split
  · exact stays_onSubscribeAsync request
  · split
    · exact stays_onAuthorizeAsync request
    · split
      · exact stays_onSubmitAsync hworld request
      · exact stays_send _

theorem bounded_onReceive {request : Request Id} {s : Session Id}
    (h : Bounded minimum s.context) :
    Bounded minimum (onReceive platform settings world request s).context := by
  have hkeeps : Keeps (Stays minimum) Any (onRequestAsync platform settings world request) :=
    stays_onRequestAsync hworld request
  unfold onReceive
  split
  · exact h
  · split
    · rename_i hrun
      exact hkeeps.of_ok hrun h
    · rename_i hrun
      split
      · exact (hkeeps.of_error hrun).1 h
      · exact (hkeeps.of_error hrun).1 h
    · rename_i hrun
      exact (hkeeps.of_error hrun).1 h

end Answers

/-! ## Every run -/

theorem bounded_step (hport : Ranged port minimum) (s : Session Id) (e : Event Id) (s' : Session Id)
    (h : Bounded minimum s.context) (hstep : step rnd port platform settings s e = some s') :
    Bounded minimum s'.context := by
  cases e with
  | request world request varDiff milliseconds =>
    obtain rfl := Option.some.inj hstep
    exact bounded_onReceive (fun _ hanswer => atLeast_of_managerUpdate hport hanswer) h
  | idleUpdate world varDiff milliseconds =>
    obtain rfl := Option.some.inj hstep
    exact (stays_updateVarDiffAsync fun _ hanswer =>
      atLeast_of_managerUpdate hport hanswer).after s h
  | newJob world jobParams =>
    obtain rfl := Option.some.inj hstep
    exact (stays_onNewJobAsync jobParams).after s h
  | close =>
    obtain rfl := Option.some.inj hstep
    exact h

/-- **The difficulty of a client is finite and not below the floor**, in every run on a valid port
whose difficulties are numbers. -/
theorem floored_of_run (rnd : ℚ → Double) (platform : Platform Id) (settings : Settings)
    {s s' : Session Id} {enableInternalStratum : Bool} {now : DateTime}
    (hvalid : port.validate = []) (hfinite : port.isFinite = true)
    (hinit : s.context = onConnect enableInternalStratum port now) {es : List (Event Id)}
    (hrun : run (step rnd port platform settings) s es = some s') :
    Floored port s'.context.difficulty := by
  obtain ⟨minimum, hport⟩ := exists_ranged port hvalid hfinite
  have hstart : Bounded minimum s.context := hinit ▸ bounded_onConnect hport _ now
  have hbounded : Bounded minimum s'.context :=
    run_invariant_of_step (I := fun s => Bounded minimum s.context) (bounded_step hport) hstart hrun
  exact hbounded.difficulty.floored port hport.floor

/-- A port with VarDiff, whose clients start above its minimum. -/
def samplePort : PoolEndpoint where
  difficulty := .fin 4000
  varDiff := some VarDiff.sampleOptions.exact

/-- A client of the port. -/
def sampleClient (port : PoolEndpoint) : Session ℕ :=
  { sampleSession with context := onConnect true port 0 }

/-- An authorization with this password. -/
def sampleAuthorization (password : String) : Event ℕ :=
  .request sampleWorld (sampleRpcRequest "mining.authorize" ["a0", password]) .init 0

/-- A static difficulty below the one of the port, and an authorization that asks for less. -/
theorem floored_of_run_static :
    ∃ s', run (step .ofRat samplePort samplePlatform sampleSettings) (sampleClient samplePort)
        [sampleAuthorization "d=2000", sampleAuthorization "d=1500"] = some s' ∧
      s'.context.difficulty = .fin 2000 ∧ Floored samplePort s'.context.difficulty :=
  ⟨_, rfl, by decide +kernel, floored_of_run .ofRat samplePlatform sampleSettings
    (by decide +kernel) (by decide +kernel) (rfl : (sampleClient samplePort).context = _)
    (rfl : run _ _ [sampleAuthorization "d=2000", sampleAuthorization "d=1500"] = _)⟩

/-- The difficulty of a port can be infinite: it passes the validation, and a client starts with
it. -/
theorem infinite_port :
    let port : PoolEndpoint := ⟨.inf false, none⟩
    port.validate = [] ∧
      ∃ s', run (step .ofRat port samplePlatform sampleSettings) (sampleClient port) [] = some s' ∧
        ¬ Floored port s'.context.difficulty :=
  ⟨by decide +kernel, _, rfl, fun h => absurd h.finite (by decide +kernel)⟩

end AionPool.Aion.DifficultyFloor
