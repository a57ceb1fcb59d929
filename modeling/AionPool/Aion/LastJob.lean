import AionPool.Aion.InitialWork

/-!
# The last job a client gets

Broadcasts come one after the other. Each stores the job, looks whether the client is to get it, and
sends the stored job, which is still its own. `EnsureInitialWorkSent` does so too, in the handler of
a request: it claims the first work under the lock, and reads the job and sends it outside. A job
that it has read may be sent behind the broadcast of the next one.

* `HandlerTask`: where `EnsureInitialWorkSent` is, the reading of the job and its sending being two
  steps; `ensureInitialWorkSent_eq` gives the method back. A broadcast is a `BroadcastTask`.
* `Heard`: the last job that was sent is the stored one, or it is still to be sent by one of them.
* **`current_of_run`**: the last job is the stored one at the end of every run in which the handler
  sends no job behind the broadcast of another, and the steps of both succeed.

Models `AionPool.cs:249-316` as tasks that overlap.
-/

namespace AionPool.Aion.LastJob

open AionPool.Extensions AionPool.Lib.Effects AionPool.Lib.Run AionPool.Aion.Pool
open AionPool.Aion.InitialWork (BroadcastTask Reached advance advance_keeps)
open AionPool.Aion.UpdateJob (JobParams)
open AionPool.Lib.Binary64 (Double)

variable {Id : Type}

/-! ## Tasks -/

/-- Where `EnsureInitialWorkSent` is, with what it has read. -/
inductive HandlerTask where
  | claim
  | readJob (target : Text)
  | notify (jobParams : Option JobParams) (target : Text)
  | setTarget (target : Text)
  | done
  | failed
  deriving DecidableEq

variable (platform : Platform Id) (settings : Settings) (world : World)

/-- The next step of `EnsureInitialWorkSent`. -/
def HandlerTask.next : HandlerTask → Handler Id HandlerTask
  | .claim => do
    match ← claimInitialWork with
    | none => return .done
    | some target => return .readJob target
  | .readJob target => do
    let s ← get
    return .notify s.currentJobParams target
  | .notify jobParams target => do
    send platform (.miningNotify jobParams)
    return .setTarget target
  | .setTarget target => do
    send platform (.setTarget target)
    return .done
  | .done => return .done
  | .failed => return .failed

/-- A handler that nothing comes between. -/
theorem ensureInitialWorkSent_eq :
    ensureInitialWorkSent platform = (do
      let task ← HandlerTask.next platform .claim
      let task ← HandlerTask.next platform task
      let task ← HandlerTask.next platform task
      let _ ← HandlerTask.next platform task
      pure ()) := by
  unfold ensureInitialWorkSent HandlerTask.next
  simp only [bind_assoc]
  refine bind_congr fun target => ?_
  cases target with
  | none => simp only [pure_bind]
  | some target =>
    unfold sendWork
    simp only [bind_assoc, pure_bind, bind_pure_unit]

/-! ## Steps -/

/-- A client, and the two that send it jobs. -/
structure State (Id : Type) where
  session : Session Id
  handler : HandlerTask
  broadcast : BroadcastTask

/-- Before the handler has come to `EnsureInitialWorkSent`. -/
def State.init (session : Session Id) : State Id := ⟨session, .claim, .idle⟩

inductive Event where
  | handler
  /-- A broadcast begins, when there is none. -/
  | newJob (jobParams : Option JobParams)
  | broadcast (world : World)
  /-- The connection is closed. -/
  | close
  /-- The client is removed from the clients of the pool. -/
  | disconnect

def step (s : State Id) : Event → Option (State Id)
  | .handler =>
    let (task, session) := advance (s.handler.next platform) .failed s.session
    some { s with handler := task, session := session }
  | .newJob jobParams =>
    if s.broadcast = .idle then
      some { s with
        broadcast := .check
        session := { s.session with currentJobParams := jobParams } }
    else none
  | .broadcast world =>
    let (task, session) := advance (s.broadcast.next platform settings world) .idle s.session
    some { s with broadcast := task, session := session }
  | .close => some { s with session := { s.session with isAlive := false } }
  | .disconnect => some { s with session := s.session.disconnectClient }

/-! ## The last job -/

/-- The job a message tells. -/
def job : Message Id → Option (Option JobParams)
  | .miningNotify jobParams => some jobParams
  | _ => none

/-- The job that was sent last. -/
def lastJob (s : Session Id) : Option (Option JobParams) := (s.sent.filterMap job).getLast?

/-- The last job that a client was sent, to whom broadcasts go, is the stored one. -/
def Current (s : Session Id) : Prop := Reached s → lastJob s = some s.currentJobParams

/-- The handler is still to send the job. -/
def HandlerTask.isPending (jobParams : Option JobParams) : HandlerTask → Bool
  | .readJob _ => true
  | .notify read _ => read = jobParams
  | .claim | .setTarget _ | .done | .failed => false

/-- The broadcast is still to send its job. -/
def broadcastPending : BroadcastTask → Bool
  | .idle | .setTarget _ => false
  | _ => true

/-- The handler is behind `EnsureInitialWorkSent`, or that threw. -/
def HandlerTask.isFinished : HandlerTask → Bool
  | .done | .failed => true
  | _ => false

/-- When handler and broadcast have finished, a client that is still connected was last sent the
stored job. -/
def Settled (s : State Id) : Prop :=
  s.handler.isFinished = true → s.broadcast = .idle → s.session.registered = true →
    s.session.isAlive = true → Current s.session

/-- The handler loses no job: it sends the stored one, or the broadcast is still to send that. -/
def HandlerTask.Succeeds (s : Session Id) (broadcast : BroadcastTask) : HandlerTask → Prop
  | .claim => Claims s → broadcastPending broadcast = true ∨
      (diffToTarget s.context.difficulty).toOption.isSome = true
  | .notify jobParams _ => broadcastPending broadcast = true ∨
      (jobParams = s.currentJobParams ∧ platform.fits (.miningNotify jobParams) = true)
  | .readJob _ | .setTarget _ | .done | .failed => True

/-- The broadcast does not end with an exception before the job has been sent. -/
def BroadcastSucceeds (s : Session Id) : BroadcastTask → Prop
  | .notifyDifficulty applied => applied = true →
      platform.fits (.setDifficulty s.context.difficulty) = true
  | .computeTarget => (diffToTarget s.context.difficulty).toOption.isSome = true
  | .notify _ => platform.fits (.miningNotify s.currentJobParams) = true
  | .idle | .check | .applyPendingDifficulty | .setTarget _ => True

/-- The job comes to the client: neither loses it, unless the other is still to send it. -/
def JobComes (s : State Id) : Event → Prop
  | .handler => s.handler.Succeeds platform s.session s.broadcast
  | .broadcast _ => s.handler.isPending s.session.currentJobParams = true ∨
      BroadcastSucceeds platform s.session s.broadcast
  | .newJob _ | .close | .disconnect => True

/-- The job comes to a client that is connected. -/
def JobReaches (s : State Id) (e : Event) : Prop :=
  s.session.registered = true → s.session.isAlive = true → JobComes platform s e

/-! ## What a step does -/

/-- The last job was sent, or it is still to be sent. -/
def Heard (s : State Id) : Prop :=
  lastJob s.session = some s.session.currentJobParams ∨ broadcastPending s.broadcast = true ∨
    s.handler.isPending s.session.currentJobParams = true

/-- A client that is connected, and that broadcasts go to, has heard the job. -/
def Inv (s : State Id) : Prop :=
  s.session.registered = true → s.session.isAlive = true → Reached s.session → Heard s

variable {platform settings world}

theorem lastJob_append (s : Session Id) (message : Message Id) :
    lastJob { s with sent := s.sent ++ [message] } = (job message).or (lastJob s) := by
  unfold lastJob
  rw [List.filterMap_append, List.getLast?_append]
  cases message with
  | _ => rfl

section Advance

variable {Task : Type}

/-- A step that sends a message. -/
theorem advance_send {next : Handler Id Task} {message : Message Id} {task failed : Task}
    {s : Session Id} (hnext : next = do send platform message; return task)
    (halive : s.isAlive = true) :
    advance next failed s =
      if platform.fits message then (task, { s with sent := s.sent ++ [message] })
      else (failed, s) := by
  subst hnext
  unfold advance
  rcases run_send_cases platform message s with
    ⟨hrun, -, hfits⟩ | ⟨hrun, -, hfits⟩ | ⟨-, hclosed⟩
  · rw [run_bind_ok hrun, if_pos hfits]
    rfl
  · rw [run_bind_error hrun, if_neg (by simp [hfits])]
  · exact absurd (halive.symm.trans hclosed) (by simp)

end Advance

/-- What the steps of both leave alone. -/
structure SameJob (s s' : Session Id) : Prop where
  currentJobParams : s'.currentJobParams = s.currentJobParams
  isAlive : s'.isAlive = s.isAlive
  registered : s'.registered = true → s.registered = true

instance : IsPreorder (Session Id) SameJob where
  refl _ := ⟨rfl, rfl, fun h => h⟩
  trans _ _ _ h h' := {
    currentJobParams := h'.currentJobParams.trans h.currentJobParams
    isAlive := h'.isAlive.trans h.isAlive
    registered := fun hregistered => h.registered (h'.registered hregistered) }

theorem sameJob_send (message : Message Id) : Keeps SameJob Any (send platform message) :=
  keeps_send (fun _ => ⟨rfl, rfl, fun h => h⟩) trivial

theorem sameJob_handler (platform : Platform Id) (task : HandlerTask) :
    Keeps SameJob Any (task.next platform) := by
  cases task with
  | claim =>
    refine keeps_bind (keeps_claimInitialWork (fun _ => keeps_ofExcept_any _)
      (keeps_modify fun _ => ⟨rfl, rfl, fun h => h⟩)) fun target => ?_
    cases target with
    | none => exact keeps_pure _
    | some target => exact keeps_pure _
  | readJob target => exact keeps_bind keeps_get fun _ => keeps_pure _
  | notify jobParams target => exact keeps_bind (sameJob_send _) fun _ => keeps_pure _
  | setTarget target => exact keeps_bind (sameJob_send _) fun _ => keeps_pure _
  | done => exact keeps_pure _
  | failed => exact keeps_pure _

theorem sameJob_broadcast (platform : Platform Id) (settings : Settings) (world : World)
    (task : BroadcastTask) : Keeps SameJob Any (task.next platform settings world) :=
  InitialWork.keeps_broadcast sameJob_send (fun _ => ⟨rfl, rfl, nofun⟩)
    (fun _ => ⟨rfl, rfl, fun h => h⟩) task

/-- The next step of the handler, at a client that is connected. -/
theorem heard_handler {s : State Id} (halive : s.session.isAlive = true)
    (hcomes : JobComes platform s .handler) (h : Reached s.session → Heard s)
    (hreached : Reached (advance (s.handler.next platform) .failed s.session).2) :
    Heard { s with
      handler := (advance (s.handler.next platform) .failed s.session).1
      session := (advance (s.handler.next platform) .failed s.session).2 } := by
  obtain ⟨session, handler, broadcast⟩ := s
  dsimp only at halive h hreached ⊢
  cases handler with
  | claim =>
    by_cases hclaims : Claims session
    · have hguard := hcomes hclaims
      cases htarget : diffToTarget session.context.difficulty with
      | error e =>
        rw [htarget] at hguard
        exact Or.inr (Or.inl (hguard.resolve_right (by simp [Except.toOption])))
      | ok target =>
        refine Or.inr (Or.inr ?_)
        unfold advance HandlerTask.next
        rw [run_bind_ok ((run_claimInitialWork hclaims).trans
          (run_bind_ok (run_ofExcept_ok htarget _)))]
        rfl
    · have hstep : advance (HandlerTask.claim.next platform) .failed session =
          (.done, session) := by
        unfold advance HandlerTask.next
        rw [run_bind_ok (run_claimInitialWork_of_not hclaims)]
        rfl
      rw [hstep] at hreached ⊢
      exact (h hreached).imp_right fun h => h.imp_right nofun
  | readJob target => exact Or.inr (Or.inr (decide_eq_true rfl))
  | notify jobParams target =>
    have hnext : (HandlerTask.notify jobParams target).next platform = (do
        send platform (.miningNotify jobParams)
        return .setTarget target) := rfl
    rcases hcomes with hpending | ⟨hjob, hfits⟩
    · exact Or.inr (Or.inl hpending)
    · rw [advance_send hnext halive, if_pos hfits]
      exact Or.inl ((lastJob_append _ _).trans (congrArg some hjob))
  | setTarget target =>
    have hnext : (HandlerTask.setTarget target).next platform = (do
        send platform (.setTarget target)
        return .done) := rfl
    rw [advance_send hnext halive] at hreached ⊢
    split at hreached
    · rename_i hfits
      rw [if_pos hfits]
      refine (h hreached).imp (lastJob_append _ _).trans fun h => h.imp_right nofun
    · rename_i hfits
      rw [if_neg hfits]
      exact (h hreached).imp_right fun h => h.imp_right nofun
  | done => exact h hreached
  | failed => exact h hreached

/-- The next step of the broadcast, at a client that is connected. -/
theorem heard_broadcast {s : State Id}
    (hregistered : (advance (s.broadcast.next platform settings world) .idle
      s.session).2.registered = true)
    (halive : s.session.isAlive = true) (hcomes : JobComes platform s (.broadcast world))
    (h : Inv s)
    (hreached : Reached (advance (s.broadcast.next platform settings world) .idle s.session).2) :
    Heard { s with
      broadcast := (advance (s.broadcast.next platform settings world) .idle s.session).1
      session := (advance (s.broadcast.next platform settings world) .idle s.session).2 } := by
  have hsame := advance_keeps .idle
    (sameJob_broadcast platform settings world s.broadcast) s.session
  have hwas := hsame.registered hregistered
  rcases hcomes with hpending | hcomes
  · refine Or.inr (Or.inr ?_)
    dsimp only
    rw [hsame.currentJobParams]
    exact hpending
  replace h := h hwas halive
  clear hsame
  obtain ⟨session, handler, broadcast⟩ := s
  dsimp only at hregistered halive hcomes h hwas hreached ⊢
  cases broadcast with
  | idle => exact h hreached
  | check =>
    by_cases hgets : session.registered ∧ session.context.isSubscribed ∧
        session.context.isAuthorized ∧ session.context.isInitialWorkSent
    · by_cases hzombie : isZombie settings world session = true
      · have hstep : advance (BroadcastTask.check.next platform settings world) .idle session =
            (.idle, session.disconnectClient) := by
          unfold advance BroadcastTask.next
          rw [run_bind_ok (run_get session), if_pos hgets, if_pos hzombie]
          rfl
        rw [hstep] at hregistered
        exact nomatch hregistered
      · have hstep : advance (BroadcastTask.check.next platform settings world) .idle session =
            (.applyPendingDifficulty, session) := by
          unfold advance BroadcastTask.next
          rw [run_bind_ok (run_get session), if_pos hgets, if_neg hzombie]
          rfl
        rw [hstep]
        exact Or.inr (Or.inl rfl)
    · have hstep : advance (BroadcastTask.check.next platform settings world) .idle session =
          (.idle, session) := by
        unfold advance BroadcastTask.next
        rw [run_bind_ok (run_get session), if_neg hgets]
        rfl
      rw [hstep] at hreached
      exact absurd ⟨hwas, hreached⟩ hgets
  | applyPendingDifficulty => exact Or.inr (Or.inl rfl)
  | notifyDifficulty applied =>
    cases applied with
    | false => exact Or.inr (Or.inl rfl)
    | true =>
      refine Or.inr (Or.inl ?_)
      have hnext : (sendDifficulty platform true).run session =
          (send platform (.setDifficulty session.context.difficulty)).run session := rfl
      rw [run_send, if_pos halive, if_pos (hcomes rfl)] at hnext
      unfold advance BroadcastTask.next
      rw [run_bind_ok hnext]
      rfl
  | computeTarget =>
    refine Or.inr (Or.inl ?_)
    unfold advance BroadcastTask.next
    rw [run_bind_ok (run_get session)]
    cases htarget : diffToTarget session.context.difficulty with
    | error e =>
      have hok : (diffToTarget session.context.difficulty).toOption.isSome = true := hcomes
      rw [htarget] at hok
      exact nomatch hok
    | ok target =>
      rw [run_bind_ok (run_ofExcept_ok rfl session)]
      rfl
  | notify target =>
    have hfits : platform.fits (.miningNotify session.currentJobParams) = true := hcomes
    -- It reads the job that it stored.
    have hread : advance ((BroadcastTask.notify target).next platform settings world) .idle
        session = advance (do
          send platform (.miningNotify session.currentJobParams)
          return BroadcastTask.setTarget target) .idle session := rfl
    rw [hread, advance_send rfl halive, if_pos hfits]
    exact Or.inl (lastJob_append _ _)
  | setTarget target =>
    have hnext : (BroadcastTask.setTarget target).next platform settings world = (do
        send platform (.setTarget target)
        return .idle) := rfl
    rw [advance_send hnext halive] at hreached ⊢
    split at hreached
    · rename_i hfits
      rw [if_pos hfits]
      exact (h hreached).imp (lastJob_append _ _).trans fun h => h.imp_left nofun
    · rename_i hfits
      rw [if_neg hfits]
      exact (h hreached).imp_right fun h => h.imp_left nofun

/-! ## Runs -/

/-- A client that is reached is up to date. -/
theorem inv_init {session : Session Id} (hcurrent : Current session) :
    Inv (State.init session) :=
  fun _ _ hreached => Or.inl (hcurrent hreached)

variable (platform settings)

theorem inv_step (s : State Id) (e : Event) (s' : State Id) (h : Inv s)
    (hreaches : JobReaches platform s e) (hstep : step platform settings s e = some s') :
    Inv s' := by
  cases e with
  | handler =>
    obtain rfl := Option.some.inj hstep
    have hsame := advance_keeps .failed (sameJob_handler platform s.handler) s.session
    intro hregistered halive hreached
    have hwas := hsame.registered hregistered
    have halive' := hsame.isAlive.symm.trans halive
    exact heard_handler halive' (hreaches hwas halive') (h hwas halive') hreached
  | newJob jobParams =>
    obtain ⟨-, hstep⟩ := Option.ite_none_right_eq_some.mp hstep
    obtain rfl := Option.some.inj hstep
    exact fun _ _ _ => Or.inr (Or.inl rfl)
  | broadcast world =>
    obtain rfl := Option.some.inj hstep
    have hsame := advance_keeps .idle
      (sameJob_broadcast platform settings world s.broadcast) s.session
    intro hregistered halive hreached
    have hwas := hsame.registered hregistered
    have halive' := hsame.isAlive.symm.trans halive
    exact heard_broadcast hregistered halive' (hreaches hwas halive') h hreached
  | close =>
    obtain rfl := Option.some.inj hstep
    exact fun _ halive => nomatch halive
  | disconnect =>
    obtain rfl := Option.some.inj hstep
    exact fun hregistered => nomatch hregistered

theorem settled_of_inv {s : State Id} (h : Inv s) : Settled s := by
  intro hfinished hidle hregistered halive hreached
  refine (h hregistered halive hreached).resolve_right ?_
  rintro (hpending | hpending)
  · rw [hidle] at hpending
    exact nomatch hpending
  · obtain ⟨session, handler, broadcast⟩ := s
    cases handler with
    | done => exact nomatch hpending
    | failed => exact nomatch hpending
    | _ => exact nomatch hfinished

/-- **The last job a client gets is the stored one**, when the handler and the broadcasts have
finished, in every run in which the job comes to the client. -/
theorem current_of_run {session : Session Id} (hcurrent : Current session) (es : List Event)
    {s' : State Id}
    (hreaches : Along (step platform settings) (JobReaches platform) (State.init session) es)
    (hrun : run (step platform settings) (State.init session) es = some s') : Settled s' :=
  settled_of_inv
    (run_invariant (inv_step platform settings) (inv_init hcurrent) hreaches hrun)

variable {platform settings}

instance (s : Session Id) : Decidable (Claims s) := inferInstanceAs (Decidable (_ ∧ _ ∧ _))

instance (s : Session Id) (broadcast : BroadcastTask) :
    ∀ task : HandlerTask, Decidable (task.Succeeds platform s broadcast)
  | .claim => inferInstanceAs (Decidable (_ → _ ∨ _))
  | .notify _ _ => inferInstanceAs (Decidable (_ ∨ _ ∧ _))
  | .readJob _ | .setTarget _ | .done | .failed => isTrue trivial

instance (s : Session Id) : ∀ task : BroadcastTask, Decidable (BroadcastSucceeds platform s task)
  | .notifyDifficulty _ => inferInstanceAs (Decidable (_ → _))
  | .computeTarget | .notify _ => inferInstanceAs (Decidable (_ = true))
  | .idle | .check | .applyPendingDifficulty | .setTarget _ => isTrue trivial

instance (s : State Id) : ∀ e : Event, Decidable (JobComes platform s e)
  | .handler => inferInstanceAs (Decidable (HandlerTask.Succeeds _ _ _ _))
  | .broadcast _ => inferInstanceAs (Decidable (_ ∨ _))
  | .newJob _ | .close | .disconnect => isTrue trivial

instance (s : State Id) (e : Event) : Decidable (JobReaches platform s e) :=
  inferInstanceAs (Decidable (_ → _ → _))

def sampleJob (jobId : String) : Option JobParams :=
  some ⟨ascii jobId, true, ascii "ff", ascii "00"⟩

/-- A client that has subscribed and is authorized, at a pool with a first job. -/
def sampleSubscriber : Session ℕ :=
  { sampleSession with
    context := { sampleSession.context with isSubscribed := true, isAuthorized := true }
    currentJobParams := sampleJob "1" }

def broadcastSteps : List Event := List.replicate 6 (.broadcast sampleWorld)

/-- The handler reads the first job, and sends it when the second one has been stored. -/
def handlerFirst : List Event :=
  [.handler, .handler, .newJob (sampleJob "2"), .handler, .handler] ++ broadcastSteps

theorem current_in_order :
    ∃ s', run (step samplePlatform sampleSettings) (State.init sampleSubscriber) handlerFirst =
        some s' ∧
      s'.handler = .done ∧ s'.broadcast = .idle ∧ lastJob s'.session = some (sampleJob "2") ∧
      Settled s' :=
  ⟨_, rfl, by decide +kernel, by decide +kernel, by decide +kernel,
    current_of_run samplePlatform sampleSettings
      (show Current sampleSubscriber from fun h => absurd h.2.2 (by decide)) handlerFirst
      (by decide +kernel) rfl⟩

/-- **The first job is sent behind the second one**, which the handler has read before it was stored
and sent. -/
theorem not_current : ∃ (platform : Platform ℕ) (settings : Settings) (session : Session ℕ)
    (es : List Event) (s' : State ℕ), Current session ∧
      run (step platform settings) (State.init session) es = some s' ∧
      s'.session.sent.filterMap job = [sampleJob "2", sampleJob "1"] ∧
      s'.session.currentJobParams = sampleJob "2" ∧ ¬ Settled s' := by
  refine ⟨samplePlatform, sampleSettings, sampleSubscriber,
    [.handler, .handler, .newJob (sampleJob "2")] ++ broadcastSteps ++ [.handler, .handler], _,
    fun h => absurd h.2.2 (by decide), rfl, by decide +kernel, by decide +kernel, fun h => ?_⟩
  have hlast := h (by decide +kernel) (by decide +kernel) (by decide +kernel) (by decide +kernel)
    ⟨by decide +kernel, by decide +kernel, by decide +kernel⟩
  exact absurd hlast (by decide +kernel)

end AionPool.Aion.LastJob
