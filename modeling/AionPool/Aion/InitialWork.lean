import AionPool.Lib.Run
import AionPool.Aion.Replies

/-!
# The first work of a client

`mining.subscribe` and `mining.authorize` are processed by a task each, which may overlap with
each other and with broadcasts. Only the second one ends with `EnsureInitialWorkSent`, which sends
nothing to a client that has not been subscribed yet; broadcasts go only to clients whose first
work has been sent.

* `SubscribeTask`, `AuthorizeTask`, `BroadcastTask`: where a task is in its handler;
  `onSubscribeAsync_eq`, `onAuthorizeAsync_eq` and `onNewJobAsync_eq` give the handlers back.
* `AuthorizeInv`: what the task of the authorization has done of its work.
* **`served_of_run`**: a client gets work in every run in which the authorization looks for the
  subscription behind it.

Models `AionPool.cs:72-150` and `:276-316` as tasks that overlap.
-/

namespace AionPool.Aion.InitialWork

open AionPool.Extensions AionPool.Lib.Effects AionPool.Lib.Run AionPool.Aion.Pool
open AionPool.Aion.UpdateJob (JobParams)
open AionPool.Lib.Binary64 (Double)

variable {Id : Type}

/-! ## Tasks -/

/-- Where the task of a `mining.subscribe` is, with what it has read. -/
inductive SubscribeTask (Id : Type) where
  | start
  | respond (id : Id) (requestParams : List (Option Text)) (extraNonce1 : Text)
  | setSubscribed (requestParams : List (Option Text))
  | setUserAgent (requestParams : List (Option Text))
  | done
  | failed
  deriving DecidableEq

/-- Where the task of a `mining.authorize` is, with what it has read. -/
inductive AuthorizeTask (Id : Type) where
  | start
  | respond (id : Id) (authorize : AuthorizeRequest)
  | setDifficulty (authorize : AuthorizeRequest)
  /-- Before the lock of `EnsureInitialWorkSent`. -/
  | claim
  | notify (target : Text)
  | setTarget (target : Text)
  | done
  | failed
  deriving DecidableEq

/-- Where a broadcast is, when it comes to the client. -/
inductive BroadcastTask where
  | idle
  | check
  | applyPendingDifficulty
  | notifyDifficulty (applied : Bool)
  | computeTarget
  | notify (target : Text)
  | setTarget (target : Text)
  deriving DecidableEq

variable (platform : Platform Id) (settings : Settings) (world : World)

/-- The next step of `OnSubscribeAsync`. -/
def SubscribeTask.next (request : Request Id) : SubscribeTask Id → Handler Id (SubscribeTask Id)
  | .start => do
    let id ← MonadExcept.ofExcept (requestId .other request)
    let requestParams ← MonadExcept.ofExcept (subscribeParams request)
    let extraNonce1 ← prepareWorker
    return .respond id requestParams extraNonce1
  | .respond id requestParams extraNonce1 => do
    let s ← get
    send platform (.response id (.subscription s.connectionId extraNonce1))
    return .setSubscribed requestParams
  | .setSubscribed requestParams => do
    modify fun s => s.mapContext fun c => { c with isSubscribed := true }
    return .setUserAgent requestParams
  | .setUserAgent requestParams => do
    let userAgent ← MonadExcept.ofExcept (subscribeAgent platform requestParams)
    modify fun s => s.mapContext fun c => { c with userAgent := some userAgent }
    return .done
  | .done => return .done
  | .failed => return .failed

/-- The next step of `OnAuthorizeAsync`. -/
def AuthorizeTask.next (request : Request Id) : AuthorizeTask Id → Handler Id (AuthorizeTask Id)
  | .start => do
    let id ← MonadExcept.ofExcept (requestId .minusOne request)
    let authorize ← MonadExcept.ofExcept (authorizeRequest platform request.params)
    authorizeWorker world authorize
    return .respond id authorize
  | .respond id authorize => do
    let s ← get
    send platform (.response id (.bool s.context.isAuthorized))
    return .setDifficulty authorize
  | .setDifficulty authorize => do
    authorizeDifficulty platform settings authorize
    return .claim
  | .claim => do
    match ← claimInitialWork with
    | none => return .done
    | some target => return .notify target
  | .notify target => do
    let s ← get
    send platform (.miningNotify s.currentJobParams)
    return .setTarget target
  | .setTarget target => do
    send platform (.setTarget target)
    return .done
  | .done => return .done
  | .failed => return .failed

/-- The next step of `OnNewJobAsync`, behind the setting of `currentJobParams`. -/
def BroadcastTask.next : BroadcastTask → Handler Id BroadcastTask
  | .idle => return .idle
  | .check => do
    let s ← get
    if s.registered ∧ s.context.isSubscribed ∧ s.context.isAuthorized ∧
        s.context.isInitialWorkSent then
      if isZombie settings world s then
        modify Session.disconnectClient
        return .idle
      else return .applyPendingDifficulty
    else return .idle
  | .applyPendingDifficulty => do
    let hasPendingDifficulty := (← get).context.pendingDifficulty.isSome
    modify fun s => s.mapContext WorkerContext.applyPendingDifficulty
    return .notifyDifficulty hasPendingDifficulty
  | .notifyDifficulty applied => do
    sendDifficulty platform applied
    return .computeTarget
  | .computeTarget => do
    let s ← get
    let target ← MonadExcept.ofExcept (diffToTarget s.context.difficulty)
    return .notify target
  | .notify target => do
    let s ← get
    send platform (.miningNotify s.currentJobParams)
    return .setTarget target
  | .setTarget target => do
    send platform (.setTarget target)
    return .idle

/-- A subscription that nothing comes between. -/
theorem onSubscribeAsync_eq (request : Request Id) :
    onSubscribeAsync platform request = (do
      let task ← SubscribeTask.next platform request .start
      let task ← SubscribeTask.next platform request task
      let task ← SubscribeTask.next platform request task
      let _ ← SubscribeTask.next platform request task
      pure ()) := by
  unfold onSubscribeAsync SubscribeTask.next
  simp only [bind_assoc, pure_bind]
  rfl

/-- An authorization that nothing comes between. -/
theorem onAuthorizeAsync_eq (request : Request Id) :
    onAuthorizeAsync platform settings world request = (do
      let task ← AuthorizeTask.next platform settings world request .start
      let task ← AuthorizeTask.next platform settings world request task
      let task ← AuthorizeTask.next platform settings world request task
      let task ← AuthorizeTask.next platform settings world request task
      let task ← AuthorizeTask.next platform settings world request task
      let _ ← AuthorizeTask.next platform settings world request task
      pure ()) := by
  unfold onAuthorizeAsync AuthorizeTask.next ensureInitialWorkSent
  simp only [bind_assoc, pure_bind]
  refine bind_congr fun id => bind_congr fun authorize => bind_congr fun _ => bind_congr fun s =>
    bind_congr fun _ => bind_congr fun _ => bind_congr fun target => ?_
  cases target with
  | none =>
    simp only [pure_bind]
  | some target =>
    unfold sendWork
    simp only [bind_assoc, pure_bind, bind_pure_unit]

/-- A broadcast that nothing comes between. -/
theorem onNewJobAsync_eq (jobParams : Option JobParams) :
    onNewJobAsync platform settings world jobParams = (do
      modify fun s => { s with currentJobParams := jobParams }
      let task ← BroadcastTask.next platform settings world .check
      let task ← BroadcastTask.next platform settings world task
      let task ← BroadcastTask.next platform settings world task
      let task ← BroadcastTask.next platform settings world task
      let task ← BroadcastTask.next platform settings world task
      let _ ← BroadcastTask.next platform settings world task
      pure ()) := by
  unfold onNewJobAsync BroadcastTask.next broadcastWork sendWork
  simp only [bind_assoc]
  refine bind_congr fun _ => bind_congr fun s => ?_
  split
  · split
    · simp only [bind_assoc, pure_bind, bind_pure_unit]
    · simp only [bind_assoc, pure_bind, bind_pure_unit]
  · simp only [pure_bind]

/-! ## Steps -/

/-- A client whose two requests are being processed. -/
structure State (Id : Type) where
  session : Session Id
  subscribe : SubscribeTask Id
  authorize : AuthorizeTask Id
  broadcast : BroadcastTask

/-- Before either request has been looked at. -/
def State.init (session : Session Id) : State Id := ⟨session, .start, .start, .idle⟩

/-- A task that throws has failed, and the exception is dealt with elsewhere. -/
def advance {Task : Type} (next : Handler Id Task) (failed : Task) (s : Session Id) :
    Task × Session Id :=
  match next.run s with
  | .ok task s' => (task, s')
  | .error _ s' => (failed, s')

inductive Event where
  | subscribe
  | authorize (world : World)
  /-- A broadcast begins, when there is none. -/
  | newJob (jobParams : Option JobParams)
  | broadcast (world : World)

variable (subscription authorization : Request Id)

def step (s : State Id) : Event → Option (State Id)
  | .subscribe =>
    let (task, session) := advance (s.subscribe.next platform subscription) .failed s.session
    some { s with subscribe := task, session := session }
  | .authorize world =>
    let (task, session) :=
      advance (s.authorize.next platform settings world authorization) .failed s.session
    some { s with authorize := task, session := session }
  | .newJob jobParams =>
    if s.broadcast = .idle then
      some { s with
        broadcast := .check
        session := { s.session with currentJobParams := jobParams } }
    else none
  | .broadcast world =>
    let (task, session) := advance (s.broadcast.next platform settings world) .idle s.session
    some { s with broadcast := task, session := session }

/-- The clients a broadcast goes to. -/
def Reached (s : Session Id) : Prop :=
  s.context.isSubscribed = true ∧ s.context.isAuthorized = true ∧
    s.context.isInitialWorkSent = true

/-- Work was sent: a job, and a target. -/
def WorkSent (s : Session Id) : Prop :=
  (∃ jobParams, .miningNotify jobParams ∈ s.sent) ∧ ∃ target, .setTarget target ∈ s.sent

/-- **An authorized subscriber has got work**, once there is a job, and broadcasts go to it. -/
def Served (s : State Id) : Prop :=
  s.subscribe = .done → s.authorize = .done → s.session.context.isAuthorized = true →
    s.session.currentJobParams.isSome = true → Reached s.session ∧ WorkSent s.session

/-- `EnsureInitialWorkSent` finds the client subscribed, unless it has not been authorized. -/
def Ordered (s : State Id) : Event → Prop
  | .authorize _ => s.authorize = .claim → s.session.context.isAuthorized = true →
      s.session.context.isSubscribed = true
  | .subscribe | .newJob _ | .broadcast _ => True

/-! ## What a step leaves alone -/

variable {platform settings world subscription authorization}

/-- What holds of the messages of a broadcast, and of what it writes, holds of its steps. -/
theorem keeps_broadcast {R : Session Id → Session Id → Prop} [IsPreorder (Session Id) R]
    (hsend : ∀ message, Keeps R Any (send platform message))
    (hdisconnect : ∀ s, R s s.disconnectClient)
    (happly : ∀ s, R s (s.mapContext WorkerContext.applyPendingDifficulty))
    (task : BroadcastTask) : Keeps R Any (task.next platform settings world) := by
  cases task with
  | idle => exact keeps_pure _
  | check =>
    refine keeps_bind keeps_get fun s => ?_
    split
    · split
      · exact keeps_bind (keeps_modify hdisconnect) fun _ => keeps_pure _
      · exact keeps_pure _
    · exact keeps_pure _
  | applyPendingDifficulty =>
    refine keeps_bind keeps_get fun s => ?_
    exact keeps_bind (keeps_modify happly) fun _ => keeps_pure _
  | notifyDifficulty applied =>
    exact keeps_bind (keeps_sendDifficulty (fun _ => hsend _) _) fun _ => keeps_pure _
  | computeTarget =>
    refine keeps_bind keeps_get fun s => ?_
    exact keeps_bind (keeps_ofExcept_any _) fun _ => keeps_pure _
  | notify target =>
    refine keeps_bind keeps_get fun s => ?_
    exact keeps_bind (hsend _) fun _ => keeps_pure _
  | setTarget target => exact keeps_bind (hsend _) fun _ => keeps_pure _

/-- What the steps of the subscription, and broadcasts, leave to the authorization. -/
structure Undisturbed (s s' : Session Id) : Prop where
  isAlive : s'.isAlive = s.isAlive
  isAuthorized : s'.context.isAuthorized = s.context.isAuthorized
  isInitialWorkSent : s'.context.isInitialWorkSent = s.context.isInitialWorkSent
  sent : ∀ message ∈ s.sent, message ∈ s'.sent
  isSubscribed : s.context.isSubscribed = true → s'.context.isSubscribed = true

instance : IsPreorder (Session Id) Undisturbed where
  refl _ := ⟨rfl, rfl, rfl, fun _ h => h, fun h => h⟩
  trans _ _ _ h h' := {
    isAlive := h'.isAlive.trans h.isAlive
    isAuthorized := h'.isAuthorized.trans h.isAuthorized
    isInitialWorkSent := h'.isInitialWorkSent.trans h.isInitialWorkSent
    sent := fun message hmessage => h'.sent message (h.sent message hmessage)
    isSubscribed := fun hsubscribed => h'.isSubscribed (h.isSubscribed hsubscribed) }

theorem undisturbed_send (message : Message Id) :
    Keeps Undisturbed Any (send platform message) :=
  keeps_send (fun _ => ⟨rfl, rfl, rfl, fun _ h => List.mem_append_left _ h, fun h => h⟩) trivial

theorem undisturbed_subscribe (platform : Platform Id) (subscription : Request Id)
    (task : SubscribeTask Id) :
    Keeps Undisturbed Any (task.next platform subscription) := by
  cases task with
  | start =>
    refine keeps_bind (keeps_ofExcept_any _) fun id => ?_
    refine keeps_bind (keeps_ofExcept_any _) fun requestParams => ?_
    refine keeps_bind ?_ fun _ => keeps_pure _
    refine keeps_bind keeps_get fun _ => ?_
    exact keeps_bind (keeps_modify fun _ => ⟨rfl, rfl, rfl, fun _ h => h, fun h => h⟩) fun _ =>
      keeps_pure _
  | respond id requestParams extraNonce1 =>
    refine keeps_bind keeps_get fun _ => ?_
    exact keeps_bind (undisturbed_send _) fun _ => keeps_pure _
  | setSubscribed requestParams =>
    exact keeps_bind (keeps_modify fun _ => ⟨rfl, rfl, rfl, fun _ h => h, fun _ => rfl⟩) fun _ =>
      keeps_pure _
  | setUserAgent requestParams =>
    refine keeps_bind (keeps_ofExcept_any _) fun userAgent => ?_
    exact keeps_bind (keeps_modify fun _ => ⟨rfl, rfl, rfl, fun _ h => h, fun h => h⟩) fun _ =>
      keeps_pure _
  | done => exact keeps_pure _
  | failed => exact keeps_pure _

theorem undisturbed_newJob (s : Session Id) (jobParams : Option JobParams) :
    Undisturbed s { s with currentJobParams := jobParams } :=
  ⟨rfl, rfl, rfl, fun _ h => h, fun h => h⟩

theorem undisturbed_broadcast (platform : Platform Id) (settings : Settings) (world : World)
    (task : BroadcastTask) : Keeps Undisturbed Any (task.next platform settings world) := by
  refine keeps_broadcast undisturbed_send (fun _ => ⟨rfl, rfl, rfl, fun _ h => h, fun h => h⟩)
    (fun s => ?_) task
  obtain ⟨hauthorized, hmark, hsubscribed⟩ := applyPendingDifficulty_keeps s.context
  exact ⟨rfl, hauthorized, hmark, fun _ h => h, fun h => hsubscribed.trans h⟩

/-- What the steps of the authorization leave to the subscription. -/
structure Untouched (s s' : Session Id) : Prop where
  isAlive : s'.isAlive = s.isAlive
  isSubscribed : s'.context.isSubscribed = s.context.isSubscribed

instance : IsPreorder (Session Id) Untouched where
  refl _ := ⟨rfl, rfl⟩
  trans _ _ _ h h' := ⟨h'.isAlive.trans h.isAlive, h'.isSubscribed.trans h.isSubscribed⟩

theorem untouched_send (message : Message Id) : Keeps Untouched Any (send platform message) :=
  keeps_send (fun _ => ⟨rfl, rfl⟩) trivial

/-- What is done of an authorization before its work, which is not marked as sent by then. -/
structure Unmarked (s s' : Session Id) : Prop extends Untouched s s' where
  isInitialWorkSent : s'.context.isInitialWorkSent = s.context.isInitialWorkSent

instance : IsPreorder (Session Id) Unmarked where
  refl s := ⟨refl_of Untouched s, rfl⟩
  trans _ _ _ h h' := ⟨trans_of Untouched h.toUntouched h'.toUntouched,
    h'.isInitialWorkSent.trans h.isInitialWorkSent⟩

theorem unmarked_authorizeWorker (authorize : AuthorizeRequest) :
    Keeps Unmarked Any (authorizeWorker world authorize : Handler Id Unit) :=
  fun _ => ⟨⟨rfl, rfl⟩, rfl⟩

theorem unmarked_authorizeDifficulty (authorize : AuthorizeRequest) :
    Keeps Unmarked Any (authorizeDifficulty platform settings authorize) := by
  intro s
  obtain ⟨hmark, -, hsubscribed, -⟩ :=
    applyStaticDiff_keeps s.context (staticDiff platform authorize.passParts s.context)
  exact ⟨⟨rfl, hsubscribed⟩, hmark⟩

/-! ## What a task has done -/

/-- The subscription is known before its task is done. -/
def SubscribeInv (s : Session Id) : SubscribeTask Id → Prop
  | .setUserAgent _ | .done => s.context.isSubscribed = true
  | _ => True

/-- What the task of the authorization has done of its work. -/
def AuthorizeInv (s : Session Id) : AuthorizeTask Id → Prop
  | .start | .respond _ _ | .setDifficulty _ | .claim => s.context.isInitialWorkSent = false
  | .notify _ => s.context.isInitialWorkSent = true
  | .setTarget _ => s.context.isInitialWorkSent = true ∧
      ∃ jobParams, .miningNotify jobParams ∈ s.sent
  | .done => s.context.isAuthorized = true →
      s.context.isInitialWorkSent = true ∧ WorkSent s
  | .failed => True

theorem SubscribeInv.mono {s s' : Session Id} {task : SubscribeTask Id}
    (h : SubscribeInv s task)
    (hkept : s.context.isSubscribed = true → s'.context.isSubscribed = true) :
    SubscribeInv s' task := by
  cases task with
  | setUserAgent requestParams => exact hkept h
  | done => exact hkept h
  | _ => trivial

theorem AuthorizeInv.mono {s s' : Session Id} {task : AuthorizeTask Id} (h : AuthorizeInv s task)
    (hkept : Undisturbed s s') : AuthorizeInv s' task := by
  have hjob : (∃ jobParams, .miningNotify jobParams ∈ s.sent) →
      ∃ jobParams, .miningNotify jobParams ∈ s'.sent :=
    fun ⟨jobParams, hsent⟩ => ⟨jobParams, hkept.sent _ hsent⟩
  cases task with
  | failed => trivial
  | setTarget target => exact ⟨hkept.isInitialWorkSent.trans h.1, hjob h.2⟩
  | done =>
    intro hauthorized
    obtain ⟨hmark, hjobs, target, hsent⟩ := h (hkept.isAuthorized.symm.trans hauthorized)
    exact ⟨hkept.isInitialWorkSent.trans hmark, hjob hjobs, target, hkept.sent _ hsent⟩
  | _ => exact hkept.isInitialWorkSent.trans h

section Advance

variable {Task : Type} {failed : Task} {s : Session Id}

/-- A step that throws half-way has failed. -/
theorem advance_bind {α : Type} {x : Handler Id α} {f : α → Handler Id Task}
    {R : Session Id → Session Id → Prop} {Q : Task × Session Id → Prop} (hx : Keeps R Any x)
    (herror : ∀ t, Q (failed, t)) (hok : ∀ a t, R s t → Q (advance (f a) failed t)) :
    Q (advance (x >>= f) failed s) := by
  cases hrun : x.run s with
  | ok a t =>
    have h := hok a t (hx.of_ok hrun)
    unfold advance at h ⊢
    rw [run_bind_ok hrun]
    exact h
  | error e t =>
    unfold advance
    rw [run_bind_error hrun]
    exact herror t

theorem advance_keeps (failed : Task) {R : Session Id → Session Id → Prop} {next : Handler Id Task}
    (h : Keeps R Any next) (s : Session Id) : R s (advance next failed s).2 := by
  unfold advance
  cases hrun : next.run s with
  | ok task t => exact h.of_ok hrun
  | error e t => exact (h.of_error hrun).1

end Advance

theorem subscribeInv_advance (task : SubscribeTask Id) (s : Session Id)
    (h : SubscribeInv s task) :
    SubscribeInv (advance (task.next platform subscription) .failed s).2
      (advance (task.next platform subscription) .failed s).1 := by
  cases task with
  | start =>
    refine advance_bind (Q := fun p => SubscribeInv p.2 p.1)
      (keeps_ofExcept_any (R := Undisturbed) _) (fun _ => trivial) fun id t _ => ?_
    refine advance_bind (Q := fun p => SubscribeInv p.2 p.1)
      (keeps_ofExcept_any (R := Undisturbed) _) (fun _ => trivial) fun requestParams t _ => trivial
  | respond id requestParams extraNonce1 =>
    refine advance_bind (Q := fun p => SubscribeInv p.2 p.1) (keeps_get (R := Undisturbed))
      (fun _ => trivial) fun _ t _ => ?_
    exact advance_bind (Q := fun p => SubscribeInv p.2 p.1) (undisturbed_send _)
      (fun _ => trivial) fun _ t _ => trivial
  | setSubscribed requestParams => exact rfl
  | setUserAgent requestParams =>
    exact advance_bind (Q := fun p => SubscribeInv p.2 p.1)
      (keeps_ofExcept_any (R := Undisturbed) _) (fun _ => trivial)
      fun userAgent t ht => ht.isSubscribed h
  | done => exact h
  | failed => trivial

/-- A message of the task is sent, or the task has failed. -/
theorem advance_send {next : AuthorizeTask Id} {message : Message Id} {s : Session Id}
    (halive : s.isAlive = true)
    (h : AuthorizeInv { s with sent := s.sent ++ [message] } next) :
    AuthorizeInv (advance (do send platform message; return next) .failed s).2
      (advance (do send platform message; return next) .failed s).1 := by
  unfold advance
  rcases run_send_cases platform message s with ⟨hrun, -⟩ | ⟨hrun, -⟩ | ⟨-, hclosed⟩
  · rw [run_bind_ok hrun]
    exact h
  · rw [run_bind_error hrun]
    trivial
  · exact absurd (halive.symm.trans hclosed) (by simp)

/-- `EnsureInitialWorkSent` finds the client subscribed when the task of the authorization comes
there. -/
theorem authorizeInv_advance (task : AuthorizeTask Id) (s : Session Id) (h : AuthorizeInv s task)
    (halive : s.isAlive = true)
    (hordered : task = .claim → s.context.isAuthorized = true → s.context.isSubscribed = true) :
    AuthorizeInv (advance (task.next platform settings world authorization) .failed s).2
      (advance (task.next platform settings world authorization) .failed s).1 := by
  cases task with
  | start =>
    refine advance_bind (Q := fun p => AuthorizeInv p.2 p.1) (keeps_ofExcept_any (R := Unmarked) _)
      (fun _ => trivial) fun id t ht => ?_
    refine advance_bind (Q := fun p => AuthorizeInv p.2 p.1) (keeps_ofExcept_any (R := Unmarked) _)
      (fun _ => trivial) fun authorize u hu => ?_
    exact advance_bind (Q := fun p => AuthorizeInv p.2 p.1) (unmarked_authorizeWorker _)
      (fun _ => trivial) fun _ v hv => hv.isInitialWorkSent.trans
        (hu.isInitialWorkSent.trans (ht.isInitialWorkSent.trans h))
  | respond id authorize => exact advance_send halive h
  | setDifficulty authorize =>
    exact advance_bind (Q := fun p => AuthorizeInv p.2 p.1) (unmarked_authorizeDifficulty _)
      (fun _ => trivial) fun _ t ht => ht.isInitialWorkSent.trans h
  | claim =>
    unfold advance AuthorizeTask.next
    by_cases hclaims : Claims s
    · cases htarget : diffToTarget s.context.difficulty with
      | error e =>
        rw [run_bind_error ((run_claimInitialWork hclaims).trans
          (run_bind_error (run_ofExcept_error htarget _)))]
        trivial
      | ok target =>
        rw [run_bind_ok ((run_claimInitialWork hclaims).trans
          (run_bind_ok (run_ofExcept_ok htarget _)))]
        exact rfl
    · rw [run_bind_ok (run_claimInitialWork_of_not hclaims)]
      exact fun hauthorized =>
        absurd ⟨hordered rfl hauthorized, hauthorized, h⟩ hclaims
  | notify target =>
    exact advance_send halive
      ⟨h, s.currentJobParams, List.mem_append_right _ (List.mem_singleton_self _)⟩
  | setTarget target =>
    obtain ⟨hmark, jobParams, hsent⟩ := h
    exact advance_send halive fun _ => ⟨hmark, ⟨jobParams, List.mem_append_left _ hsent⟩,
      target, List.mem_append_right _ (List.mem_singleton_self _)⟩
  | done => exact h
  | failed => trivial

theorem untouched_authorize (platform : Platform Id) (settings : Settings) (world : World)
    (authorization : Request Id) (task : AuthorizeTask Id) :
    Keeps Untouched Any (task.next platform settings world authorization) := by
  cases task with
  | start =>
    refine keeps_bind (keeps_ofExcept_any _) fun id => ?_
    refine keeps_bind (keeps_ofExcept_any _) fun authorize => ?_
    exact keeps_bind ((unmarked_authorizeWorker _).mono
      (fun _ _ h => h.toUntouched) fun _ h => h) fun _ => keeps_pure _
  | respond id authorize =>
    exact keeps_bind keeps_get fun _ =>
      keeps_bind (untouched_send _) fun _ => keeps_pure _
  | setDifficulty authorize =>
    exact keeps_bind
      ((unmarked_authorizeDifficulty _).mono (fun _ _ h => h.toUntouched) fun _ h => h)
      fun _ => keeps_pure _
  | claim =>
    refine keeps_bind (keeps_claimInitialWork
      (fun _ => keeps_ofExcept_any _) (keeps_modify fun _ => ⟨rfl, rfl⟩)) fun target => ?_
    cases target with
    | none => exact keeps_pure _
    | some target => exact keeps_pure _
  | notify target =>
    exact keeps_bind keeps_get fun _ =>
      keeps_bind (untouched_send _) fun _ => keeps_pure _
  | setTarget target => exact keeps_bind (untouched_send _) fun _ => keeps_pure _
  | done => exact keeps_pure _
  | failed => exact keeps_pure _

/-! ## Runs -/

/-- What holds of a client and its two tasks. -/
structure Inv (s : State Id) : Prop where
  isAlive : s.session.isAlive = true
  subscribe : SubscribeInv s.session s.subscribe
  authorize : AuthorizeInv s.session s.authorize

/-- A broadcast leaves both tasks alone. -/
theorem Inv.undisturbed {s : State Id} (h : Inv s) {session : Session Id}
    (hkept : Undisturbed s.session session) (broadcast : BroadcastTask) :
    Inv { s with session := session, broadcast := broadcast } where
  isAlive := hkept.isAlive.trans h.isAlive
  subscribe := h.subscribe.mono hkept.isSubscribed
  authorize := h.authorize.mono hkept

variable (platform settings subscription authorization)

theorem inv_step (s : State Id) (e : Event) (s' : State Id) (h : Inv s) (hordered : Ordered s e)
    (hstep : step platform settings subscription authorization s e = some s') : Inv s' := by
  cases e with
  | subscribe =>
    obtain rfl := Option.some.inj hstep
    have hkept := advance_keeps .failed
      (undisturbed_subscribe platform subscription s.subscribe) s.session
    exact {
      isAlive := hkept.isAlive.trans h.isAlive
      subscribe := subscribeInv_advance s.subscribe s.session h.subscribe
      authorize := h.authorize.mono hkept }
  | authorize world =>
    obtain rfl := Option.some.inj hstep
    have hkept := advance_keeps .failed
      (untouched_authorize platform settings world authorization s.authorize) s.session
    exact {
      isAlive := hkept.isAlive.trans h.isAlive
      subscribe := h.subscribe.mono fun hsubscribed => hkept.isSubscribed.trans hsubscribed
      authorize := authorizeInv_advance s.authorize s.session h.authorize h.isAlive hordered }
  | newJob jobParams =>
    obtain ⟨-, hstep⟩ := Option.ite_none_right_eq_some.mp hstep
    obtain rfl := Option.some.inj hstep
    exact h.undisturbed (undisturbed_newJob s.session jobParams) _
  | broadcast world =>
    obtain rfl := Option.some.inj hstep
    exact h.undisturbed (advance_keeps .idle
      (undisturbed_broadcast platform settings world s.broadcast) s.session) _

theorem inv_init {session : Session Id} {difficulty : Double} {varDiff : Option VarDiffConfig}
    {now : DateTime} (hinit : session.context = .init difficulty varDiff now)
    (halive : session.isAlive = true) : Inv (State.init session) := by
  refine ⟨halive, trivial, ?_⟩
  change session.context.isInitialWorkSent = false
  rw [hinit]
  rfl

theorem served_of_inv {s : State Id} (h : Inv s) : Served s := by
  intro hsubscribe hauthorize hauthorized _
  have hsubscribed := h.subscribe
  have hwork := h.authorize
  rw [hsubscribe] at hsubscribed
  rw [hauthorize] at hwork
  obtain ⟨hmark, hsent⟩ := hwork hauthorized
  exact ⟨⟨hsubscribed, hauthorized, hmark⟩, hsent⟩

/-- **A client whose two requests have been processed has got work**, in every run in which its
authorization looks for the subscription when that is there. -/
theorem served_of_run {session : Session Id} {difficulty : Double}
    {varDiff : Option VarDiffConfig} {now : DateTime}
    (hinit : session.context = .init difficulty varDiff now) (halive : session.isAlive = true)
    (es : List Event) {s' : State Id}
    (hordered : Along (step platform settings subscription authorization) Ordered
      (State.init session) es)
    (hrun : run (step platform settings subscription authorization) (State.init session) es =
      some s') : Served s' :=
  served_of_inv (run_invariant (inv_step platform settings subscription authorization)
    (inv_init hinit halive) hordered hrun)

instance (s : State Id) (e : Event) [DecidableEq Id] : Decidable (Ordered s e) :=
  match e with
  | .authorize _ => inferInstanceAs (Decidable (_ → _ → _))
  | .subscribe | .newJob _ | .broadcast _ => isTrue trivial

/-- A client that has connected to a pool with a job. -/
def sampleClient : Session ℕ :=
  { sampleSession with currentJobParams := some ⟨ascii "1", true, ascii "ff", ascii "00"⟩ }

def sampleSubscription : Request ℕ := sampleRpcRequest "mining.subscribe" ["miner", "1"]

def sampleAuthorization : Request ℕ := sampleRpcRequest "mining.authorize" ["a0", "x"]

/-- All steps of a subscription, and of an authorization. -/
def subscribeSteps : List Event := List.replicate 4 .subscribe

def authorizeSteps : List Event := List.replicate 6 (.authorize sampleWorld)

/-- Both requests step by step in turn, with a broadcast that comes too early for the client and one
that comes between the first job and its target. -/
def overlappingSteps (newer : JobParams) : List Event :=
  [.subscribe, .authorize sampleWorld, .subscribe, .authorize sampleWorld, .newJob (some newer),
    .subscribe, .broadcast sampleWorld, .authorize sampleWorld, .authorize sampleWorld,
    .newJob (some newer), .authorize sampleWorld, .broadcast sampleWorld, .subscribe,
    .authorize sampleWorld] ++ List.replicate 5 (.broadcast sampleWorld)

/-- The client is subscribed when its authorization looks, and gets the newer job twice. -/
theorem served_in_order :
    let newer : JobParams := ⟨ascii "2", true, ascii "ee", ascii "00"⟩
    ∃ s', run (step samplePlatform sampleSettings sampleSubscription sampleAuthorization)
        (State.init sampleClient) (overlappingSteps newer) = some s' ∧
      s'.subscribe = .done ∧ s'.authorize = .done ∧ s'.session.context.isAuthorized = true ∧
      s'.session.sent.count (.miningNotify (some newer)) = 2 ∧ Served s' :=
  ⟨_, rfl, by decide +kernel, by decide +kernel, by decide +kernel, by decide +kernel,
    served_of_run samplePlatform sampleSettings sampleSubscription sampleAuthorization
      (rfl : sampleClient.context = .init (.fin 4) none 0) rfl
      (overlappingSteps _) (by decide +kernel) rfl⟩

/-- An authorization before the subscription leaves the client without work. -/
theorem not_served : ∃ (platform : Platform ℕ) (settings : Settings)
    (subscription authorization : Request ℕ) (session : Session ℕ) (difficulty : Double)
    (varDiff : Option VarDiffConfig) (now : DateTime) (es : List Event) (s' : State ℕ),
    session.context = .init difficulty varDiff now ∧ session.isAlive = true ∧
      run (step platform settings subscription authorization) (State.init session) es = some s' ∧
      ¬ Served s' := by
  refine ⟨samplePlatform, sampleSettings, sampleSubscription, sampleAuthorization, sampleClient,
    .fin 4, none, 0, authorizeSteps ++ subscribeSteps, _, rfl, rfl, rfl, fun hserved => ?_⟩
  have hmark := (hserved (by decide +kernel) (by decide +kernel) (by decide +kernel)
    (by decide +kernel)).1.2.2
  exact absurd hmark (by decide +kernel)

end AionPool.Aion.InitialWork
