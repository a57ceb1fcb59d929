import AionPool.Aion.Pool

/-!
# The replies to a request

A request has its reply sent by the handler, behind which nothing is sent for it any more, or by the
`catch` of `OnRequestAsync`. `OnSubmitAsync` does both: it replies to a submission it rejects and
throws the exception on. Other exceptions are logged by `OnReceive`, which replies to none.

* `keeps_ensureInitialWorkSent`: what is sent without a request having been answered.
* `Keeps (Quiet id)`: what a program does without a reply.
* **`oneReply_iff`**: when exactly one reply is sent.

About `AionPool.cs:72-247` and `:413-445`.
-/

namespace AionPool.Aion.Pool

open AionPool.Extensions AionPool.Lib.Effects
open AionPool.Aion.UpdateJob (JobParams)
open AionPool.Lib.Binary64 (Double)

variable {Id : Type}

/-! ## Programs that do not reply -/

/-- Any exception. -/
def Any (_ : Exn) : Prop := True

/-- An exception that is no `StratumException`. -/
def NotStratum (e : Exn) : Prop := ∀ code message, e ≠ .stratum code message

/-- The program ends in `s'`, and no `StratumException` leaves it. -/
def Ends {α : Type} (x : Handler Id α) (s s' : Session Id) : Prop :=
  (∃ a, x.run s = .ok a s') ∨ ∃ e, NotStratum e ∧ x.run s = .error e s'

section Ends

variable {α β : Type} {x : Handler Id α} {s s' t : Session Id}

theorem ends_of_keeps {R : Session Id → Session Id → Prop} (h : Keeps R NotStratum x)
    (s : Session Id) : ∃ s', Ends x s s' ∧ R s s' := by
  cases hrun : x.run s with
  | ok a s' => exact ⟨s', Or.inl ⟨a, hrun⟩, h.of_ok hrun⟩
  | error e s' =>
    obtain ⟨hR, he⟩ := h.of_error hrun
    exact ⟨s', Or.inr ⟨e, he, hrun⟩, hR⟩

theorem ends_bind {f : α → Handler Id β} {a : α} (hx : x.run s = .ok a t)
    (hf : Ends (f a) t s') : Ends (x >>= f) s s' := by
  unfold Ends
  rw [run_bind_ok hx]
  exact hf

theorem ends_bind_error {f : α → Handler Id β} {e : Exn} (he : NotStratum e)
    (hx : x.run s = .error e s') : Ends (x >>= f) s s' :=
  Or.inr ⟨e, he, run_bind_error hx⟩

/-- What is no `StratumException` gets past the handler. -/
theorem run_catchStratum_notStratum (handle : StratumError → String → Handler Id α) {e : Exn}
    (he : NotStratum e) (h : x.run s = .error e s') :
    (catchStratum x handle).run s = .error e s' := by
  unfold catchStratum
  rw [run_tryCatch_error h]
  cases e with
  | stratum code message => exact absurd rfl (he code message)
  | _ => rfl

theorem ends_catchStratum {handle : StratumError → String → Handler Id α} (h : Ends x s s') :
    Ends (catchStratum x handle) s s' := by
  rcases h with ⟨a, ha⟩ | ⟨e, he, hrun⟩
  · exact Or.inl ⟨a, run_tryCatch_ok ha⟩
  · exact Or.inr ⟨e, he, run_catchStratum_notStratum handle he hrun⟩

theorem run_catchStratum_stratum (handle : StratumError → String → Handler Id α)
    {code : StratumError} {message : String} (h : x.run s = .error (.stratum code message) t) :
    (catchStratum x handle).run s = (handle code message).run t := by
  unfold catchStratum
  rw [run_tryCatch_error h]

/-- Only the run of a program matters. -/
theorem ends_catchStratum_congr {y : Handler Id α} {handle : StratumError → String → Handler Id α}
    (h : x.run s = y.run t) (hends : Ends (catchStratum y handle) t s') :
    Ends (catchStratum x handle) s s' := by
  have hrun : (catchStratum x handle).run s = (catchStratum y handle).run t := by
    unfold catchStratum
    cases hy : y.run t with
    | ok a u => rw [run_tryCatch_ok (h.trans hy), run_tryCatch_ok hy]
    | error e u => rw [run_tryCatch_error (h.trans hy), run_tryCatch_error hy]
  unfold Ends
  rw [hrun]
  exact hends

theorem ends_congr {y : Handler Id α} (h : x.run s = y.run t) (hends : Ends y t s') :
    Ends x s s' := by
  unfold Ends
  rw [h]
  exact hends

end Ends

variable {platform : Platform Id} {settings : Settings} {world : World}

theorem run_send (platform : Platform Id) (message : Message Id) (s : Session Id) :
    (send platform message).run s =
      if s.isAlive then
        if platform.fits message then .ok () { s with sent := s.sent ++ [message] }
        else .error .notSupported s
      else .ok () s := by
  unfold send
  rw [EStateM.run_bind, EStateM.run_get]
  dsimp only
  split
  · split
    · rfl
    · rfl
  · rfl

theorem run_send_cases (platform : Platform Id) (message : Message Id) (s : Session Id) :
    ((send platform message).run s = .ok () { s with sent := s.sent ++ [message] } ∧
        s.isAlive = true ∧ platform.fits message = true) ∨
      ((send platform message).run s = .error .notSupported s ∧
        s.isAlive = true ∧ platform.fits message = false) ∨
      ((send platform message).run s = .ok () s ∧ s.isAlive = false) := by
  rw [run_send]
  by_cases halive : s.isAlive = true
  · rw [if_pos halive]
    by_cases hfits : platform.fits message = true
    · rw [if_pos hfits]
      exact Or.inl ⟨rfl, halive, hfits⟩
    · rw [if_neg hfits]
      exact Or.inr (Or.inl ⟨rfl, halive, by simpa using hfits⟩)
  · rw [if_neg halive]
    exact Or.inr (Or.inr ⟨rfl, by simpa using halive⟩)

theorem run_get (s : Session Id) : (get : Handler Id (Session Id)).run s = .ok s s := rfl

theorem run_modify (f : Session Id → Session Id) (s : Session Id) :
    (modify f : Handler Id Unit).run s = .ok () (f s) := rfl

/-- A change that sending a message makes. -/
theorem keeps_send {R : Session Id → Session Id → Prop} [IsPreorder (Session Id) R]
    {E : Exn → Prop} {message : Message Id}
    (happend : ∀ s, R s { s with sent := s.sent ++ [message] }) (hE : E .notSupported) :
    Keeps R E (send platform message) := by
  intro s
  rcases run_send_cases platform message s with ⟨hrun, -⟩ | ⟨hrun, -⟩ | ⟨hrun, -⟩
  all_goals rw [hrun]
  · exact happend s
  · exact ⟨refl_of R s, hE⟩
  · exact refl_of R s

theorem keeps_ofExcept_any {α : Type} {R : Session Id → Session Id → Prop}
    [IsPreorder (Session Id) R] (x : Except Exn α) :
    Keeps R Any (MonadExcept.ofExcept x : Handler Id α) := keeps_ofExcept fun _ _ => trivial

/-! ## Work that is sent -/

/-- The client is to be sent its first work. -/
def Claims (s : Session Id) : Prop :=
  s.context.isSubscribed = true ∧ s.context.isAuthorized = true ∧
    s.context.isInitialWorkSent = false

theorem run_claimInitialWork {s : Session Id} (h : Claims s) :
    (claimInitialWork : Handler Id (Option Text)).run s =
      (do
        let target ← MonadExcept.ofExcept (diffToTarget s.context.difficulty)
        return some target : Handler Id (Option Text)).run
          (s.mapContext fun c => { c with isInitialWorkSent := true }) := by
  unfold Claims at h
  unfold claimInitialWork
  rw [run_bind_ok (run_get s), if_pos h, run_bind_ok (run_modify _ s)]

theorem run_claimInitialWork_of_not {s : Session Id} (h : ¬ Claims s) :
    (claimInitialWork : Handler Id (Option Text)).run s = .ok none s := by
  unfold Claims at h
  unfold claimInitialWork
  rw [run_bind_ok (run_get s), if_neg h]
  rfl

section Work

variable {R : Session Id → Session Id → Prop} [IsPreorder (Session Id) R] {E : Exn → Prop}
  (hnotify : ∀ job, Keeps R E (send platform (.miningNotify job)))
  (hset : ∀ target, Keeps R E (send platform (.setTarget target)))

include hnotify hset

theorem keeps_sendWork (target : Text) : Keeps R E (sendWork platform target) := by
  refine keeps_bind keeps_get fun s => ?_
  exact keeps_bind (hnotify _) fun _ => hset target

omit hnotify hset in
theorem keeps_claimInitialWork
    (htarget : ∀ diff, Keeps R E (MonadExcept.ofExcept (diffToTarget diff) : Handler Id Text))
    (hmark : Keeps R E (modify fun s => s.mapContext fun c => { c with isInitialWorkSent := true } :
      Handler Id Unit)) :
    Keeps R E (claimInitialWork : Handler Id (Option Text)) := by
  refine keeps_bind keeps_get fun s => ?_
  split
  · refine keeps_bind hmark fun _ => ?_
    exact keeps_bind (htarget _) fun _ => keeps_pure _
  · exact keeps_pure _

/-- What holds of the messages of `EnsureInitialWorkSent`, and of its mark, holds of it. -/
theorem keeps_ensureInitialWorkSent
    (htarget : ∀ diff, Keeps R E (MonadExcept.ofExcept (diffToTarget diff) : Handler Id Text))
    (hmark : Keeps R E (modify fun s => s.mapContext fun c => { c with isInitialWorkSent := true } :
      Handler Id Unit)) :
    Keeps R E (ensureInitialWorkSent platform) := by
  refine keeps_bind (keeps_claimInitialWork htarget hmark) fun target => ?_
  cases target with
  | none => exact keeps_pure _
  | some target => exact keeps_sendWork hnotify hset target

theorem keeps_updateVarDiffAsync (world : World)
    (hdifficulty : ∀ newDiff, Keeps R E (modify fun s => s.mapContext fun c =>
      { c with pendingDifficulty := some newDiff } : Handler Id Unit))
    (happly : Keeps R E (modify fun s => s.mapContext WorkerContext.applyPendingDifficulty :
      Handler Id Unit))
    (htarget : ∀ diff, Keeps R E (MonadExcept.ofExcept (diffToTarget diff) : Handler Id Text)) :
    Keeps R E (updateVarDiffAsync platform world) := by
  refine keeps_bind keeps_get fun s => ?_
  cases varDiffUpdate world s.context with
  | none => exact keeps_pure _
  | some newDiff =>
    refine keeps_bind (hdifficulty newDiff) fun _ => ?_
    refine keeps_bind happly fun _ => ?_
    exact keeps_bind (htarget _) fun _ => keeps_sendWork hnotify hset _

omit hnotify hset in
theorem keeps_sendDifficulty
    (hdifficulty : ∀ difficulty, Keeps R E (send platform (.setDifficulty difficulty)))
    (applied : Bool) : Keeps R E (sendDifficulty platform applied) := by
  unfold sendDifficulty
  split
  · exact keeps_bind keeps_get fun _ => hdifficulty _
  · exact keeps_pure _

end Work

section Subscribe

variable {R : Session Id → Session Id → Prop} [IsPreorder (Session Id) R]

/-- What holds of the reply of `OnSubscribeAsync`, and of what it writes, holds of it. -/
theorem keeps_onSubscribeAsync (request : Request Id)
    (hnonce : ∀ s extraNonce1 extraNonceProvider,
      R s ({ s with extraNonceProvider := extraNonceProvider }.mapContext fun c =>
        { c with extraNonce1 := some extraNonce1 }))
    (hreply : ∀ id connectionId extraNonce1,
      Keeps R Any (send platform (.response id (.subscription connectionId extraNonce1))))
    (hsubscribed : ∀ s, R s (s.mapContext fun c => { c with isSubscribed := true }))
    (hagent : ∀ s userAgent, R s (s.mapContext fun c => { c with userAgent := some userAgent })) :
    Keeps R Any (onSubscribeAsync platform request) := by
  refine keeps_bind (keeps_ofExcept_any _) fun id => ?_
  refine keeps_bind (keeps_ofExcept_any _) fun requestParams => ?_
  refine keeps_bind ?_ fun extraNonce1 => ?_
  · refine keeps_bind keeps_get fun s => ?_
    exact keeps_bind (keeps_modify fun t => hnonce t _ _) fun _ => keeps_pure _
  refine keeps_bind keeps_get fun s => ?_
  refine keeps_bind (hreply _ _ _) fun _ => ?_
  refine keeps_bind (keeps_modify hsubscribed) fun _ => ?_
  exact keeps_bind (keeps_ofExcept_any _) fun userAgent => keeps_modify fun t => hagent t userAgent

end Subscribe

section Handlers

variable {R : Session Id → Session Id → Prop} [IsPreorder (Session Id) R] {E : Exn → Prop}

/-- What holds of the messages of a broadcast, and of what it writes, holds of it. -/
theorem keeps_onNewJobAsync (settings : Settings) (world : World) (jobParams : Option JobParams)
    (hjob : ∀ s : Session Id, R s { s with currentJobParams := jobParams })
    (hzombie : ∀ s, R s s.disconnectClient)
    (happly : ∀ s, R s (s.mapContext WorkerContext.applyPendingDifficulty))
    (hsend : ∀ message, Keeps R E (send platform message))
    (htarget : ∀ diff, Keeps R E (MonadExcept.ofExcept (diffToTarget diff) : Handler Id Text)) :
    Keeps R E (onNewJobAsync platform settings world jobParams) := by
  refine keeps_bind (keeps_modify hjob) fun _ => ?_
  refine keeps_bind keeps_get fun s => ?_
  split
  · split
    · exact keeps_modify hzombie
    · refine keeps_bind keeps_get fun s => ?_
      refine keeps_bind (keeps_modify happly) fun _ => ?_
      refine keeps_bind (keeps_sendDifficulty (fun _ => hsend _) _) fun _ => ?_
      refine keeps_bind keeps_get fun s => ?_
      exact keeps_bind (htarget _) fun _ => keeps_sendWork (fun _ => hsend _) (fun _ => hsend _) _
  · exact keeps_pure _

/-- What holds of the parts of `OnAuthorizeAsync` holds of it. -/
theorem keeps_onAuthorizeAsync (request : Request Id)
    (hworker : ∀ s (authorize : AuthorizeRequest), R s (s.mapContext fun c =>
      { c with isAuthorized := isAuthorized world authorize.minerName }))
    (hnames : ∀ s (authorize : AuthorizeRequest), R s (s.mapContext fun c =>
      { c with minerName := authorize.minerName, workerName := authorize.workerName }))
    (hreply : ∀ id value, Keeps R Any (send platform (.response id (.bool value))))
    (hstatic : ∀ s (authorize : AuthorizeRequest), R s (s.mapContext fun c =>
      c.applyStaticDiff (staticDiff platform authorize.passParts c)))
    (hpayment : ∀ s (authorize : AuthorizeRequest), R s (s.mapContext fun c =>
      { c with minimumPayment := authorize.minimumPayment }))
    (hbus : ∀ s (authorize : AuthorizeRequest), R s { s with
      bus := s.bus ++
        [.minerInfo settings.poolId s.context.minerName authorize.minimumPayment] })
    (hwork : Keeps R Any (ensureInitialWorkSent platform)) :
    Keeps R Any (onAuthorizeAsync platform settings world request) := by
  refine keeps_bind (keeps_ofExcept_any _) fun id => ?_
  refine keeps_bind (keeps_ofExcept_any _) fun authorize => ?_
  refine keeps_bind ?_ fun _ => ?_
  · exact keeps_bind (keeps_modify fun s => hworker s authorize) fun _ =>
      keeps_modify fun s => hnames s authorize
  refine keeps_bind keeps_get fun s => ?_
  refine keeps_bind (hreply _ _) fun _ => ?_
  refine keeps_bind ?_ fun _ => hwork
  refine keeps_bind (keeps_modify fun s => hstatic s authorize) fun _ => ?_
  refine keeps_bind (keeps_modify fun s => hpayment s authorize) fun _ => ?_
  exact keeps_modify fun s => hbus s authorize

/-- What holds of the counting of an invalid share, and of a ban, holds of `ConsiderBan`. -/
theorem keeps_rejectShare (hcount : ∀ s : Session Id, R s (s.mapContext WorkerContext.countInvalid))
    (hdecision : ∀ s (decision : BanDecision), R s (s.mapContext decision.apply))
    (hban : ∀ s, R s s.ban.disconnectClient) :
    Keeps R Any (rejectShare settings : Handler Id Unit) := by
  refine keeps_bind (keeps_modify hcount) fun _ => ?_
  refine keeps_bind keeps_get fun s => ?_
  refine keeps_bind (keeps_ofExcept_any _) fun decision => ?_
  refine keeps_bind (keeps_modify fun t => hdecision t decision) fun _ => ?_
  split
  · exact keeps_modify hban
  · exact keeps_pure _

theorem keeps_rejectSubmit (request : Request Id) (code : StratumError) (message : String)
    (hreply : Keeps R Any (send platform (.error request.id code message (some false))))
    (hbus : ∀ s, R s { s with
      bus := s.bus ++ [.invalidShare settings.poolId s.context.minerName s.context.workerName
        world.now] })
    (hreject : Keeps R Any (rejectShare settings : Handler Id Unit)) :
    Keeps R Any (rejectSubmit platform settings world request code message) := by
  refine keeps_bind hreply fun _ => ?_
  refine keeps_bind (keeps_modify hbus) fun _ => ?_
  exact keeps_bind hreject fun _ => keeps_throw trivial

theorem keeps_catchStratum {α : Type} {x : Handler Id α}
    {handle : StratumError → String → Handler Id α} (hx : Keeps R Any x)
    (hhandle : ∀ code message, Keeps R Any (handle code message)) :
    Keeps R Any (catchStratum x handle) :=
  keeps_tryCatch hx fun e => by
    cases e with
    | stratum code message => exact hhandle code message
    | _ => exact keeps_throw trivial

end Handlers

section Quiet

variable [DecidableEq Id] (id : Id)

/-- The message is a response with the id. -/
def Message.carries : Message Id → Bool
  | .response id' _ => id' = id
  | .error id' _ _ _ => id' = some id
  | _ => false

variable {id} in
theorem carries_error {request : Request Id} (hid : request.id = some id) (code : StratumError)
    (message : String) (result : Option Bool) :
    (Message.error request.id code message result).carries id = true := decide_eq_true hid

theorem carries_response (result : ResponseResult) :
    (Message.response id result).carries id = true := decide_eq_true rfl

/-- The responses with an id that were sent. -/
def responses (s : Session Id) : ℕ := s.sent.countP (Message.carries id)

/-- No response with the id is sent, and the connection is left as it is. -/
def Quiet (s s' : Session Id) : Prop :=
  responses id s' = responses id s ∧ s'.isAlive = s.isAlive

variable {id}

instance : IsPreorder (Session Id) (Quiet id) where
  refl _ := ⟨rfl, rfl⟩
  trans _ _ _ h h' := ⟨h'.1.trans h.1, h'.2.trans h.2⟩

theorem responses_congr {s s' : Session Id} (h : s'.sent = s.sent) :
    responses id s' = responses id s := by
  unfold responses
  rw [h]

/-- What leaves the messages and the connection alone is quiet. -/
theorem quiet_of_eq {s s' : Session Id} (hsent : s'.sent = s.sent)
    (halive : s'.isAlive = s.isAlive) : Quiet id s s' := ⟨responses_congr hsent, halive⟩

theorem responses_append (id : Id) (s : Session Id) (message : Message Id) :
    responses id { s with sent := s.sent ++ [message] } =
      responses id s + if message.carries id then 1 else 0 := by
  unfold responses
  rw [List.countP_append, List.countP_singleton]

/-- A message that is not a reply. -/
theorem quiet_send {message : Message Id} (h : message.carries id = false) :
    Keeps (Quiet id) NotStratum (send platform message) :=
  keeps_send (fun s => ⟨by rw [responses_append, h]; rfl, rfl⟩) fun _ _ => by simp

theorem notStratum_diffToTarget {diff : Double} {e : Exn} (h : diffToTarget diff = .error e) :
    NotStratum e := by
  unfold diffToTarget at h
  cases hdivisor : bigInteger diff with
  | error e' =>
    rw [hdivisor] at h
    obtain rfl := Except.error.inj h
    cases diff with
    | nan =>
      obtain rfl := Except.error.inj hdivisor
      exact fun _ _ => by simp
    | inf negative =>
      obtain rfl := Except.error.inj hdivisor
      exact fun _ _ => by simp
    | fin q => exact nomatch hdivisor
  | ok divisor =>
    rw [hdivisor] at h
    dsimp only [bind, Except.bind] at h
    split at h
    · obtain rfl := Except.error.inj h
      exact fun _ _ => by simp
    · exact nomatch h

theorem keeps_diffToTarget (diff : Double) :
    Keeps (Quiet id) NotStratum (MonadExcept.ofExcept (diffToTarget diff) : Handler Id Text) :=
  keeps_ofExcept fun _ => notStratum_diffToTarget

/-- A change of the session that sends nothing. -/
theorem keeps_mapContext (f : WorkerContext → WorkerContext) :
    Keeps (Quiet id) NotStratum (modify fun s => s.mapContext f : Handler Id Unit) :=
  keeps_modify fun _ => quiet_of_eq rfl rfl

theorem quiet_ensureInitialWorkSent :
    Keeps (Quiet id) NotStratum (ensureInitialWorkSent platform) :=
  keeps_ensureInitialWorkSent (fun _ => quiet_send rfl)
    (fun _ => quiet_send rfl) keeps_diffToTarget (keeps_mapContext _)

theorem quiet_updateVarDiffAsync :
    Keeps (Quiet id) NotStratum (updateVarDiffAsync platform world) :=
  keeps_updateVarDiffAsync (fun _ => quiet_send rfl) (fun _ => quiet_send rfl) world
    (fun _ => keeps_mapContext _) (keeps_mapContext _) keeps_diffToTarget

/-- What `OnAuthorizeAsync` does behind its reply. -/
theorem keeps_authorizeDifficulty (settings : Settings) (authorize : AuthorizeRequest) :
    Keeps (Quiet id) NotStratum (authorizeDifficulty platform settings authorize) := by
  refine keeps_bind (keeps_mapContext _) fun _ => ?_
  refine keeps_bind (keeps_mapContext _) fun _ => ?_
  exact keeps_modify fun _ => quiet_of_eq rfl rfl

/-! ## Replies -/

/-- A reply, and what is done behind it. -/
theorem ends_reply (platform : Platform Id) (message : Message Id)
    (hcarries : message.carries id = true) {tail : Unit → Handler Id Unit}
    (htail : ∀ u, Keeps (Quiet id) NotStratum (tail u)) (s : Session Id) :
    ∃ s', Ends (send platform message >>= tail) s s' ∧
      (responses id s' = responses id s + 1 ↔
        s.isAlive = true ∧ platform.fits message = true) := by
  have hrun := run_send platform message s
  by_cases halive : s.isAlive = true
  · rw [if_pos halive] at hrun
    by_cases hfits : platform.fits message = true
    · rw [if_pos hfits] at hrun
      obtain ⟨s', hends, hquiet⟩ := ends_of_keeps (htail ()) { s with sent := s.sent ++ [message] }
      refine ⟨s', ends_bind hrun hends, iff_of_true ?_ ⟨halive, hfits⟩⟩
      rw [hquiet.1, responses_append, if_pos hcarries]
    · rw [if_neg hfits] at hrun
      exact ⟨s, ends_bind_error (fun _ _ => by simp) hrun,
        iff_of_false (by omega) fun h => hfits h.2⟩
  · rw [if_neg halive] at hrun
    obtain ⟨s', hends, hquiet⟩ := ends_of_keeps (htail ()) s
    refine ⟨s', ends_bind hrun hends, iff_of_false ?_ fun h => halive h.1⟩
    rw [hquiet.1]
    omega

/-- A reply with nothing behind it. -/
theorem ends_send (platform : Platform Id) (message : Message Id)
    (hcarries : message.carries id = true) (s : Session Id) :
    ∃ s', Ends (send platform message) s s' ∧
      (responses id s' = responses id s + 1 ↔
        s.isAlive = true ∧ platform.fits message = true) := by
  have htail : ∀ u, Keeps (Quiet id) NotStratum (pure u : Handler Id Unit) :=
    fun u => keeps_pure u
  have h := ends_reply platform message hcarries htail s
  rwa [bind_pure] at h

/-! ## Bans -/

/-- `ConsiderBan` throws: the pool has no banning section, or the client is to be banned for a time
that is not positive. -/
def BanThrows (settings : Settings) (c : WorkerContext) : Prop :=
  match settings.banning with
  | none => True
  | some config => config.checkThreshold < c.validShares + c.invalidShares ∧
      (ratioBad c).lt (config.invalidPercent.div (.fin 100)) = false ∧
      bansInvalidShares settings = true ∧ config.time ≤ 0

theorem banDecision_cases (settings : Settings) (c : WorkerContext) :
    (BanThrows settings c ∧ ∃ e, NotStratum e ∧ banDecision settings c = .error e) ∨
      ¬ BanThrows settings c ∧ ∃ decision, banDecision settings c = .ok decision := by
  unfold BanThrows banDecision
  cases settings.banning with
  | none => exact Or.inl ⟨trivial, .nullReference, fun _ _ => by simp, rfl⟩
  | some config =>
    dsimp only
    split
    · rename_i hle
      exact Or.inr ⟨fun h => absurd hle (Int32.not_le.mpr h.1), _, rfl⟩
    split
    · rename_i hgood
      exact Or.inr ⟨fun h => absurd (hgood.symm.trans h.2.1) (by simp), _, rfl⟩
    split
    · rename_i hbans
      exact Or.inr ⟨fun h => absurd (hbans.symm.trans h.2.2.1) (by simp), _, rfl⟩
    rename_i hle hgood hbans
    split
    · rename_i htime
      exact Or.inl ⟨⟨Int32.not_le.mp hle, by simpa using hgood, by simpa using hbans, htime⟩,
        .argument, fun _ _ => by simp, rfl⟩
    · rename_i htime
      exact Or.inr ⟨fun h => htime h.2.2.2, _, rfl⟩

omit [DecidableEq Id] in
/-- A share is counted as invalid. -/
theorem rejectShare_cases (settings : Settings) (s : Session Id) :
    (BanThrows settings s.context.countInvalid ∧ ∃ e s', NotStratum e ∧
        (rejectShare settings).run s = .error e s' ∧ s'.sent = s.sent ∧
        s'.isAlive = s.isAlive) ∨
      ¬ BanThrows settings s.context.countInvalid ∧ ∃ decision s',
        banDecision settings s.context.countInvalid = .ok decision ∧
        (rejectShare settings).run s = .ok () s' ∧ s'.sent = s.sent ∧
        s'.isAlive = s.isAlive ∧ s'.context = decision.apply s.context.countInvalid := by
  have hcount : (modify fun s => s.mapContext WorkerContext.countInvalid : Handler Id Unit).run s =
      .ok () (s.mapContext WorkerContext.countInvalid) := rfl
  unfold rejectShare
  rw [run_bind_ok hcount]
  unfold considerBan
  rw [EStateM.run_bind, EStateM.run_get]
  dsimp only
  rw [Session.mapContext_context]
  rcases banDecision_cases settings s.context.countInvalid with ⟨hthrows, e, he, herror⟩ |
    ⟨hthrows, decision, hdecision⟩
  · exact Or.inl ⟨hthrows, e, _, he, run_bind_error (run_ofExcept_error herror _), rfl, rfl⟩
  · rw [run_bind_ok (run_ofExcept_ok hdecision _)]
    refine Or.inr ⟨hthrows, decision, ?_⟩
    by_cases hban : decision = .ban
    · rw [if_pos hban]
      exact ⟨_, hdecision, rfl, rfl, rfl, rfl⟩
    · rw [if_neg hban]
      exact ⟨_, hdecision, rfl, rfl, rfl, rfl⟩

/-- Behind a reply the exception is thrown on, unless the ban throws another one. -/
theorem rejectSubmit_cases (settings : Settings) (world : World) (id : Id) {request : Request Id}
    {code : StratumError} {message : String} {s t : Session Id}
    (hsend : (send platform (.error request.id code message (some false))).run s = .ok () t)
    (hcontext : t.context = s.context) :
    (BanThrows settings s.context.countInvalid ∧ ∃ e u, NotStratum e ∧
        (rejectSubmit platform settings world request code message).run s = .error e u ∧
        responses id u = responses id t) ∨
      ¬ BanThrows settings s.context.countInvalid ∧ ∃ u,
        (rejectSubmit platform settings world request code message).run s =
          .error (.stratum code message) u ∧
        responses id u = responses id t ∧ u.isAlive = t.isAlive := by
  obtain ⟨t', hbus, hsent, halive, hcontext'⟩ : ∃ t', (modify fun s => { s with
      bus := s.bus ++ [.invalidShare settings.poolId s.context.minerName s.context.workerName
        world.now] } : Handler Id Unit).run t = .ok () t' ∧ t'.sent = t.sent ∧
      t'.isAlive = t.isAlive ∧ t'.context = t.context := ⟨_, rfl, rfl, rfl, rfl⟩
  have hcases := rejectShare_cases settings t'
  rw [hcontext'.trans hcontext] at hcases
  unfold rejectSubmit
  rw [run_bind_ok hsend, run_bind_ok hbus]
  rcases hcases with ⟨hban, e, u, he, hrun, hu, -⟩ | ⟨hban, decision, u, -, hrun, hu, hu', -⟩
  · exact Or.inl ⟨hban, e, u, he, run_bind_error hrun,
      responses_congr (hu.trans hsent)⟩
  · rw [run_bind_ok hrun]
    exact Or.inr ⟨hban, u, rfl, responses_congr (hu.trans hsent), hu'.trans halive⟩

/-- The reply to a submission that is rejected, and the one of `OnRequestAsync` when the exception
is thrown on. -/
theorem ends_rejectSubmit (platform : Platform Id) (settings : Settings) (world : World)
    {request : Request Id} (hid : request.id = some id) (code : StratumError) (message : String)
    (s : Session Id) :
    ∃ s', Ends (catchStratum (rejectSubmit platform settings world request code message)
        fun code message => send platform (.error request.id code message (some false))) s s' ∧
      (responses id s' = responses id s + 1 ↔ s.isAlive = true ∧
        platform.fits (.error request.id code message (some false)) = true ∧
        BanThrows settings s.context.countInvalid) := by
  have hcarries : (Message.error request.id code message (some false)).carries id = true :=
    carries_error hid _ _ _
  have hsend := run_send platform (.error request.id code message (some false)) s
  by_cases halive : s.isAlive = true
  · rw [if_pos halive] at hsend
    by_cases hfits : platform.fits (.error request.id code message (some false)) = true
    · rw [if_pos hfits] at hsend
      have hone := responses_append id s (.error request.id code message (some false))
      rw [if_pos hcarries] at hone
      rcases rejectSubmit_cases settings world id hsend rfl with
        ⟨hban, e, u, he, hrun, hcount⟩ | ⟨hban, u, hrun, hcount, hu⟩
      · exact ⟨u, ends_catchStratum (Or.inr ⟨e, he, hrun⟩),
          iff_of_true (hcount.trans hone) ⟨halive, hfits, hban⟩⟩
      · obtain ⟨s', hends, hiff⟩ := ends_send platform _ hcarries u
        have htwo := hiff.mpr ⟨hu.trans halive, hfits⟩
        refine ⟨s', ?_, iff_of_false (by omega) fun h => hban h.2.2⟩
        unfold Ends
        rw [run_catchStratum_stratum _ hrun]
        exact hends
    · rw [if_neg hfits] at hsend
      refine ⟨s, ends_catchStratum ?_, iff_of_false (by omega) fun h => hfits h.2.1⟩
      exact ends_bind_error (fun _ _ => by simp) hsend
  · rw [if_neg halive] at hsend
    have hnone : ∀ n : ℕ, n = responses id s → ¬ n = responses id s + 1 := by omega
    rcases rejectSubmit_cases settings world id hsend rfl with
      ⟨hban, e, u, he, hrun, hcount⟩ | ⟨hban, u, hrun, hcount, hu⟩
    · exact ⟨u, ends_catchStratum (Or.inr ⟨e, he, hrun⟩),
        iff_of_false (hnone _ hcount) fun h => halive h.1⟩
    · have hlast := run_send platform (.error request.id code message (some false)) u
      rw [if_neg (by rw [hu]; exact halive)] at hlast
      refine ⟨u, ?_, iff_of_false (hnone _ hcount) fun h => halive h.1⟩
      unfold Ends
      rw [run_catchStratum_stratum _ hrun, hlast]
      exact Or.inl ⟨(), rfl⟩

/-! ## When a request is replied to once -/

variable (platform settings world id)

/-- A submission that is rejected is replied to once when the first reply fits, and the ban throws
before the exception is thrown on. -/
def RejectedOnce (request : Request Id) (c : WorkerContext) : Exn → Prop
  | .stratum code message =>
    platform.fits (.error request.id code message (some false)) = true ∧
      BanThrows settings c.countInvalid
  | _ => False

/-- A `mining.submit`: the share is valid, and else the ban throws behind the reply, but not before
it. -/
def SubmitAnswered (request : Request Id) (s : Session Id) : Prop :=
  match submitRequest s.context request.params with
  | .error e => RejectedOnce platform settings request s.context e
  | .ok values =>
    match (s.manager.submitShareAsync world.toEnvironment (s.worker platform) values).result with
    | .ok _ => platform.fits (.response id (.bool true)) = true
    | .error e => ∃ decision, banDecision settings s.context.countInvalid = .ok decision ∧
        RejectedOnce platform settings request (decision.apply s.context.countInvalid) e

/-- A `mining.subscribe`: its parameters can be read. -/
def SubscribeAnswered (request : Request Id) (s : Session Id) : Prop :=
  match subscribeParams request with
  | .ok _ => platform.fits (.response id
      (.subscription s.connectionId s.extraNonceProvider.next.1)) = true
  | .error (.stratum code message) =>
    platform.fits (.error request.id code message (some false)) = true
  | .error _ => False

/-- A `mining.authorize`: its parameters can be read, and the number behind `mp=`. -/
def AuthorizeAnswered (request : Request Id) : Prop :=
  match authorizeRequest platform request.params with
  | .ok authorize =>
    platform.fits (.response id (.bool (isAuthorized world authorize.minerName))) = true
  | .error _ => False

/-- What is said to a method that is not supported. -/
def unsupported (request : Request Id) : Message Id :=
  .error request.id .other
    ("Unsupported request " ++ (request.method.map platform.string).getD "") none

/-- A request is replied to once: the connection is open, the address is not banned, and the method
replies once. -/
def Answered (request : Request Id) (s : Session Id) : Prop :=
  s.isAlive = true ∧
    (settings.banning.any PoolShareBasedBanningConfig.enabled && s.banned) = false ∧
    if request.method = some (ascii "mining.subscribe") then
      SubscribeAnswered platform id request s
    else if request.method = some (ascii "mining.authorize") then
      AuthorizeAnswered platform world id request
    else if request.method = some (ascii "mining.submit") then
      SubmitAnswered platform settings world id request s
    else platform.fits (unsupported platform request) = true

/-- A `mining.submit` that is too old, which is dropped. -/
def StaleSubmit (request : Request Id) : Prop :=
  request.method = some (ascii "mining.submit") ∧ isStale world request = true

instance (request : Request Id) : Decidable (StaleSubmit world request) :=
  inferInstanceAs (Decidable (_ ∧ _))

/-- One request, one reply; none to a submission that is dropped. -/
def OneReply (request : Request Id) (s : Session Id) : Prop :=
  responses id (onReceive platform settings world request s) =
    responses id s + if StaleSubmit world request then 0 else 1

variable {platform settings world id}

theorem keeps_acceptShare (world : World) (share : Mining.Share Double) :
    Keeps (Quiet id) NotStratum (do
      modify fun s => { s with bus := s.bus ++ [.clientShare share] }
      ensureInitialWorkSent platform
      modify fun s => s.mapContext fun c => { c with validShares := c.validShares + 1 }
      updateVarDiffAsync platform world) := by
  refine keeps_bind (keeps_modify fun _ => quiet_of_eq rfl rfl) fun _ => ?_
  refine keeps_bind quiet_ensureInitialWorkSent fun _ => ?_
  exact keeps_bind (keeps_mapContext _) fun _ => quiet_updateVarDiffAsync

/-- How the inner `try` block ends. -/
theorem processSubmit_cases (platform : Platform Id) (settings : Settings) (world : World) (id : Id)
    (values : List Text) (s : Session Id) :
    match (s.manager.submitShareAsync world.toEnvironment (s.worker platform) values).result with
    | .ok _ => ∃ s', Ends (processSubmit platform settings world id values) s s' ∧
        (responses id s' = responses id s + 1 ↔
          s.isAlive = true ∧ platform.fits (.response id (.bool true)) = true)
    | .error (.stratum code message) =>
      (BanThrows settings s.context.countInvalid ∧
          ∃ s', Ends (processSubmit platform settings world id values) s s' ∧
            responses id s' = responses id s) ∨
        ∃ decision t, banDecision settings s.context.countInvalid = .ok decision ∧
          (processSubmit platform settings world id values).run s =
            .error (.stratum code message) t ∧
          responses id t = responses id s ∧ t.isAlive = s.isAlive ∧
          t.context = decision.apply s.context.countInvalid
    | .error _ => ∃ s', Ends (processSubmit platform settings world id values) s s' ∧
        responses id s' = responses id s := by
  have hmanager : ∃ t : Session Id, t.sent = s.sent ∧ t.isAlive = s.isAlive ∧
      t.context = s.context ∧ ∀ r,
      (s.manager.submitShareAsync world.toEnvironment (s.worker platform) values).result = r →
      (submitShare platform world values).run s =
        (MonadExcept.ofExcept r : Handler Id (Mining.Share Double)).run t :=
    ⟨{ s with manager := (s.manager.submitShareAsync world.toEnvironment (s.worker platform)
      values).manager }, rfl, rfl, rfl, fun r hr => by rw [← hr]; rfl⟩
  obtain ⟨t, hsent, halive, hcontext, hsubmit⟩ := hmanager
  unfold processSubmit
  cases hresult :
      (s.manager.submitShareAsync world.toEnvironment (s.worker platform) values).result with
  | ok share =>
    have hrun := (hsubmit _ hresult).trans (run_ofExcept_ok rfl t)
    obtain ⟨s', hends, hiff⟩ := ends_reply platform (.response id (.bool true))
      (carries_response id _)
      (fun _ => keeps_acceptShare world share) t
    refine ⟨s', ends_catchStratum (ends_bind hrun hends), ?_⟩
    rw [← responses_congr hsent, ← halive]
    exact hiff
  | error e =>
    have hrun := run_bind_error (f := acceptShare platform world id)
      ((hsubmit _ hresult).trans (run_ofExcept_error rfl t))
    cases e with
    | stratum code message =>
      have hthrow := run_catchStratum_stratum (fun code message => do
        rejectShare settings
        throw (.stratum code message)) hrun
      have hreject := rejectShare_cases settings t
      rw [hcontext] at hreject
      rcases hreject with ⟨hban, e, u, he, hrun', hu, -⟩ |
        ⟨hban, decision, u, hdecision, hrun', hu, hu', hc⟩
      · refine Or.inl ⟨hban, u, Or.inr ⟨e, he, ?_⟩, responses_congr (hu.trans hsent)⟩
        rw [hthrow, run_bind_error hrun']
      · refine Or.inr ⟨decision, u, hdecision, ?_, responses_congr (hu.trans hsent),
          hu'.trans halive, hc⟩
        rw [hthrow, run_bind_ok hrun']
        rfl
    | _ =>
      exact ⟨t, ends_catchStratum (Or.inr ⟨_, fun _ _ => by simp, hrun⟩), responses_congr hsent⟩

omit [DecidableEq Id] in
theorem requestId_of_some {request : Request Id} (hid : request.id = some id)
    (code : StratumError) : requestId code request = .ok id := by
  unfold requestId
  rw [hid]
  rfl

omit [DecidableEq Id] in
/-- A submission that is not too old. -/
theorem run_onSubmitAsync {request : Request Id} (hid : request.id = some id)
    (hfresh : isStale world request = false) (s : Session Id) :
    (onSubmitAsync platform settings world request).run s =
      (catchStratum (submit platform settings world id request)
        (rejectSubmit platform settings world request)).run s := by
  have hbody : ((do
      let id ← MonadExcept.ofExcept (requestId .minusOne request)
      if isStale world request then pure ()
      else submit platform settings world id request) : Handler Id Unit).run s =
        (submit platform settings world id request).run s := by
    rw [run_bind_ok (run_ofExcept_ok (requestId_of_some hid _) s), if_neg (by simp [hfresh])]
  unfold onSubmitAsync catchStratum
  cases hrun : (submit platform settings world id request).run s with
  | ok a t => rw [run_tryCatch_ok (hbody.trans hrun), run_tryCatch_ok hrun]
  | error e t => rw [run_tryCatch_error (hbody.trans hrun), run_tryCatch_error hrun]

omit [DecidableEq Id] in
theorem run_submit_error (platform : Platform Id) (settings : Settings) (world : World) (id : Id)
    {request : Request Id} {s : Session Id} {e : Exn}
    (h : submitRequest s.context request.params = .error e) :
    (submit platform settings world id request).run s = .error e s := by
  unfold submit
  rw [run_bind_ok (run_get s), run_bind_error (run_ofExcept_error h s)]

omit [DecidableEq Id] in
theorem run_submit_ok (platform : Platform Id) (settings : Settings) (world : World) (id : Id)
    {request : Request Id} {s : Session Id} {values : List Text}
    (h : submitRequest s.context request.params = .ok values) :
    (submit platform settings world id request).run s =
      (processSubmit platform settings world id values).run
        (s.mapContext fun c => { c with lastActivity := world.now }) := by
  unfold submit
  rw [run_bind_ok (run_get s), run_bind_ok (run_ofExcept_ok h s), run_bind_ok (run_modify _ s)]

omit [DecidableEq Id] in
/-- Without a `StratumException` of the `try` block nothing is done behind it. -/
theorem ends_onSubmitAsync {request : Request Id} (hid : request.id = some id)
    (hfresh : isStale world request = false) {s t : Session Id}
    (h : Ends (submit platform settings world id request) s t) :
    Ends (catchStratum (onSubmitAsync platform settings world request)
      fun code message => send platform (.error request.id code message (some false))) s t :=
  ends_catchStratum (ends_congr (run_onSubmitAsync hid hfresh s) (ends_catchStratum h))

/-- An exception of the `try` block is replied to twice, unless a ban throws in between. -/
theorem ends_onSubmitAsync_stratum {request : Request Id} (hid : request.id = some id)
    (hfresh : isStale world request = false) {s t : Session Id} {code : StratumError}
    {message : String}
    (h : (submit platform settings world id request).run s = .error (.stratum code message) t) :
    ∃ s', Ends (catchStratum (onSubmitAsync platform settings world request)
        fun code message => send platform (.error request.id code message (some false))) s s' ∧
      (responses id s' = responses id t + 1 ↔ t.isAlive = true ∧
        platform.fits (.error request.id code message (some false)) = true ∧
        BanThrows settings t.context.countInvalid) := by
  obtain ⟨s', hs', hiff⟩ := ends_rejectSubmit platform settings world hid code message t
  refine ⟨s', ends_catchStratum_congr ?_ hs', hiff⟩
  rw [run_onSubmitAsync hid hfresh, run_catchStratum_stratum _ h]

omit [DecidableEq Id] in
/-- The decision of the inner `ConsiderBan` is the only one there is. -/
theorem rejectedOnce_iff (platform : Platform Id) {settings : Settings} (request : Request Id)
    {c : WorkerContext} {decision : BanDecision} (h : banDecision settings c = .ok decision)
    (code : StratumError) (message : String) :
    (∃ decision', banDecision settings c = .ok decision' ∧
        RejectedOnce platform settings request (decision'.apply c) (.stratum code message)) ↔
      platform.fits (.error request.id code message (some false)) = true ∧
        BanThrows settings (decision.apply c).countInvalid := by
  constructor
  · rintro ⟨decision', hdecision', hrejected⟩
    obtain rfl := Except.ok.inj (h.symm.trans hdecision')
    exact hrejected
  · exact fun hrejected => ⟨decision, h, hrejected⟩

/-- The replies to a submission that is rejected before its share is looked at. -/
theorem ends_submit_unread {request : Request Id} (hid : request.id = some id)
    (hfresh : isStale world request = false) {s : Session Id} {e : Exn}
    (hrequest : submitRequest s.context request.params = .error e) :
    ∃ s', Ends (catchStratum (onSubmitAsync platform settings world request)
        fun code message => send platform (.error request.id code message (some false))) s s' ∧
      (responses id s' = responses id s + 1 ↔
        s.isAlive = true ∧ RejectedOnce platform settings request s.context e) := by
  have hsubmit := run_submit_error platform settings world id hrequest
  cases e with
  | stratum code message => exact ends_onSubmitAsync_stratum hid hfresh hsubmit
  | _ =>
    exact ⟨s, ends_onSubmitAsync hid hfresh (Or.inr ⟨_, fun _ _ => by simp, hsubmit⟩),
      iff_of_false (by omega) fun h => h.2⟩

/-- The replies to a `mining.submit` that is not too old. -/
theorem ends_submit (platform : Platform Id) (settings : Settings) (world : World)
    {request : Request Id} (hid : request.id = some id)
    (hfresh : isStale world request = false) (s : Session Id) :
    ∃ s', Ends (catchStratum (onSubmitAsync platform settings world request)
        fun code message => send platform (.error request.id code message (some false))) s s' ∧
      (responses id s' = responses id s + 1 ↔
        s.isAlive = true ∧ SubmitAnswered platform settings world id request s) := by
  have hnone : ∀ t : Session Id, responses id t = responses id s →
      ¬ responses id t = responses id s + 1 := by omega
  unfold SubmitAnswered
  cases hrequest : submitRequest s.context request.params with
  | error e => exact ends_submit_unread hid hfresh hrequest
  | ok values =>
    have hsubmit := run_submit_ok platform settings world id hrequest
    have hcases := processSubmit_cases platform settings world id values
      (s.mapContext fun c => { c with lastActivity := world.now })
    have hsame : ((s.mapContext fun c => { c with lastActivity := world.now }).manager
        |>.submitShareAsync world.toEnvironment ((s.mapContext fun c =>
          { c with lastActivity := world.now }).worker platform) values).result =
        (s.manager.submitShareAsync world.toEnvironment (s.worker platform) values).result := rfl
    rw [hsame] at hcases
    dsimp only
    cases hresult :
        (s.manager.submitShareAsync world.toEnvironment (s.worker platform) values).result with
    | ok share =>
      rw [hresult] at hcases
      obtain ⟨s', hs', hiff⟩ := hcases
      exact ⟨s', ends_onSubmitAsync hid hfresh (ends_congr hsubmit hs'), hiff⟩
    | error e =>
      rw [hresult] at hcases
      cases e with
      | stratum code message =>
        rcases hcases with ⟨hban, s', hs', hcount⟩ |
          ⟨decision, t, hdecision, hrun, hcount, halive, hcontext⟩
        · -- the inner `ConsiderBan` throws, and nothing is replied
          refine ⟨s', ends_onSubmitAsync hid hfresh (ends_congr hsubmit hs'),
            iff_of_false (hnone s' hcount) ?_⟩
          rintro ⟨-, decision, hdecision, -⟩
          rcases banDecision_cases settings s.context.countInvalid with ⟨-, e, -, he⟩ | ⟨hnot, -⟩
          · exact absurd (hdecision.symm.trans he) (by simp)
          · exact hnot hban
        · obtain ⟨s', hs', hiff⟩ := ends_onSubmitAsync_stratum hid hfresh (hsubmit.trans hrun)
          have hcontext' : BanThrows settings t.context.countInvalid ↔
              BanThrows settings (decision.apply s.context.countInvalid).countInvalid := by
            rw [hcontext]
            cases decision with
            | _ => exact Iff.rfl
          rw [hcount, halive, hcontext'] at hiff
          have hdecision : banDecision settings s.context.countInvalid = .ok decision := hdecision
          exact ⟨s', hs', hiff.trans (and_congr_right fun _ =>
            (rejectedOnce_iff platform request hdecision code message).symm)⟩
      | _ =>
        obtain ⟨s', hs', hcount⟩ := hcases
        refine ⟨s', ends_onSubmitAsync hid hfresh (ends_congr hsubmit hs'),
          iff_of_false (hnone s' hcount) ?_⟩
        rintro ⟨-, decision, -, h⟩
        exact h

/-- The replies to a `mining.subscribe`. -/
theorem ends_subscribe (platform : Platform Id) {request : Request Id}
    (hid : request.id = some id) (s : Session Id) :
    ∃ s', Ends (catchStratum (onSubscribeAsync platform request)
        fun code message => send platform (.error request.id code message (some false))) s s' ∧
      (responses id s' = responses id s + 1 ↔
        s.isAlive = true ∧ SubscribeAnswered platform id request s) := by
  have hstart : (onSubscribeAsync platform request).run s = (do
      let requestParams ← MonadExcept.ofExcept (subscribeParams request)
      let extraNonce1 ← prepareWorker
      let s ← get
      send platform (.response id (.subscription s.connectionId extraNonce1))
      modify fun s => s.mapContext fun c => { c with isSubscribed := true }
      let userAgent ← MonadExcept.ofExcept (subscribeAgent platform requestParams)
      modify fun s => s.mapContext fun c => { c with userAgent := some userAgent } :
        Handler Id Unit).run s := run_bind_ok (run_ofExcept_ok (requestId_of_some hid _) s)
  unfold SubscribeAnswered
  cases hparams : subscribeParams request with
  | error e =>
    have herror := hstart.trans (run_bind_error (run_ofExcept_error hparams s))
    cases e with
    | stratum code message =>
      obtain ⟨s', hs', hiff⟩ := ends_send platform
        (.error request.id code message (some false)) (carries_error hid _ _ _) s
      exact ⟨s', ends_congr (run_catchStratum_stratum _ herror) hs', hiff⟩
    | _ =>
      exact ⟨s, ends_catchStratum (Or.inr ⟨_, fun _ _ => by simp, herror⟩),
        iff_of_false (by omega) fun h => h.2⟩
  | ok requestParams =>
    have hagent : ∀ e, subscribeAgent platform requestParams = .error e → NotStratum e := by
      intro e he
      unfold subscribeAgent at he
      split at he
      · exact nomatch he
      · obtain rfl := Except.error.inj he
        exact fun _ _ => by simp
    obtain ⟨t, hprepare, hsent, halive, hconnection⟩ : ∃ t : Session Id,
        prepareWorker.run s = .ok s.extraNonceProvider.next.1 t ∧ t.sent = s.sent ∧
          t.isAlive = s.isAlive ∧ t.connectionId = s.connectionId := ⟨_, rfl, rfl, rfl, rfl⟩
    have hrun := hstart.trans ((run_bind_ok (run_ofExcept_ok hparams s)).trans
      (run_bind_ok hprepare))
    rw [EStateM.run_bind, EStateM.run_get] at hrun
    dsimp only at hrun
    rw [hconnection] at hrun
    obtain ⟨s', hs', hiff⟩ := ends_reply platform
      (.response id (.subscription s.connectionId s.extraNonceProvider.next.1))
      (carries_response id _)
      (fun _ => keeps_bind
        (keeps_mapContext fun c => { c with isSubscribed := true })
        fun _ => keeps_bind (keeps_ofExcept hagent)
          fun userAgent => keeps_mapContext fun c => { c with userAgent := some userAgent }) t
    refine ⟨s', ends_catchStratum (ends_congr hrun hs'), ?_⟩
    rw [← responses_congr hsent, ← halive]
    exact hiff

omit [DecidableEq Id] in
theorem notStratum_authorizeRequest {params : Params} {e : Exn}
    (h : authorizeRequest platform params = .error e) : NotStratum e := by
  unfold authorizeRequest at h
  cases hparams : paramsAs params with
  | error e' =>
    rw [hparams] at h
    obtain rfl := Except.error.inj h
    cases params with
    | strings values => exact nomatch hparams
    | null => exact nomatch hparams
    | _ =>
      obtain rfl := Except.error.inj hparams
      exact fun _ _ => by simp
  | ok requestParams =>
    rw [hparams] at h
    dsimp only [bind, Except.bind] at h
    split at h
    · rename_i e' hpayment
      obtain rfl := Except.error.inj h
      unfold getMinimumPaymentFromPassparts at hpayment
      split at hpayment
      · exact nomatch hpayment
      · split at hpayment
        · obtain rfl := Except.error.inj hpayment
          exact fun _ _ => by simp
        · exact nomatch hpayment
    · exact nomatch h

/-- The reply to a `mining.authorize`. -/
theorem ends_authorize (platform : Platform Id) (settings : Settings) (world : World)
    {request : Request Id} (hid : request.id = some id) (s : Session Id) :
    ∃ s', Ends (onAuthorizeAsync platform settings world request) s s' ∧
      (responses id s' = responses id s + 1 ↔
        s.isAlive = true ∧ AuthorizeAnswered platform world id request) := by
  unfold onAuthorizeAsync AuthorizeAnswered
  cases hauthorize : authorizeRequest platform request.params with
  | error e =>
    refine ⟨s, ?_, iff_of_false (by omega) fun h => h.2⟩
    refine ends_bind (run_ofExcept_ok (requestId_of_some hid _) s) ?_
    exact ends_bind_error (notStratum_authorizeRequest hauthorize)
      (run_ofExcept_error rfl s)
  | ok authorize =>
    obtain ⟨t, hworker, hsent, halive, hauthorized⟩ : ∃ t : Session Id,
        (authorizeWorker world authorize).run s = .ok () t ∧ t.sent = s.sent ∧
          t.isAlive = s.isAlive ∧ t.context.isAuthorized = isAuthorized world authorize.minerName :=
      ⟨_, rfl, rfl, rfl, rfl⟩
    obtain ⟨s', hs', hiff⟩ := ends_reply platform
      (.response id (.bool t.context.isAuthorized)) (carries_response id _)
      (fun _ => keeps_bind
        (keeps_authorizeDifficulty settings authorize)
        fun _ => quiet_ensureInitialWorkSent) t
    refine ⟨s', ?_, ?_⟩
    · refine ends_bind (run_ofExcept_ok (requestId_of_some hid _) s) ?_
      refine ends_bind (run_ofExcept_ok rfl s) (ends_bind hworker ?_)
      exact ends_congr (by rw [EStateM.run_bind, EStateM.run_get]) hs'
    · rw [← responses_congr hsent, ← halive]
      rw [hauthorized] at hiff
      exact hiff

/-- What `OnReceive` makes of a request whose processing ends. -/
theorem responses_onReceive {request : Request Id} {s s' : Session Id}
    (hbanned : (settings.banning.any PoolShareBasedBanningConfig.enabled && s.banned) = false)
    (h : Ends (onRequestAsync platform settings world request) s s') :
    responses id (onReceive platform settings world request s) = responses id s' := by
  unfold onReceive
  rw [if_neg (by simp [hbanned])]
  rcases h with ⟨a, hrun⟩ | ⟨e, -, hrun⟩
  · rw [hrun]
  · rw [hrun]
    cases e with
    | jsonReader =>
      dsimp only
      split
      · exact responses_congr rfl
      · rfl
    | _ => rfl

/-- The replies to a request that is not dropped. -/
theorem ends_onRequestAsync (platform : Platform Id) (settings : Settings) (world : World)
    {request : Request Id} (hid : request.id = some id)
    (hfresh : ¬ StaleSubmit world request) (s : Session Id)
    (hbanned : (settings.banning.any PoolShareBasedBanningConfig.enabled && s.banned) = false) :
    ∃ s', Ends (onRequestAsync platform settings world request) s s' ∧
      (responses id s' = responses id s + 1 ↔
        Answered platform settings world id request s) := by
  unfold onRequestAsync dispatch Answered
  by_cases hsubscribe : request.method = some (ascii "mining.subscribe")
  · rw [if_pos hsubscribe, if_pos hsubscribe]
    obtain ⟨s', hs', hiff⟩ := ends_subscribe platform hid s
    exact ⟨s', hs', hiff.trans (and_congr_right fun _ => (and_iff_right hbanned).symm)⟩
  · rw [if_neg hsubscribe, if_neg hsubscribe]
    by_cases hauthorize : request.method = some (ascii "mining.authorize")
    · rw [if_pos hauthorize, if_pos hauthorize]
      obtain ⟨s', hs', hiff⟩ := ends_authorize platform settings world hid s
      exact ⟨s', ends_catchStratum hs',
        hiff.trans (and_congr_right fun _ => (and_iff_right hbanned).symm)⟩
    · rw [if_neg hauthorize, if_neg hauthorize]
      by_cases hsubmit : request.method = some (ascii "mining.submit")
      · rw [if_pos hsubmit, if_pos hsubmit]
        have hstale : isStale world request = false := by
          simpa using fun h => hfresh ⟨hsubmit, h⟩
        obtain ⟨s', hs', hiff⟩ := ends_submit platform settings world hid hstale s
        exact ⟨s', hs', hiff.trans (and_congr_right fun _ => (and_iff_right hbanned).symm)⟩
      · rw [if_neg hsubmit, if_neg hsubmit]
        obtain ⟨s', hs', hiff⟩ := ends_send platform (unsupported platform request)
          (carries_error hid _ _ _) s
        exact ⟨s', ends_catchStratum hs',
          hiff.trans (and_congr_right fun _ => (and_iff_right hbanned).symm)⟩

/-- A submission that is too old is dropped. -/
theorem onReceive_of_stale {request : Request Id} (hid : request.id = some id)
    (hstale : StaleSubmit world request) (s : Session Id) :
    responses id (onReceive platform settings world request s) = responses id s := by
  obtain ⟨hmethod, hold⟩ := hstale
  have hbody : ((do
      let id ← MonadExcept.ofExcept (requestId .minusOne request)
      if isStale world request then pure ()
      else submit platform settings world id request) : Handler Id Unit).run s = .ok () s := by
    rw [run_bind_ok (run_ofExcept_ok (requestId_of_some hid _) s), if_pos hold]
    rfl
  have hends : Ends (onRequestAsync platform settings world request) s s := by
    unfold onRequestAsync dispatch
    rw [hmethod, if_neg (by decide), if_neg (by decide), if_pos rfl]
    exact ends_catchStratum (ends_catchStratum (Or.inl ⟨(), hbody⟩))
  cases hbanned : settings.banning.any PoolShareBasedBanningConfig.enabled && s.banned with
  | false => exact responses_onReceive hbanned hends
  | true =>
    unfold onReceive
    rw [if_pos hbanned]
    exact responses_congr rfl

variable (platform settings world)

/-- **One request, one reply**: exactly one is sent when the connection is open, the address is not
banned and the method replies once, and none to a submission that is dropped. -/
theorem oneReply_iff {request : Request Id} (hid : request.id = some id) (s : Session Id) :
    OneReply platform settings world id request s ↔
      StaleSubmit world request ∨ Answered platform settings world id request s := by
  unfold OneReply
  by_cases hstale : StaleSubmit world request
  · rw [if_pos hstale]
    exact iff_of_true (onReceive_of_stale hid hstale s) (Or.inl hstale)
  · rw [if_neg hstale, or_iff_right hstale]
    cases hbanned : settings.banning.any PoolShareBasedBanningConfig.enabled && s.banned with
    | false =>
      obtain ⟨s', hs', hiff⟩ := ends_onRequestAsync platform settings world hid hstale s
        hbanned
      rw [responses_onReceive hbanned hs']
      exact hiff
    | true =>
      refine iff_of_false ?_ fun h => absurd (hbanned.symm.trans h.2.1) (by simp)
      unfold onReceive
      have hsame : responses id s.disconnectClient = responses id s := responses_congr rfl
      rw [if_pos hbanned, hsame]
      omega

end Quiet

/-! ## Requests of a new client -/

/-- A platform that reads the digits `0` to `9`, and on which every message fits. -/
def samplePlatform : Platform ℕ where
  isWhiteSpace c := c = 32
  isDigit c := 48 ≤ c.toNat ∧ c.toNat ≤ 57
  parseDecimal t :=
    if t ≠ [] ∧ t.all fun c => 48 ≤ c.toNat ∧ c.toNat ≤ 57 then
      some ((t.foldl (fun n c => 10 * n + (c.toNat - 48)) 0 : ℕ) : ℚ)
    else none
  parseDouble t :=
    if t ≠ [] ∧ t.all fun c => 48 ≤ c.toNat ∧ c.toNat ≤ 57 then
      some (.fin ((t.foldl (fun n c => 10 * n + (c.toNat - 48)) 0 : ℕ) : ℚ))
    else none
  string t := String.ofList (t.map fun c => Char.ofNat c.toNat)
  fits := fun _ => true

/-- A pool that bans for shares, half of which are invalid. -/
def sampleSettings : Settings where
  poolId := "aion1"
  banning := some ⟨true, 50, .fin 50, 600⟩
  clusterBanning := none
  clientConnectionTimeout := 600

/-- Daemons that accept every address and every block. -/
def sampleWorld : World where
  toAlgorithms := sampleAlgorithms
  submitWork := fun _ => .ok ⟨none, none⟩
  now := 0
  validateAddress := fun _ => true
  varDiffUpdate := none

/-- A client that has connected. -/
def sampleSession : Session ℕ where
  connectionId := "c1"
  remoteEndpoint := none
  isLoopback := false
  isAlive := true
  registered := true
  context := .init (.fin 4) none 0
  sent := []
  banned := false
  manager := ⟨"aion1", none, fun _ => none⟩
  extraNonceProvider := .create 2 0x01010101
  currentJobParams := none
  bus := []

/-- A request of the client. -/
def sampleRpcRequest (method : String) (params : List String) : Request ℕ where
  method := some (ascii method)
  params := .strings (params.map fun value => some (ascii value))
  id := some 1
  timestamp := 0

/-- A subscription has one reply. -/
theorem oneReply_subscribe :
    OneReply samplePlatform sampleSettings sampleWorld 1
      (sampleRpcRequest "mining.subscribe" ["miner", "1"]) sampleSession :=
  (oneReply_iff samplePlatform sampleSettings sampleWorld rfl sampleSession).mpr
    (Or.inr ⟨rfl, rfl, rfl⟩)

/-- A submission of a client that is not authorized has two replies. -/
theorem two_replies :
    ∃ (platform : Platform ℕ) (settings : Settings) (world : World) (request : Request ℕ) (id : ℕ)
      (s : Session ℕ), request.id = some id ∧ ¬ StaleSubmit world request ∧
        responses id (onReceive platform settings world request s) = 2 ∧
        ¬ OneReply platform settings world id request s := by
  have htwo : responses 1 (onReceive samplePlatform sampleSettings sampleWorld
      (sampleRpcRequest "mining.submit" ["m", "j", "t", "n", "s"]) sampleSession) = 2 := by
    decide +kernel
  refine ⟨samplePlatform, sampleSettings, sampleWorld, _, 1, sampleSession, rfl, ?_, htwo, ?_⟩
  · decide +kernel
  · unfold OneReply
    rw [htwo]
    decide +kernel

end AionPool.Aion.Pool
