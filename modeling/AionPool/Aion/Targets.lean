import AionPool.Lib.Run
import AionPool.Aion.Replies

/-!
# The target a client knows

A client's shares are compared with the target of `context.Difficulty`, and the client mines for the
target that was sent to it last. `OnVarDiffUpdateAsync` changes the difficulty and sends the target;
`OnAuthorizeAsync` changes it too, and sends a target only with the client's first work.
`EnsureInitialWorkSent` marks that work as sent before it has a target.

* `Informed`: the client knows its target, and no change of its difficulty is pending.
* **`told_of_run`**: what keeps a client informed in every run of requests and broadcasts.

About `AionPool.cs:106-150`, `:249-316` and `:453-473`.
-/

namespace AionPool.Aion.Pool

open AionPool.Extensions AionPool.Lib.Effects AionPool.Lib.Run
open AionPool.Aion.UpdateJob (JobParams)
open AionPool.Lib.Binary64 (Double)

variable {Id : Type}

/-! ## What a client was told -/

/-- The target a message tells. -/
def Message.target : Message Id → Option Text
  | .setTarget target => some target
  | _ => none

/-- The target that was sent last. -/
def lastTarget (s : Session Id) : Option Text := (s.sent.filterMap Message.target).getLast?

theorem lastTarget_append (s : Session Id) (message : Message Id) :
    lastTarget { s with sent := s.sent ++ [message] } = message.target.or (lastTarget s) := by
  unfold lastTarget
  rw [List.filterMap_append, List.getLast?_append]
  cases message with
  | _ => rfl

/-- Once its first work has been sent, a client was last told the target of its difficulty. -/
def Told (s : Session Id) : Prop :=
  s.context.isInitialWorkSent = true →
    ∃ target, diffToTarget s.context.difficulty = .ok target ∧ lastTarget s = some target

theorem told_iff {s : Session Id} : Told s ↔
    (s.context.isInitialWorkSent = true → (lastTarget s).isSome = true ∧
      (diffToTarget s.context.difficulty).toOption = lastTarget s) := by
  refine imp_congr_right fun _ => ?_
  constructor
  · rintro ⟨target, htarget, hlast⟩
    rw [htarget, hlast]
    exact ⟨rfl, rfl⟩
  · rintro ⟨hsome, hsame⟩
    obtain ⟨target, hlast⟩ := Option.isSome_iff_exists.mp hsome
    rw [hlast] at hsame
    cases hdiff : diffToTarget s.context.difficulty with
    | error e =>
      rw [hdiff] at hsame
      exact nomatch hsame
    | ok target' =>
      rw [hdiff] at hsame
      exact ⟨target', rfl, hlast.trans hsame.symm⟩

instance (s : Session Id) : Decidable (Told s) := decidable_of_iff _ told_iff.symm

/-- What holds of a client in between its requests. -/
structure Informed (s : Session Id) : Prop where
  pending : s.context.pendingDifficulty = none
  told : Told s

/-- A context of which a client and its shares are judged in the same way. -/
structure SameDifficulty (c c' : WorkerContext) : Prop where
  difficulty : c'.difficulty = c.difficulty
  pendingDifficulty : c'.pendingDifficulty = c.pendingDifficulty
  isInitialWorkSent : c'.isInitialWorkSent = c.isInitialWorkSent

/-- A session in which nothing has changed for the targets of a client. -/
structure SameTarget (s s' : Session Id) : Prop where
  context : SameDifficulty s.context s'.context
  lastTarget : lastTarget s' = lastTarget s
  isAlive : s'.isAlive = s.isAlive
  currentJobParams : s'.currentJobParams = s.currentJobParams

theorem sameDifficulty_refl (c : WorkerContext) : SameDifficulty c c := ⟨rfl, rfl, rfl⟩

instance : IsPreorder (Session Id) SameTarget where
  refl _ := ⟨sameDifficulty_refl _, rfl, rfl, rfl⟩
  trans _ _ _ h h' := {
    context :=
      { difficulty := h'.context.difficulty.trans h.context.difficulty
        pendingDifficulty := h'.context.pendingDifficulty.trans h.context.pendingDifficulty
        isInitialWorkSent := h'.context.isInitialWorkSent.trans h.context.isInitialWorkSent }
    lastTarget := h'.lastTarget.trans h.lastTarget
    isAlive := h'.isAlive.trans h.isAlive
    currentJobParams := h'.currentJobParams.trans h.currentJobParams }

theorem Told.congr {s s' : Session Id} (h : Told s) (hcontext : SameDifficulty s.context s'.context)
    (hlast : lastTarget s' = lastTarget s) : Told s' := by
  intro hsent
  rw [hcontext.isInitialWorkSent] at hsent
  rw [hcontext.difficulty, hlast]
  exact h hsent

theorem Informed.congr {s s' : Session Id} (h : Informed s)
    (hcontext : SameDifficulty s.context s'.context) (hlast : lastTarget s' = lastTarget s) :
    Informed s' :=
  ⟨hcontext.pendingDifficulty.trans h.pending, h.told.congr hcontext hlast⟩

theorem Informed.same {s s' : Session Id} (h : Informed s) (hsame : SameTarget s s') :
    Informed s' := h.congr hsame.context hsame.lastTarget

/-- A session in which messages were sent, but no target. -/
structure SameContext (s s' : Session Id) : Prop where
  sameTarget : SameTarget s s'
  context : s'.context = s.context

instance : IsPreorder (Session Id) SameContext where
  refl s := ⟨refl_of SameTarget s, rfl⟩
  trans _ _ _ h h' := ⟨trans_of SameTarget h.sameTarget h'.sameTarget, h'.context.trans h.context⟩

/-! ## Programs that tell no target -/

variable {platform : Platform Id} {settings : Settings} {world : World}

/-- A message that is no target leaves the context as it is, too. -/
theorem keepsContext_send (platform : Platform Id) (message : Message Id)
    (h : message.target = none) : Keeps SameContext Any (send platform message) := by
  refine keeps_send (fun s => ⟨⟨sameDifficulty_refl _, ?_, rfl, rfl⟩, rfl⟩) trivial
  rw [lastTarget_append, h, Option.none_or]

theorem keepsTarget_reply {message : Message Id} (h : message.target = none) :
    Keeps SameTarget Any (send platform message) :=
  (keepsContext_send platform message h).mono (fun _ _ h => h.sameTarget) fun _ => id

theorem keepsTarget_onSubscribeAsync (request : Request Id) :
    Keeps SameTarget Any (onSubscribeAsync platform request) :=
  keeps_onSubscribeAsync request (fun _ _ _ => ⟨⟨rfl, rfl, rfl⟩, rfl, rfl, rfl⟩)
    (fun _ _ _ => keepsTarget_reply rfl) (fun _ => ⟨⟨rfl, rfl, rfl⟩, rfl, rfl, rfl⟩)
    (fun _ _ => ⟨⟨rfl, rfl, rfl⟩, rfl, rfl, rfl⟩)

theorem keepsTarget_rejectShare :
    Keeps SameTarget Any (rejectShare settings : Handler Id Unit) := by
  refine keeps_rejectShare (fun _ => ⟨⟨rfl, rfl, rfl⟩, rfl, rfl, rfl⟩) (fun s decision => ?_)
    fun _ => ⟨sameDifficulty_refl _, rfl, rfl, rfl⟩
  cases decision with
  | _ => exact ⟨⟨rfl, rfl, rfl⟩, rfl, rfl, rfl⟩

theorem keepsTarget_rejectSubmit (request : Request Id) (code : StratumError) (message : String) :
    Keeps SameTarget Any (rejectSubmit platform settings world request code message) :=
  keeps_rejectSubmit request code message (keepsTarget_reply rfl)
    (fun _ => ⟨sameDifficulty_refl _, rfl, rfl, rfl⟩) keepsTarget_rejectShare

/-! ## Work -/

variable (platform)

/-- The work of a difficulty can be sent to the client. -/
def Sendable (s : Session Id) (difficulty : Double) : Prop :=
  s.isAlive = true ∧ platform.fits (.miningNotify s.currentJobParams) = true ∧
    ∃ target, diffToTarget difficulty = .ok target ∧ platform.fits (.setTarget target) = true

variable {platform}

theorem Sendable.same {s s' : Session Id} {difficulty : Double} (h : Sendable platform s difficulty)
    (halive : s'.isAlive = s.isAlive) (hjob : s'.currentJobParams = s.currentJobParams) :
    Sendable platform s' difficulty := by
  unfold Sendable
  rw [halive, hjob]
  exact h

theorem sendable_of_isSome {s : Session Id} {difficulty : Double} (halive : s.isAlive = true)
    (hfits : ∀ message, platform.fits message = true)
    (htarget : (diffToTarget difficulty).toOption.isSome = true) :
    Sendable platform s difficulty := by
  refine ⟨halive, hfits _, ?_⟩
  cases hdiff : diffToTarget difficulty with
  | error e =>
    rw [hdiff] at htarget
    exact nomatch htarget
  | ok target => exact ⟨target, rfl, hfits _⟩

/-- The target is told, unless the client knows it already. -/
theorem informed_setTarget {s : Session Id} {target : Text}
    (hpending : s.context.pendingDifficulty = none)
    (htarget : diffToTarget s.context.difficulty = .ok target)
    (h : Told s ∨ (s.isAlive = true ∧ platform.fits (.setTarget target) = true)) :
    Informed (after (send platform (.setTarget target)) s) := by
  rcases run_send_cases platform (.setTarget target) s with
    ⟨hrun, -⟩ | ⟨hrun, -, hfits⟩ | ⟨hrun, halive⟩
  · rw [after_ok hrun]
    exact ⟨hpending, fun _ => ⟨target, htarget, lastTarget_append s _⟩⟩
  · rw [after_error hrun]
    exact ⟨hpending, h.resolve_right fun hr => by simp [hfits] at hr⟩
  · rw [after_ok hrun]
    exact ⟨hpending, h.resolve_right fun hr => by simp [halive] at hr⟩

/-- A client that knows its target may be sent it again, and one that does not is told it. -/
theorem informed_sendWork {s : Session Id} {target : Text}
    (hpending : s.context.pendingDifficulty = none)
    (htarget : diffToTarget s.context.difficulty = .ok target)
    (h : Told s ∨ Sendable platform s s.context.difficulty) :
    Informed (after (sendWork platform target) s) := by
  have hnotify := keepsContext_send platform (.miningNotify s.currentJobParams) rfl
  unfold sendWork
  rw [after_bind_ok (rfl : (get : Handler Id (Session Id)).run s = .ok s s)]
  refine leaves_bind (fun e t hrun => ?_) fun _ t hrun => ?_
  · obtain ⟨⟨hsame, -⟩, -⟩ := hnotify.of_error hrun
    refine Informed.same ⟨hpending, h.resolve_right ?_⟩ hsame
    rintro ⟨halive, hfits, -⟩
    rw [run_send, if_pos halive, if_pos hfits] at hrun
    exact nomatch hrun
  · obtain ⟨hsame, hcontext⟩ := hnotify.of_ok hrun
    refine informed_setTarget (by rw [hcontext, hpending]) (by rw [hcontext, htarget]) ?_
    refine h.imp (fun htold => htold.congr hsame.context hsame.lastTarget) ?_
    rintro ⟨halive, -, target', htarget', hfits⟩
    obtain rfl := Except.ok.inj (htarget.symm.trans htarget')
    exact ⟨hsame.isAlive.trans halive, hfits⟩

/-- The first work of a client is one that can be sent. -/
theorem informed_ensureInitialWorkSent {s : Session Id} (h : Informed s)
    (hsend : s.context.isSubscribed = true → s.context.isAuthorized = true →
      s.context.isInitialWorkSent = false → Sendable platform s s.context.difficulty) :
    Informed (after (ensureInitialWorkSent platform) s) := by
  unfold ensureInitialWorkSent
  by_cases hclaim : Claims s
  · obtain ⟨halive, hnotify, target, htarget, hfits⟩ := hsend hclaim.1 hclaim.2.1 hclaim.2.2
    rw [after_bind_ok ((run_claimInitialWork hclaim).trans
      (run_bind_ok (run_ofExcept_ok htarget _)))]
    exact informed_sendWork h.pending htarget
      (Or.inr ⟨halive, hnotify, target, htarget, hfits⟩)
  · rw [after_bind_ok (run_claimInitialWork_of_not hclaim)]
    exact h

/-- A new difficulty has a target that can be sent, or the target of the old one. -/
theorem informed_updateVarDiffAsync {s : Session Id} (h : Informed s)
    (hsend : ∀ newDiff, varDiffUpdate world s.context = some newDiff →
      Sendable platform s newDiff ∨ diffToTarget newDiff = diffToTarget s.context.difficulty) :
    Informed (after (updateVarDiffAsync platform world) s) := by
  unfold updateVarDiffAsync
  rw [after_bind_ok (run_get s)]
  cases hupdate : varDiffUpdate world s.context with
  | none => exact h
  | some newDiff =>
    dsimp only
    unfold onVarDiffUpdateAsync
    rw [after_bind_ok (run_modify _ s), after_bind_ok (run_modify _ _)]
    -- the target of the old difficulty is known already
    have htold : diffToTarget newDiff = diffToTarget s.context.difficulty → Told
        ((s.mapContext fun c => { c with pendingDifficulty := some newDiff }).mapContext
          WorkerContext.applyPendingDifficulty) := by
      intro hsame hsent
      obtain ⟨target, htarget, hlast⟩ := h.told hsent
      exact ⟨target, hsame.trans htarget, hlast⟩
    refine leaves_bind_ofExcept (fun e he => ⟨rfl, htold ?_⟩) fun target htarget => ?_
    · refine (hsend newDiff hupdate).resolve_left ?_
      rintro ⟨-, -, target, htarget, -⟩
      exact absurd (he.symm.trans htarget) (by simp)
    · exact informed_sendWork rfl htarget ((hsend newDiff hupdate).symm.imp htold
        fun hsend => hsend.same rfl rfl)

/-- A broadcast tells a client the target it knows. -/
theorem informed_broadcastWork {s : Session Id} (h : Informed s) :
    Informed (after (broadcastWork platform) s) := by
  have happly : (modify fun s => s.mapContext WorkerContext.applyPendingDifficulty :
      Handler Id Unit).run s = .ok () s := by
    rw [run_modify]
    unfold Session.mapContext
    rw [applyPendingDifficulty_none h.pending]
  unfold broadcastWork
  rw [after_bind_ok (run_get s), after_bind_ok happly, h.pending, Option.isSome_none,
    after_bind_ok (rfl : (sendDifficulty platform false).run s = .ok () s),
    after_bind_ok (run_get s)]
  exact leaves_bind_ofExcept (fun _ _ => h) fun target htarget =>
    informed_sendWork h.pending htarget (Or.inl h.told)

theorem informed_onNewJobAsync {s : Session Id} (h : Informed s) (jobParams : Option JobParams) :
    Informed (after (onNewJobAsync platform settings world jobParams) s) := by
  have hjob : Informed { s with currentJobParams := jobParams } :=
    h.congr (sameDifficulty_refl _) rfl
  unfold onNewJobAsync
  rw [after_bind_ok (run_modify _ s), after_bind_ok (run_get _)]
  split
  · split
    · exact hjob.congr (sameDifficulty_refl _) rfl
    · exact informed_broadcastWork hjob
  · exact hjob

/-! ## Requests -/

/-- What sending work leaves alone. -/
structure SameClient (s s' : Session Id) : Prop where
  difficulty : s'.context.difficulty = s.context.difficulty
  varDiff : s'.context.varDiff = s.context.varDiff
  isAlive : s'.isAlive = s.isAlive
  currentJobParams : s'.currentJobParams = s.currentJobParams

instance : IsPreorder (Session Id) SameClient where
  refl _ := ⟨rfl, rfl, rfl, rfl⟩
  trans _ _ _ h h' := {
    difficulty := h'.difficulty.trans h.difficulty
    varDiff := h'.varDiff.trans h.varDiff
    isAlive := h'.isAlive.trans h.isAlive
    currentJobParams := h'.currentJobParams.trans h.currentJobParams }

theorem keepsClient_send (message : Message Id) :
    Keeps SameClient Any (send platform message) :=
  keeps_send (fun _ => ⟨rfl, rfl, rfl, rfl⟩) trivial

theorem keepsClient_ensureInitialWorkSent :
    Keeps SameClient Any (ensureInitialWorkSent platform) :=
  keeps_ensureInitialWorkSent (fun _ => keepsClient_send _)
    (fun _ => keepsClient_send _) (fun _ => keeps_ofExcept_any _)
    (keeps_modify fun _ => ⟨rfl, rfl, rfl, rfl⟩)

theorem id_of_requestId {code : StratumError} {request : Request Id} {id : Id}
    (h : requestId code request = .ok id) : request.id = some id := by
  unfold requestId at h
  split at h
  · exact nomatch h
  · rename_i id' hid
    rw [hid, Except.ok.inj h]

theorem fits_of_run_send {message : Message Id} {s t : Session Id} {u : Unit}
    (h : (send platform message).run s = .ok u t) (halive : s.isAlive = true) :
    platform.fits message = true := by
  rcases run_send_cases platform message s with ⟨-, -, hfits⟩ | ⟨hrun, -⟩ | ⟨-, hclosed⟩
  · exact hfits
  · exact absurd (h.symm.trans hrun) (by simp)
  · exact absurd (halive.symm.trans hclosed) (by simp)

variable (platform settings world)

/-- The difficulty a `mining.authorize` leaves. -/
def authorizedDifficulty (authorize : AuthorizeRequest) (c : WorkerContext) : Double :=
  (c.applyStaticDiff (staticDiff platform authorize.passParts c)).difficulty

/-- A `mining.authorize` that is served leaves the target of a client that knows it, and else one
that can be sent. -/
def AuthorizeTold (request : Request Id) (s : Session Id) : Prop :=
  ∀ id authorize, request.id = some id → authorizeRequest platform request.params = .ok authorize →
    (s.isAlive = true →
      platform.fits (.response id (.bool (isAuthorized world authorize.minerName))) = true) →
    if s.context.isInitialWorkSent then
      diffToTarget (authorizedDifficulty platform authorize s.context) =
        diffToTarget s.context.difficulty
    else s.context.isSubscribed = true → isAuthorized world authorize.minerName = true →
      Sendable platform s (authorizedDifficulty platform authorize s.context)

/-- A `mining.submit` of a valid share: the first work can be sent, and the target of a difficulty
the `VarDiffManager` answers, unless it is the old one. -/
def SubmitTold (request : Request Id) (s : Session Id) : Prop :=
  ∀ id values share, request.id = some id → isStale world request = false →
    submitRequest s.context request.params = .ok values →
    (s.manager.submitShareAsync world.toEnvironment (s.worker platform) values).result =
      .ok share →
    (s.isAlive = true → platform.fits (.response id (.bool true)) = true) →
    (s.context.isInitialWorkSent = false → Sendable platform s s.context.difficulty) ∧
      ∀ newDiff, varDiffUpdate world s.context = some newDiff →
        Sendable platform s newDiff ∨ diffToTarget newDiff = diffToTarget s.context.difficulty

variable {platform settings world}

/-- The context, once it is known whether the client is authorized. -/
def authorizedContext (world : World) (authorize : AuthorizeRequest) (c : WorkerContext) :
    WorkerContext :=
  { c with
    isAuthorized := isAuthorized world authorize.minerName
    minerName := authorize.minerName
    workerName := authorize.workerName }

/-- What an authorization does behind its reply: the target of the difficulty it leaves is known, or
sent with the first work. -/
theorem informed_authorized {authorize : AuthorizeRequest} {s u : Session Id} (h : Informed s)
    (hsame : SameTarget s u) (hcontext : u.context = authorizedContext world authorize s.context)
    (hguard : if s.context.isInitialWorkSent then
        diffToTarget (authorizedDifficulty platform authorize s.context) =
          diffToTarget s.context.difficulty
      else s.context.isSubscribed = true → isAuthorized world authorize.minerName = true →
        Sendable platform s (authorizedDifficulty platform authorize s.context)) :
    Informed (after (do
      authorizeDifficulty platform settings authorize
      ensureInitialWorkSent platform) u) := by
  obtain ⟨v, hrun, hlast, halive, hjob, hv⟩ : ∃ v,
      (authorizeDifficulty platform settings authorize).run u = .ok () v ∧
        lastTarget v = lastTarget u ∧ v.isAlive = u.isAlive ∧
        v.currentJobParams = u.currentJobParams ∧
        v.context = { u.context.applyStaticDiff (staticDiff platform authorize.passParts u.context)
          with minimumPayment := authorize.minimumPayment } := ⟨_, rfl, rfl, rfl, rfl, rfl⟩
  rw [hcontext] at hv
  obtain ⟨hmark, hpending, hsubscribed, hauthorized⟩ := applyStaticDiff_keeps
    (authorizedContext world authorize s.context)
    (staticDiff platform authorize.passParts s.context)
  have hnew : v.context.difficulty = authorizedDifficulty platform authorize s.context := by
    rw [hv]
    exact (difficulty_applyStaticDiff _ _).trans (difficulty_applyStaticDiff s.context
      (staticDiff platform authorize.passParts s.context)).symm
  have hmark' : v.context.isInitialWorkSent = s.context.isInitialWorkSent := by
    rw [hv]
    exact hmark
  rw [after_bind_ok hrun]
  refine informed_ensureInitialWorkSent ⟨?_, fun hsent => ?_⟩ fun hsub hauth hnot => ?_
  · rw [hv]
    exact hpending.trans h.pending
  · rw [hmark'] at hsent
    rw [if_pos hsent] at hguard
    obtain ⟨target, htarget, hknown⟩ := h.told hsent
    exact ⟨target, by rw [hnew, hguard, htarget], (hlast.trans hsame.lastTarget).trans hknown⟩
  · rw [hmark'] at hnot
    rw [hv] at hsub hauth
    rw [if_neg (by simp [hnot])] at hguard
    rw [hnew]
    exact (hguard (hsubscribed.symm.trans hsub) (hauthorized.symm.trans hauth)).same
      (halive.trans hsame.isAlive) (hjob.trans hsame.currentJobParams)

theorem informed_onAuthorizeAsync {request : Request Id} {s : Session Id} (h : Informed s)
    (htold : AuthorizeTold platform world request s) :
    Informed (after (onAuthorizeAsync platform settings world request) s) := by
  unfold onAuthorizeAsync
  refine leaves_bind_ofExcept (fun _ _ => h) fun id hid => ?_
  refine leaves_bind_ofExcept (fun _ _ => h) fun authorize hauthorize => ?_
  obtain ⟨t, hworker, hsame, hcontext⟩ : ∃ t : Session Id,
      (authorizeWorker world authorize : Handler Id Unit).run s = .ok () t ∧ SameTarget s t ∧
        t.context = authorizedContext world authorize s.context :=
    ⟨_, rfl, ⟨⟨rfl, rfl, rfl⟩, rfl, rfl, rfl⟩, rfl⟩
  have hreply := keepsContext_send platform (.response id (.bool t.context.isAuthorized)) rfl
  rw [after_bind_ok hworker, after_bind_ok (run_get t)]
  refine leaves_bind (fun e u hrun => ?_) fun _ u hrun => ?_
  · exact (h.same hsame).same (hreply.of_error hrun).1.sameTarget
  have hsent := hreply.of_ok hrun
  have hguard := htold id authorize (id_of_requestId hid) hauthorize fun halive => by
    have hfits := fits_of_run_send hrun (hsame.isAlive.trans halive)
    rw [hcontext] at hfits
    exact hfits
  exact informed_authorized h (trans_of SameTarget hsame hsent.sameTarget)
    (hsent.context.trans hcontext) hguard

theorem keepsTarget_submitShare (platform : Platform Id) (world : World) (values : List Text) :
    Keeps SameTarget Any (submitShare platform world values) := by
  refine keeps_bind keeps_get fun s => ?_
  exact keeps_bind
    (keeps_modify fun s => ⟨sameDifficulty_refl _, rfl, rfl, rfl⟩) fun _ => keeps_ofExcept_any _

/-- A share that is accepted. -/
theorem of_run_submitShare {values : List Text} {share : Mining.Share Double} {s t : Session Id}
    (h : (submitShare platform world values).run s = .ok share t) :
    (s.manager.submitShareAsync world.toEnvironment (s.worker platform) values).result =
        .ok share ∧ t.context = s.context := by
  unfold submitShare at h
  rw [run_bind_ok (run_get s), run_bind_ok (run_modify _ s)] at h
  cases hresult :
      (s.manager.submitShareAsync world.toEnvironment (s.worker platform) values).result with
  | error e =>
    rw [run_ofExcept_error hresult] at h
    exact nomatch h
  | ok share' =>
    rw [run_ofExcept_ok hresult] at h
    obtain ⟨rfl, rfl⟩ := EStateM.Result.ok.inj h
    exact ⟨rfl, rfl⟩

/-- What follows a share that is accepted. -/
theorem informed_acceptShare {id : Id} {share : Mining.Share Double} {s : Session Id}
    (h : Informed s)
    (hwork : (s.isAlive = true → platform.fits (.response id (.bool true)) = true) →
      (s.context.isInitialWorkSent = false → Sendable platform s s.context.difficulty) ∧
        ∀ newDiff, varDiffUpdate world s.context = some newDiff →
          Sendable platform s newDiff ∨
            diffToTarget newDiff = diffToTarget s.context.difficulty) :
    Informed (after (acceptShare platform world id share) s) := by
  have hreply := keepsContext_send platform (.response id (.bool true)) rfl
  unfold acceptShare
  refine leaves_bind (fun e t hrun => h.same (hreply.of_error hrun).1.1) fun _ t hrun => ?_
  obtain ⟨hsame, hcontext⟩ := hreply.of_ok hrun
  obtain ⟨hfirst, hnext⟩ := hwork (fits_of_run_send hrun)
  obtain ⟨u, hbus, hsame', hcontext'⟩ : ∃ u, (modify fun s => { s with
      bus := s.bus ++ [.clientShare share] } : Handler Id Unit).run t = .ok () u ∧
        SameTarget t u ∧ u.context = t.context :=
    ⟨_, rfl, ⟨sameDifficulty_refl _, rfl, rfl, rfl⟩, rfl⟩
  have hu : Informed u := (h.same hsame).same hsame'
  have halive := hsame'.isAlive.trans hsame.isAlive
  have hjob := hsame'.currentJobParams.trans hsame.currentJobParams
  rw [after_bind_ok hbus]
  have hwork : Informed (after (ensureInitialWorkSent platform) u) := by
    refine informed_ensureInitialWorkSent hu fun _ _ hnot => ?_
    rw [hcontext', hcontext] at hnot ⊢
    exact (hfirst hnot).same halive hjob
  refine leaves_bind (fun e v hrun => ?_) fun _ v hrun => ?_
  · rw [after_error hrun] at hwork
    exact hwork
  rw [after_ok hrun] at hwork
  have hclient := keepsClient_ensureInitialWorkSent.of_ok hrun
  rw [after_bind_ok (run_modify _ v)]
  refine informed_updateVarDiffAsync (hwork.congr ⟨rfl, rfl, rfl⟩ rfl) fun newDiff hupdate => ?_
  have hsame : varDiffUpdate world s.context = some newDiff := by
    unfold varDiffUpdate at hupdate ⊢
    rw [← hcontext, ← hcontext', ← hclient.varDiff]
    exact hupdate
  refine (hnext newDiff hsame).imp (fun hsend => ?_) fun htarget => htarget.trans ?_
  · exact hsend.same (hclient.isAlive.trans halive) (hclient.currentJobParams.trans hjob)
  · rw [Session.mapContext_context, hclient.difficulty, hcontext', hcontext]

theorem leaves_catchStratum {Q : Session Id → Prop} {x : Handler Id Unit}
    {handle : StratumError → String → Handler Id Unit} {s : Session Id} (hx : Q (after x s))
    (hhandle : ∀ code message t, Q t → Q (after (handle code message) t)) :
    Q (after (catchStratum x handle) s) :=
  leaves_tryCatch hx fun e t ht => by
    cases e with
    | stratum code message => exact hhandle code message t ht
    | _ => exact ht

theorem informed_onSubmitAsync {request : Request Id} {s : Session Id} (h : Informed s)
    (htold : SubmitTold platform world request s) :
    Informed (after (onSubmitAsync platform settings world request) s) := by
  refine leaves_catchStratum ?_ fun code message t ht =>
    ht.same ((keepsTarget_rejectSubmit request code message).after t)
  refine leaves_bind_ofExcept (fun _ _ => h) fun id hid => ?_
  split
  · exact h
  rename_i hfresh
  unfold submit
  rw [after_bind_ok (run_get s)]
  refine leaves_bind_ofExcept (fun _ _ => h) fun values hvalues => ?_
  rw [after_bind_ok (run_modify _ s)]
  have ht : Informed (s.mapContext fun c => { c with lastActivity := world.now }) :=
    h.congr ⟨rfl, rfl, rfl⟩ rfl
  refine leaves_catchStratum ?_ fun code message t ht => ht.same
    ((keeps_bind keepsTarget_rejectShare fun _ =>
      keeps_throw trivial : Keeps SameTarget Any _).after t)
  have hshare := keepsTarget_submitShare platform world values
  refine leaves_bind (fun e u hrun => ht.same (hshare.of_error hrun).1) fun share u hrun => ?_
  have hsame := hshare.of_ok hrun
  obtain ⟨hresult, hcontext⟩ := of_run_submitShare hrun
  refine informed_acceptShare (ht.same hsame) fun hfits => ?_
  obtain ⟨hfirst, hnext⟩ := htold id values share (id_of_requestId hid) (by simpa using hfresh)
    hvalues hresult fun ha => hfits (hsame.isAlive.trans ha)
  rw [hcontext]
  exact ⟨fun hnot => (hfirst hnot).same hsame.isAlive hsame.currentJobParams,
    fun newDiff hupdate => (hnext newDiff hupdate).imp_left fun hsend =>
      hsend.same hsame.isAlive hsame.currentJobParams⟩

variable (platform settings)

theorem informed_onReceive {request : Request Id} {s : Session Id} (h : Informed s)
    (htold : (settings.banning.any PoolShareBasedBanningConfig.enabled && s.banned) = false →
      (request.method = some (ascii "mining.authorize") → AuthorizeTold platform world request s) ∧
        (request.method = some (ascii "mining.submit") → SubmitTold platform world request s)) :
    Informed (onReceive platform settings world request s) := by
  unfold onReceive
  split
  · exact h.congr (sameDifficulty_refl _) rfl
  rename_i hbanned
  obtain ⟨hauthorize, hsubmit⟩ := htold (by simpa using hbanned)
  have hafter : Informed (after (onRequestAsync platform settings world request) s) := by
    refine leaves_catchStratum ?_ fun code message t ht =>
      ht.same ((keepsContext_send platform _ rfl).after t).1
    unfold dispatch
    split
    · exact h.same ((keepsTarget_onSubscribeAsync request).after s)
    split
    · rename_i hmethod
      exact informed_onAuthorizeAsync h (hauthorize hmethod)
    split
    · rename_i hmethod
      exact informed_onSubmitAsync h (hsubmit hmethod)
    · exact h.same ((keepsContext_send platform _ rfl).after s).1
  cases hrun : (onRequestAsync platform settings world request).run s with
  | ok _ t =>
    rw [after_ok hrun] at hafter
    exact hafter
  | error e t =>
    rw [after_error hrun] at hafter
    cases e with
    | jsonReader =>
      dsimp only
      split
      · exact hafter.congr (sameDifficulty_refl _) rfl
      · exact hafter
    | _ => exact hafter

/-! ## Runs -/

/-- What happens to a client, one thing after another. -/
inductive Event (Id : Type) where
  | request (world : World) (request : Request Id)
  | newJob (world : World) (jobParams : Option JobParams)
  /-- The connection is closed. -/
  | close

/-- An exception in a broadcast is logged by `ForEachClient`. -/
def step (s : Session Id) : Event Id → Option (Session Id)
  | .request world request => some (onReceive platform settings world request s)
  | .newJob world jobParams => some (after (onNewJobAsync platform settings world jobParams) s)
  | .close => some { s with isAlive := false }

/-- Requests that leave the client with a target it knows. -/
def TargetKept (s : Session Id) : Event Id → Prop
  | .request world request =>
    (settings.banning.any PoolShareBasedBanningConfig.enabled && s.banned) = false →
      (request.method = some (ascii "mining.authorize") → AuthorizeTold platform world request s) ∧
        (request.method = some (ascii "mining.submit") → SubmitTold platform world request s)
  | .newJob _ _ | .close => True

theorem informed_step (s : Session Id) (e : Event Id) (s' : Session Id) (h : Informed s)
    (hkept : TargetKept platform settings s e) (hstep : step platform settings s e = some s') :
    Informed s' := by
  cases e with
  | request world request =>
    obtain rfl := Option.some.inj hstep
    exact informed_onReceive platform settings h hkept
  | newJob world jobParams =>
    obtain rfl := Option.some.inj hstep
    exact informed_onNewJobAsync h jobParams
  | close =>
    obtain rfl := Option.some.inj hstep
    exact h.congr (sameDifficulty_refl _) rfl

theorem informed_init {s : Session Id} {difficulty : Double} {varDiff : Option VarDiffConfig}
    {now : DateTime} (h : s.context = .init difficulty varDiff now) : Informed s := by
  refine ⟨by rw [h]; rfl, fun hsent => ?_⟩
  rw [h] at hsent
  exact nomatch hsent

/-- **A client knows the target it is judged by**, in every run whose requests leave it with a
target it knows. -/
theorem told_of_run {s s' : Session Id} {difficulty : Double} {varDiff : Option VarDiffConfig}
    {now : DateTime} (hinit : s.context = .init difficulty varDiff now) (es : List (Event Id))
    (hkept : Along (step platform settings) (TargetKept platform settings) s es)
    (hrun : run (step platform settings) s es = some s') : Told s' :=
  (run_invariant (informed_step platform settings) (informed_init hinit) hkept hrun).told

/-- A subscription and authorizations with these passwords. -/
def sampleRequests (passwords : List String) : List (Event ℕ) :=
  .request sampleWorld (sampleRpcRequest "mining.subscribe" ["miner", "1"]) ::
    passwords.map fun password =>
      .request sampleWorld (sampleRpcRequest "mining.authorize" ["a0", password])

/-- A password with a difficulty, before the first work is sent. -/
theorem told_of_run_sample :
    ∃ s', run (step samplePlatform sampleSettings) sampleSession (sampleRequests ["d=8"]) =
      some s' ∧ s'.context.isInitialWorkSent = true ∧ Told s' := by
  refine ⟨_, rfl, by decide +kernel, told_of_run samplePlatform sampleSettings
    (rfl : sampleSession.context = .init (.fin 4) none 0) (sampleRequests ["d=8"]) ?_ rfl⟩
  refine ⟨fun _ => ⟨fun h => absurd h (by decide), fun h => absurd h (by decide)⟩, fun s₁ h₁ =>
    ⟨fun _ => ⟨fun _ => ?_, fun h => absurd h (by decide)⟩, fun _ _ => trivial⟩⟩
  obtain rfl := Option.some.inj h₁
  intro id authorize _ hread _
  have hparams : authorizeRequest samplePlatform
      (sampleRpcRequest "mining.authorize" ["a0", "d=8"]).params =
        .ok ⟨some (ascii "a0"), none, [ascii "d=8"], 0⟩ := by decide +kernel
  obtain rfl := Except.ok.inj (hparams.symm.trans hread)
  rw [if_neg (by decide +kernel)]
  intro _ _
  exact sendable_of_isSome (by decide +kernel) (fun _ => rfl) (by decide +kernel)

/-- A second authorization with another difficulty leaves the client with the target of the
first. -/
theorem not_told : ∃ (platform : Platform ℕ) (settings : Settings) (s s' : Session ℕ)
    (difficulty : Double) (varDiff : Option VarDiffConfig) (now : DateTime) (es : List (Event ℕ)),
    s.context = .init difficulty varDiff now ∧ run (step platform settings) s es = some s' ∧
      ¬ Told s' :=
  ⟨samplePlatform, sampleSettings, sampleSession, _, .fin 4, none, 0,
    sampleRequests ["x", "d=8"], rfl, rfl, by decide +kernel⟩

end AionPool.Aion.Pool
