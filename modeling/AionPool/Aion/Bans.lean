import AionPool.Aion.Targets

/-!
# Bans for shares that are rejected

`OnSubmitAsync` counts what it accepts and rejects, and `ConsiderBan` looks at the counts at every
rejection. A rejection inside `SubmitShareAsync` passes two `catch` blocks, which both count it and
both call `ConsiderBan`; one before it passes the outer block only.

* `Counts` is what is to be counted: the submissions since the last reset, as natural numbers, with
  what a rejection leads to (`Counts.verdict`).
* `banDecision_eq`: what `ConsiderBan` makes of counters that agree with the counts, where the two
  agree. The doubles it compares are told apart as the fractions are, unless both are one double.
* `accounted_step`: one submission, by what becomes of it.
* **`accounted_of_run`**: every submission of a run is counted once and banned for by the counts, if
  none is rejected inside `SubmitShareAsync`, what is sent fits and a ban can be made.

About `AionPool.cs:152-247` and `PoolBase.cs:332-361`.
-/

namespace AionPool.Aion.Pool

open AionPool.Extensions AionPool.Lib.Effects AionPool.Lib.Run
open AionPool.Aion.UpdateJob (JobParams)
open AionPool.Lib.Binary64 (Double nearest nearest_mono nearest_nonneg nearest_of_grid)

/-! ## The counts -/

/-- The submissions of a client since the last reset. -/
structure Counts where
  accepted : ℕ
  rejected : ℕ
  deriving DecidableEq

namespace Counts

def total (n : Counts) : ℕ := n.accepted + n.rejected

def accept (n : Counts) : Counts := { n with accepted := n.accepted + 1 }

def reject (n : Counts) : Counts := { n with rejected := n.rejected + 1 }

/-- The fraction that was rejected is smaller than so many percent. -/
def below (n : Counts) : Double → Bool
  | .nan => false
  | .inf negative => !negative
  | .fin percent => decide ((n.rejected : ℚ) / n.total < percent / 100)

end Counts

/-- Rejections are banned for: the pool bans, and no setting of the cluster is against it. -/
def bansRejections (settings : Settings) : Bool :=
  settings.banning.any PoolShareBasedBanningConfig.enabled &&
    settings.clusterBanning.all fun config => config.banOnInvalidShares ≠ some false

namespace Counts

/-- What a rejection leads to; it has been counted. -/
def verdict (settings : Settings) (n : Counts) : BanDecision :=
  match settings.banning with
  | none => .keep
  | some config =>
    if (n.total : ℤ) ≤ config.checkThreshold.toInt then .keep
    else if n.below config.invalidPercent then .reset
    else if bansRejections settings then .ban
    else .keep

/-- The counts, when they are reset. -/
def settle (n : Counts) : BanDecision → Counts
  | .reset => ⟨0, 0⟩
  | .keep | .ban => n

/-- The fraction that was rejected, as a double. -/
def ratio (n : Counts) : Double := Double.div (.fin n.rejected) (.fin n.total)

/-- A fraction that is smaller is not rounded to the double of the percentage. -/
def Apart (n : Counts) (percent : Double) : Prop :=
  n.below percent = true → n.ratio ≠ percent.div (.fin 100)

instance (n : Counts) (percent : Double) : Decidable (n.Apart percent) :=
  inferInstanceAs (Decidable (_ → _))

theorem div_total_le_one (n : Counts) : (n.rejected : ℚ) / n.total ≤ 1 := by
  refine div_le_one_of_le₀ ?_ (Nat.cast_nonneg _)
  exact_mod_cast Nat.le_add_left _ _

/-- A fraction is a double that is at most one. -/
theorem ratio_eq {n : Counts} (h : 0 < n.rejected) :
    n.ratio = .fin (nearest ((n.rejected : ℚ) / n.total)) ∧
      nearest ((n.rejected : ℚ) / n.total) ≤ 1 := by
  have htotal : (n.total : ℚ) ≠ 0 := by
    unfold total
    exact_mod_cast (by omega : n.accepted + n.rejected ≠ 0)
  have hle : nearest ((n.rejected : ℚ) / n.total) ≤ 1 := by
    have hone := nearest_of_grid (q := 1) 1 0 (by simp) (by norm_num) (by norm_num)
    have hmono := nearest_mono n.div_total_le_one
    rwa [hone] at hmono
  refine ⟨?_, hle⟩
  unfold ratio
  rw [Double.div_fin htotal]
  refine Double.ofRat_of_nearest rfl ?_
  rw [abs_of_nonneg (nearest_nonneg (by positivity))]
  exact hle.trans_lt (one_lt_pow₀ (by norm_num) (by norm_num))

/-- **The doubles are in the order of the fractions** where they are apart. -/
theorem lt_ratio_eq {n : Counts} {percent : Double} (h : 0 < n.rejected)
    (hapart : n.Apart percent) : n.ratio.lt (percent.div (.fin 100)) = n.below percent := by
  obtain ⟨hratio, hone⟩ := ratio_eq h
  unfold Apart at hapart
  rw [hratio] at hapart ⊢
  cases percent with
  | nan => rfl
  | inf negative => cases negative <;> rfl
  | fin q =>
    rw [Double.div_fin (by norm_num)] at hapart ⊢
    unfold below at hapart ⊢
    -- the order of the roundings is that of the numbers
    have hlt : nearest ((n.rejected : ℚ) / n.total) < nearest (q / 100) →
        (n.rejected : ℚ) / n.total < q / 100 := fun hnear =>
      lt_of_not_ge fun hge => absurd (nearest_mono hge) (not_le.mpr hnear)
    unfold Double.ofRat at hapart ⊢
    by_cases hrange : |nearest (q / 100)| < 2 ^ 1024
    · rw [if_pos hrange] at hapart ⊢
      refine decide_eq_decide.mpr ⟨hlt, fun hsmall => ?_⟩
      have hne := hapart (decide_eq_true hsmall)
      exact (nearest_mono hsmall.le).lt_of_ne fun heq => hne (congrArg Double.fin heq)
    · rw [if_neg hrange]
      change (!decide (q / 100 < 0)) = decide _
      rw [← decide_not]
      refine decide_eq_decide.mpr ⟨fun hpos => hlt ?_, fun hsmall hneg => ?_⟩
      · have hnn := nearest_nonneg (not_lt.mp hpos)
        rw [abs_of_nonneg hnn, not_lt] at hrange
        exact hone.trans_lt ((one_lt_pow₀ (by norm_num) (by norm_num)).trans_le hrange)
      · have hnn : (0 : ℚ) ≤ n.rejected / n.total := by positivity
        exact absurd (hnn.trans_lt (hsmall.trans hneg)) (lt_irrefl 0)

end Counts

/-! ## What `ConsiderBan` makes of them -/

/-- The counters of a client are the counts. -/
def Agrees (c : WorkerContext) (n : Counts) : Prop :=
  c.validShares.toInt = n.accepted ∧ c.invalidShares.toInt = n.rejected

instance (c : WorkerContext) (n : Counts) : Decidable (Agrees c n) :=
  inferInstanceAs (Decidable (_ ∧ _))

/-- The counts of a rejection that `ConsiderBan` judges by them: their sum is a 32-bit number, the
fraction is told from the percentage, and where they lead to a ban the cluster has a section on bans
and the time of a ban is positive. -/
def Judged (settings : Settings) (n : Counts) : Prop :=
  settings.banning.all fun config =>
    n.total < 2 ^ 31 ∧ n.Apart config.invalidPercent ∧
      (n.verdict settings = .ban → settings.clusterBanning.isSome = true ∧ 0 < config.time)

instance (settings : Settings) (n : Counts) : Decidable (Judged settings n) :=
  inferInstanceAs (Decidable (_ = true))

section Counters

variable {settings : Settings} {c : WorkerContext} {n : Counts}

theorem toInt_bmod {k : ℕ} (h : k < 2 ^ 31) : (k : ℤ).bmod (2 ^ 32) = k :=
  Int.bmod_eq_of_le (by omega) (by omega)

theorem toInt_succ {x : Int32} {k : ℕ} (hx : x.toInt = k) (h : k + 1 < 2 ^ 31) :
    (x + 1).toInt = ((k + 1 : ℕ) : ℤ) := by
  rw [Int32.toInt_add, hx, Int32.toInt_one]
  exact toInt_bmod h

theorem Agrees.accept (h : Agrees c n) (hfits : n.accept.accepted < 2 ^ 31) :
    Agrees { c with validShares := c.validShares + 1 } n.accept :=
  ⟨toInt_succ h.1 hfits, h.2⟩

theorem Agrees.reject (h : Agrees c n) (hfits : n.reject.rejected < 2 ^ 31) :
    Agrees c.countInvalid n.reject :=
  ⟨h.1, toInt_succ h.2 hfits⟩

theorem Agrees.settle (h : Agrees c n) (decision : BanDecision) :
    Agrees (decision.apply c) (n.settle decision) := by
  cases decision with
  | reset => exact ⟨rfl, rfl⟩
  | keep => exact h
  | ban => exact h

theorem Agrees.total (h : Agrees c n) (hfits : n.total < 2 ^ 31) :
    (c.validShares + c.invalidShares).toInt = n.total := by
  rw [Int32.toInt_add, h.1, h.2]
  exact toInt_bmod hfits

/-- The code bans where the cluster has a section on bans. -/
theorem bansInvalidShares_eq (settings : Settings) :
    bansInvalidShares settings = (bansRejections settings && settings.clusterBanning.isSome) := by
  unfold bansInvalidShares bansRejections
  cases settings.clusterBanning with
  | none => simp
  | some config => simp

/-- **The decision is the one of the counts**; where there is none, nothing is done. -/
theorem banDecision_eq (h : Agrees c n) (hpos : 0 < n.rejected) (hjudged : Judged settings n) :
    (banDecision settings c).toOption.getD .keep = n.verdict settings := by
  unfold Judged at hjudged
  unfold banDecision
  cases hbanning : settings.banning with
  | none =>
    unfold Counts.verdict
    rw [hbanning]
    rfl
  | some config =>
    rw [hbanning] at hjudged
    obtain ⟨hfits, hapart, hban⟩ := of_decide_eq_true hjudged
    have htotal := h.total hfits
    have hratio : ratioBad c = n.ratio := by
      unfold ratioBad Counts.ratio
      rw [htotal, h.2, Int.cast_natCast, Int.cast_natCast]
    unfold Counts.verdict at hban ⊢
    rw [hbanning] at hban ⊢
    dsimp only at hban ⊢
    rw [hratio, Counts.lt_ratio_eq hpos hapart, bansInvalidShares_eq]
    have hthreshold : c.validShares + c.invalidShares ≤ config.checkThreshold ↔
        (n.total : ℤ) ≤ config.checkThreshold.toInt := by
      rw [Int32.le_iff_toInt_le, htotal]
    by_cases hle : (n.total : ℤ) ≤ config.checkThreshold.toInt
    · rw [if_pos (hthreshold.mpr hle), if_pos hle]
      rfl
    rw [if_neg hle] at hban
    rw [if_neg (hthreshold.not.mpr hle), if_neg hle]
    by_cases hbelow : n.below config.invalidPercent = true
    · rw [if_pos hbelow, if_pos hbelow]
      rfl
    rw [if_neg hbelow] at hban
    rw [if_neg hbelow, if_neg hbelow]
    cases hbans : bansRejections settings with
    | false => rfl
    | true =>
      obtain ⟨hsome, htime⟩ := hban (by rw [if_pos hbans])
      rw [hsome, if_neg (by simp), if_neg (Int32.not_le.mpr htime)]
      rfl

end Counters

/-! ## Programs that count nothing -/

variable {Id : Type}

/-- The message is an `InvalidShare`. -/
def BusMessage.isInvalidShare : BusMessage → Bool
  | .invalidShare _ _ _ _ => true
  | .minerInfo _ _ _ | .clientShare _ => false

/-- The `InvalidShare` messages that were published. -/
def published (s : Session Id) : ℕ := s.bus.countP BusMessage.isInvalidShare

/-- A session in which no share was counted. -/
structure SameCounts (s s' : Session Id) : Prop where
  validShares : s'.context.validShares = s.context.validShares
  invalidShares : s'.context.invalidShares = s.context.invalidShares
  published : published s' = published s

instance : IsPreorder (Session Id) SameCounts where
  refl _ := ⟨rfl, rfl, rfl⟩
  trans _ _ _ h h' := {
    validShares := h'.validShares.trans h.validShares
    invalidShares := h'.invalidShares.trans h.invalidShares
    published := h'.published.trans h.published }

theorem published_append (s : Session Id) (message : BusMessage) :
    published { s with bus := s.bus ++ [message] } =
      published s + if message.isInvalidShare then 1 else 0 := by
  unfold published
  rw [List.countP_append, List.countP_singleton]

variable {platform : Platform Id} {settings : Settings} {world : World}

theorem keepsCounts_mapContext {f : WorkerContext → WorkerContext}
    (h : ∀ c, (f c).validShares = c.validShares ∧ (f c).invalidShares = c.invalidShares) :
    Keeps SameCounts NotStratum (modify fun s => s.mapContext f : Handler Id Unit) :=
  keeps_modify fun s => ⟨(h s.context).1, (h s.context).2, rfl⟩

theorem keepsCounts_send (message : Message Id) :
    Keeps SameCounts NotStratum (send platform message) :=
  keeps_send (fun _ => ⟨rfl, rfl, rfl⟩) fun _ _ => by simp

theorem keepsCounts_diffToTarget (diff : Double) :
    Keeps SameCounts NotStratum (MonadExcept.ofExcept (diffToTarget diff) : Handler Id Text) :=
  keeps_ofExcept fun _ => notStratum_diffToTarget

theorem keepsCounts_applyPendingDifficulty :
    Keeps SameCounts NotStratum
      (modify fun s => s.mapContext WorkerContext.applyPendingDifficulty : Handler Id Unit) := by
  refine keepsCounts_mapContext fun c => ?_
  unfold WorkerContext.applyPendingDifficulty
  split
  · exact ⟨rfl, rfl⟩
  · exact ⟨rfl, rfl⟩

theorem keepsCounts_ensureInitialWorkSent :
    Keeps SameCounts NotStratum (ensureInitialWorkSent platform) :=
  keeps_ensureInitialWorkSent (fun _ => keepsCounts_send _) (fun _ => keepsCounts_send _)
    keepsCounts_diffToTarget (keepsCounts_mapContext fun _ => ⟨rfl, rfl⟩)

theorem keepsCounts_updateVarDiffAsync :
    Keeps SameCounts NotStratum (updateVarDiffAsync platform world) :=
  keeps_updateVarDiffAsync (fun _ => keepsCounts_send _) (fun _ => keepsCounts_send _) world
    (fun _ => keepsCounts_mapContext fun _ => ⟨rfl, rfl⟩) keepsCounts_applyPendingDifficulty
    keepsCounts_diffToTarget

theorem keepsCounts_onNewJobAsync (jobParams : Option JobParams) :
    Keeps SameCounts NotStratum (onNewJobAsync platform settings world jobParams) :=
  keeps_onNewJobAsync settings world jobParams (fun _ => ⟨rfl, rfl, rfl⟩)
    (fun _ => ⟨rfl, rfl, rfl⟩) keepsCounts_applyPendingDifficulty (fun _ => keepsCounts_send _)
    keepsCounts_diffToTarget

/-- What may throw anything. -/
theorem keeps_any {α : Type} {R : Session Id → Session Id → Prop} {x : Handler Id α}
    (h : Keeps R NotStratum x) : Keeps R Any x := h.mono (fun _ _ => id) fun _ _ => trivial

theorem keepsCounts_onSubscribeAsync (request : Request Id) :
    Keeps SameCounts Any (onSubscribeAsync platform request) :=
  keeps_onSubscribeAsync request (fun _ _ _ => ⟨rfl, rfl, rfl⟩)
    (fun _ _ _ => keeps_any (keepsCounts_send _)) (fun _ => ⟨rfl, rfl, rfl⟩)
    (fun _ _ => ⟨rfl, rfl, rfl⟩)

theorem sameCounts_applyStaticDiff (s : Session Id) (diff : Option Double) :
    SameCounts s (s.mapContext fun c => c.applyStaticDiff diff) := by
  cases diff with
  | none => exact ⟨rfl, rfl, rfl⟩
  | some diff => exact ⟨rfl, rfl, rfl⟩

theorem keepsCounts_onAuthorizeAsync (request : Request Id) :
    Keeps SameCounts Any (onAuthorizeAsync platform settings world request) :=
  keeps_onAuthorizeAsync request (fun _ _ => ⟨rfl, rfl, rfl⟩) (fun _ _ => ⟨rfl, rfl, rfl⟩)
    (fun _ _ => keeps_any (keepsCounts_send _))
    (fun s authorize =>
      sameCounts_applyStaticDiff s (staticDiff platform authorize.passParts s.context))
    (fun _ _ => ⟨rfl, rfl, rfl⟩) (fun s _ => ⟨rfl, rfl, published_append s _⟩)
    (keeps_any keepsCounts_ensureInitialWorkSent)

/-! ## Submissions -/

/-- What becomes of a submission: it is accepted, refused before `SubmitShareAsync` or rejected by
it, or neither, when it is too old or ends with another exception. -/
inductive Outcome where
  | accepted
  | refused (code : StratumError) (message : String)
  | rejected
  | ignored

def Outcome.isRejection : Outcome → Bool
  | .refused _ _ | .rejected => true
  | .accepted | .ignored => false

/-- The counts behind a submission. -/
def Counts.next (settings : Settings) (n : Counts) : Outcome → Counts
  | .accepted => n.accept
  | .refused _ _ | .rejected => n.reject.settle (n.reject.verdict settings)
  | .ignored => n

variable (platform : Platform Id) (settings : Settings) (world : World)

/-- What becomes of the submission `request`. -/
def outcome (request : Request Id) (s : Session Id) : Outcome :=
  match requestId .minusOne request with
  | .error _ => .refused .minusOne "missing request id"
  | .ok _ =>
    if isStale world request then .ignored
    else
      match submitRequest s.context request.params with
      | .error (.stratum code message) => .refused code message
      | .error _ => .ignored
      | .ok values =>
        let submitted := s.manager.submitShareAsync world.toEnvironment (s.worker platform) values
        match submitted.result with
        | .ok _ => .accepted
        | .error (.stratum _ _) => .rejected
        | .error _ => .ignored

/-- The message can be sent: it fits, or is not sent at all. -/
def Fits (s : Session Id) (message : Message Id) : Prop :=
  s.isAlive = true → platform.fits message = true

instance (s : Session Id) (message : Message Id) : Decidable (Fits platform s message) :=
  inferInstanceAs (Decidable (_ → _))

/-- The first work can be sent, to a client that is still to be sent it. -/
def FirstWorkFits (s : Session Id) : Prop :=
  s.context.isSubscribed = true → s.context.isAuthorized = true →
    s.context.isInitialWorkSent = false →
    (diffToTarget s.context.difficulty).toOption.any fun target =>
      Fits platform s (.miningNotify s.currentJobParams) ∧ Fits platform s (.setTarget target)

instance (s : Session Id) : Decidable (FirstWorkFits platform s) :=
  inferInstanceAs (Decidable (_ → _ → _ → _))

variable {platform settings world}

theorem run_send_of_fits {s : Session Id} {message : Message Id} (h : Fits platform s message) :
    ∃ sent, (send platform message).run s = .ok () { s with sent := sent } := by
  rcases run_send_cases platform message s with ⟨hrun, -⟩ | ⟨-, halive, hfits⟩ | ⟨hrun, -⟩
  · exact ⟨_, hrun⟩
  · exact absurd ((h halive).symm.trans hfits) (by simp)
  · exact ⟨_, hrun⟩

theorem run_ensureInitialWorkSent_of_fits {s : Session Id} (h : FirstWorkFits platform s) :
    ∃ t, (ensureInitialWorkSent platform).run s = .ok () t := by
  unfold ensureInitialWorkSent
  by_cases hclaim : Claims s
  · have htarget := h hclaim.1 hclaim.2.1 hclaim.2.2
    cases hdiff : diffToTarget s.context.difficulty with
    | error e =>
      rw [hdiff] at htarget
      exact nomatch htarget
    | ok target =>
      rw [hdiff] at htarget
      obtain ⟨hnotify, hset⟩ := of_decide_eq_true htarget
      rw [run_bind_ok ((run_claimInitialWork hclaim).trans
        (run_bind_ok (run_ofExcept_ok hdiff _)))]
      obtain ⟨sent, hsent⟩ := run_send_of_fits
        (s := s.mapContext fun c => { c with isInitialWorkSent := true }) hnotify
      obtain ⟨sent', hsent'⟩ := run_send_of_fits
        (s := { s.mapContext fun c => { c with isInitialWorkSent := true } with sent := sent }) hset
      exact ⟨_, (run_bind_ok hsent).trans hsent'⟩
  · rw [run_bind_ok (run_claimInitialWork_of_not hclaim)]
    exact ⟨_, rfl⟩

/-- A share that is accepted is counted, if what is sent fits. -/
theorem ends_acceptShare (world : World) {id : Id} {s : Session Id}
    (hreply : Fits platform s (.response id (.bool true))) (hwork : FirstWorkFits platform s)
    (share : Mining.Share Double) :
    ∃ u, Ends (acceptShare platform world id share) s u ∧
      u.context.validShares = s.context.validShares + 1 ∧
      u.context.invalidShares = s.context.invalidShares ∧ published u = published s := by
  obtain ⟨sent, hsent⟩ := run_send_of_fits hreply
  have hbus : SameCounts s { s with sent := sent, bus := s.bus ++ [.clientShare share] } :=
    ⟨rfl, rfl, published_append _ _⟩
  obtain ⟨t, ht⟩ := run_ensureInitialWorkSent_of_fits
    (s := { s with sent := sent, bus := s.bus ++ [.clientShare share] }) hwork
  have hsame := trans_of SameCounts hbus (keepsCounts_ensureInitialWorkSent.of_ok ht)
  have hupdate : Keeps SameCounts NotStratum (updateVarDiffAsync platform world) :=
    keepsCounts_updateVarDiffAsync
  obtain ⟨u, hu, hvarDiff⟩ := ends_of_keeps hupdate
    (t.mapContext fun c => { c with validShares := c.validShares + 1 })
  refine ⟨u, ?_, ?_, ?_, ?_⟩
  · refine ends_bind hsent (ends_bind (run_modify _ _) (ends_bind ht ?_))
    exact ends_bind (run_modify _ _) hu
  · rw [hvarDiff.validShares, ← hsame.validShares]
    rfl
  · rw [hvarDiff.invalidShares, ← hsame.invalidShares]
    rfl
  · rw [hvarDiff.published, ← hsame.published]
    rfl

/-- The session, with a rejection counted that leads to `decision`. -/
def Session.charge (s : Session Id) (decision : BanDecision) : Session Id :=
  let s := s.mapContext fun c => decision.apply c.countInvalid
  if decision = .ban then s.ban.disconnectClient else s

/-- What charging a session changes of it. -/
structure Charged (decision : BanDecision) (s s' : Session Id) : Prop where
  context : s'.context = decision.apply s.context.countInvalid
  registered : s'.registered = (s.registered && decision ≠ .ban)
  banned : s'.banned = (s.banned || (decision = .ban && !s.isLoopback))

theorem charged_charge (s : Session Id) (decision : BanDecision) :
    Charged decision s (s.charge decision) := by
  cases decision with
  | keep => exact ⟨rfl, (Bool.and_true _).symm, (Bool.or_false _).symm⟩
  | reset => exact ⟨rfl, (Bool.and_true _).symm, (Bool.or_false _).symm⟩
  | ban => exact ⟨rfl, (Bool.and_false _).symm, rfl⟩

theorem published_charge (s : Session Id) (decision : BanDecision) :
    published (s.charge decision) = published s := by
  cases decision with
  | _ => rfl

/-- A rejection is counted, and its decision carried out, if there is one. -/
theorem run_rejectShare (settings : Settings) (s : Session Id) :
    (rejectShare settings).run s =
      match banDecision settings s.context.countInvalid with
      | .ok decision => .ok () (s.charge decision)
      | .error e => .error e (s.charge .keep) := by
  unfold rejectShare considerBan
  rw [run_bind_ok (run_modify _ s), run_bind_ok (run_get _), Session.mapContext_context]
  cases hdecision : banDecision settings s.context.countInvalid with
  | error e =>
    rw [run_bind_error (run_ofExcept_error rfl _)]
    rfl
  | ok decision =>
    rw [run_bind_ok (run_ofExcept_ok rfl _), run_bind_ok (run_modify _ _)]
    unfold Session.charge
    dsimp only
    split
    · rfl
    · rfl

theorem banDecision_ne_jsonReader (settings : Settings) (c : WorkerContext) :
    banDecision settings c ≠ .error .jsonReader := by
  unfold banDecision
  cases settings.banning with
  | none => exact nofun
  | some config =>
    dsimp only
    split_ifs <;> exact nofun

/-- A submission that is refused is charged, and an exception thrown on. -/
theorem run_rejectSubmit (settings : Settings) (world : World) {request : Request Id}
    {code : StratumError} {message : String} {s : Session Id}
    (hreply : Fits platform s (.error request.id code message (some false))) :
    ∃ e u, (rejectSubmit platform settings world request code message).run s = .error e u ∧
      e ≠ .jsonReader ∧ published u = published s + 1 ∧
      Charged ((banDecision settings s.context.countInvalid).toOption.getD .keep) s u := by
  obtain ⟨sent, hsent⟩ := run_send_of_fits hreply
  obtain ⟨t, hbus, hpublished, hcharged⟩ : ∃ t : Session Id,
      (modify fun s => { s with
        bus := s.bus ++ [.invalidShare settings.poolId s.context.minerName s.context.workerName
          world.now] } : Handler Id Unit).run { s with sent := sent } = .ok () t ∧
      published t = published s + 1 ∧ ∀ decision, Charged decision s (t.charge decision) :=
    ⟨_, rfl, published_append s _, fun decision => ⟨(charged_charge _ decision).context,
      (charged_charge _ decision).registered, (charged_charge _ decision).banned⟩⟩
  have hcontext : t.context = s.context := by
    obtain ⟨⟩ := hbus
    rfl
  have hreject := run_rejectShare settings t
  rw [hcontext] at hreject
  unfold rejectSubmit
  rw [run_bind_ok hsent, run_bind_ok hbus]
  cases hdecision : banDecision settings s.context.countInvalid with
  | error e =>
    rw [hdecision] at hreject
    refine ⟨e, t.charge .keep, run_bind_error hreject, ?_, ?_, hcharged .keep⟩
    · rintro rfl
      exact banDecision_ne_jsonReader settings _ hdecision
    · rw [published_charge, hpublished]
  | ok decision =>
    rw [hdecision] at hreject
    refine ⟨_, t.charge decision, run_bind_ok hreject, nofun, ?_, hcharged decision⟩
    rw [published_charge, hpublished]

/-- What `OnReceive` leaves of a submission that is refused. -/
theorem charged_onReceive {request : Request Id} {code : StratumError} {message : String}
    {s : Session Id}
    (hbanned : (settings.banning.any PoolShareBasedBanningConfig.enabled && s.banned) = false)
    (hmethod : request.method = some (ascii "mining.submit"))
    (hrefused : (onSubmitAsync platform settings world request).run s =
      (rejectSubmit platform settings world request code message).run s)
    (hreply : Fits platform s (.error request.id code message (some false))) :
    published (onReceive platform settings world request s) = published s + 1 ∧
      Charged ((banDecision settings s.context.countInvalid).toOption.getD .keep) s
        (onReceive platform settings world request s) := by
  obtain ⟨e, u, hrun, hjson, hpublished, hcharged⟩ :=
    run_rejectSubmit settings world hreply
  have hdispatch : (dispatch platform settings world request).run s = .error e u := by
    unfold dispatch
    rw [hmethod, if_neg (by decide), if_neg (by decide), if_pos rfl, hrefused, hrun]
  -- the reply of `OnRequestAsync` changes nothing that is charged
  obtain ⟨sent, hrequest⟩ : ∃ sent,
      (onRequestAsync platform settings world request).run s = .ok () { u with sent := sent } ∨
        ∃ e', e' ≠ .jsonReader ∧
          (onRequestAsync platform settings world request).run s =
            .error e' { u with sent := sent } := by
    unfold onRequestAsync
    cases e with
    | stratum code message =>
      rw [run_catchStratum_stratum _ hdispatch]
      rcases run_send_cases platform (.error request.id code message (some false)) u with
        ⟨hsend, -⟩ | ⟨hsend, -⟩ | ⟨hsend, -⟩
      · exact ⟨_, Or.inl hsend⟩
      · exact ⟨u.sent, Or.inr ⟨.notSupported, nofun, hsend⟩⟩
      · exact ⟨u.sent, Or.inl hsend⟩
    | jsonReader => exact absurd rfl hjson
    | _ => exact ⟨u.sent, Or.inr ⟨_, hjson, run_catchStratum_notStratum _ nofun hdispatch⟩⟩
  have hreceived : onReceive platform settings world request s = { u with sent := sent } := by
    unfold onReceive
    rw [if_neg (by simp [hbanned])]
    rcases hrequest with hok | ⟨e', hjson', herror⟩
    · rw [hok]
    · rw [herror]
      cases e' with
      | jsonReader => exact absurd rfl hjson'
      | _ => rfl
  rw [hreceived]
  exact ⟨hpublished, hcharged.context, hcharged.registered, hcharged.banned⟩

/-! ## One submission -/

/-- A session in which an accepted share was counted. -/
structure Accepted (s s' : Session Id) : Prop where
  validShares : s'.context.validShares = s.context.validShares + 1
  invalidShares : s'.context.invalidShares = s.context.invalidShares
  published : published s' = published s

/-- **How `OnSubmitAsync` ends**, by what becomes of the submission. -/
theorem onSubmitAsync_cases (platform : Platform Id) (settings : Settings) (world : World)
    (request : Request Id) (s : Session Id) :
    match outcome platform world request s with
    | .accepted => FirstWorkFits platform s →
        (∀ id, request.id = some id → Fits platform s (.response id (.bool true))) →
        ∃ u, Ends (onSubmitAsync platform settings world request) s u ∧ Accepted s u
    | .refused code message => (onSubmitAsync platform settings world request).run s =
        (rejectSubmit platform settings world request code message).run s
    | .rejected => True
    | .ignored =>
        ∃ u, Ends (onSubmitAsync platform settings world request) s u ∧ SameCounts s u := by
  unfold outcome
  cases hid : request.id with
  | none =>
    have hrequest : requestId .minusOne request =
        .error (.stratum .minusOne "missing request id") := by
      unfold requestId
      rw [hid]
      rfl
    rw [hrequest]
    exact run_catchStratum_stratum _ (run_bind_error (run_ofExcept_error hrequest s))
  | some id =>
    have hrequest := requestId_of_some hid .minusOne
    rw [hrequest]
    dsimp only
    cases hstale : isStale world request with
    | true =>
      rw [if_pos rfl]
      refine ⟨s, ends_catchStratum (Or.inl ⟨(), ?_⟩), refl_of SameCounts s⟩
      rw [run_bind_ok (run_ofExcept_ok hrequest s), if_pos hstale]
      rfl
    | false =>
      rw [if_neg Bool.false_ne_true]
      have hrun : (onSubmitAsync platform settings world request).run s = _ :=
        run_onSubmitAsync hid hstale s
      cases hsubmit : submitRequest s.context request.params with
      | error e =>
        have herror := run_submit_error platform settings world id hsubmit
        cases e with
        | stratum code message => exact hrun.trans (run_catchStratum_stratum _ herror)
        | _ =>
          exact ⟨s, ends_congr hrun (ends_catchStratum (Or.inr ⟨_, fun _ _ => by simp, herror⟩)),
            refl_of SameCounts s⟩
      | ok values =>
        have hprocess := run_submit_ok platform settings world id hsubmit
        have hends : ∀ u, Ends (do
              let share ← submitShare platform world values
              acceptShare platform world id share)
            (s.mapContext fun c => { c with lastActivity := world.now }) u →
            Ends (onSubmitAsync platform settings world request) s u := fun u hu =>
          ends_congr hrun (ends_catchStratum (ends_congr hprocess (ends_catchStratum hu)))
        dsimp only
        -- the session in which the share is processed, and the one it leaves
        obtain ⟨t, hsame, hfirst, hfits, hsubmitted⟩ : ∃ t : Session Id, SameCounts s t ∧
            (FirstWorkFits platform s → FirstWorkFits platform t) ∧
            (∀ message, Fits platform s message → Fits platform t message) ∧ ∀ r,
            (s.manager.submitShareAsync world.toEnvironment (s.worker platform) values).result =
              r → (submitShare platform world values).run
                (s.mapContext fun c => { c with lastActivity := world.now }) =
              (MonadExcept.ofExcept r : Handler Id (Mining.Share Double)).run t :=
          ⟨{ s.mapContext fun c => { c with lastActivity := world.now } with
              manager := (s.manager.submitShareAsync world.toEnvironment (s.worker platform)
                values).manager }, ⟨rfl, rfl, rfl⟩, fun h => h, fun _ h => h, fun r hr => by
            rw [← hr]
            rfl⟩
        cases hresult : (s.manager.submitShareAsync world.toEnvironment (s.worker platform)
            values).result with
        | ok share =>
          intro hwork hreply
          obtain ⟨u, hu, haccepted⟩ :=
            ends_acceptShare world (hfits _ (hreply id rfl)) (hfirst hwork) share
          refine ⟨u, hends u (ends_bind ((hsubmitted _ hresult).trans (run_ofExcept_ok rfl t)) hu),
            ?_, ?_, ?_⟩
          · rw [haccepted.1, hsame.validShares]
          · rw [haccepted.2.1, hsame.invalidShares]
          · rw [haccepted.2.2, hsame.published]
        | error e =>
          cases e with
          | stratum code message => trivial
          | _ =>
            have hrun := (hsubmitted _ hresult).trans (run_ofExcept_error rfl t)
            exact ⟨t, hends t (ends_bind_error (fun _ _ => by simp) hrun), hsame⟩

theorem after_of_ends {α : Type} {x : Handler Id α} {s u : Session Id} (h : Ends x s u) :
    after x s = u := by
  rcases h with ⟨a, hrun⟩ | ⟨e, -, hrun⟩
  · exact after_ok hrun
  · exact after_error hrun

/-- `OnReceive` counts nothing behind a request. -/
theorem sameCounts_onReceive (platform : Platform Id) (world : World) (request : Request Id)
    {s : Session Id}
    (hbanned : (settings.banning.any PoolShareBasedBanningConfig.enabled && s.banned) = false) :
    SameCounts (after (onRequestAsync platform settings world request) s)
      (onReceive platform settings world request s) := by
  unfold onReceive after
  rw [if_neg (by simp [hbanned])]
  cases (onRequestAsync platform settings world request).run s with
  | ok a u => exact refl_of SameCounts u
  | error e u =>
    cases e with
    | jsonReader =>
      dsimp only
      split
      · exact ⟨rfl, rfl, rfl⟩
      · exact refl_of SameCounts u
    | _ => exact refl_of SameCounts u

/-- A request that is no submission counts nothing. -/
theorem sameCounts_of_no_submission {request : Request Id} {s : Session Id}
    (h : ¬ ((settings.banning.any PoolShareBasedBanningConfig.enabled && s.banned) = false ∧
      request.method = some (ascii "mining.submit"))) :
    SameCounts s (onReceive platform settings world request s) := by
  cases hbanned : settings.banning.any PoolShareBasedBanningConfig.enabled && s.banned with
  | true =>
    unfold onReceive
    rw [if_pos hbanned]
    exact ⟨rfl, rfl, rfl⟩
  | false =>
    refine trans_of SameCounts ?_ (sameCounts_onReceive platform world request hbanned)
    refine leaves_catchStratum ?_ fun code message t ht =>
      trans_of SameCounts ht ((keepsCounts_send _).after t)
    unfold dispatch
    split
    · exact (keepsCounts_onSubscribeAsync request).after s
    · split
      · exact (keepsCounts_onAuthorizeAsync request).after s
      · rw [if_neg fun hsubmit => h ⟨hbanned, hsubmit⟩]
        exact (keepsCounts_send _).after s

/-! ## Runs -/

variable (platform settings)

/-- What becomes of an event as a submission; the requests of an address that is banned are
dropped. -/
def eventOutcome (s : Session Id) : Event Id → Outcome
  | .request world request =>
    if (settings.banning.any PoolShareBasedBanningConfig.enabled && s.banned) = false ∧
        request.method = some (ascii "mining.submit") then
      outcome platform world request s
    else .ignored
  | .newJob _ _ | .close => .ignored

/-- A step of the client, with its counts. -/
def countedStep (s : Session Id × Counts) (e : Event Id) : Option (Session Id × Counts) :=
  (step platform settings s.1 e).map fun s' =>
    (s', s.2.next settings (eventOutcome platform settings s.1 e))

/-- A submission was counted once, and a rejection published once and banned for by the counts. -/
structure Accounted (n : Counts) (outcome : Outcome) (s s' : Session Id) : Prop where
  agrees : Agrees s'.context (n.next settings outcome)
  published : published s' = published s + if outcome.isRejection then 1 else 0
  registered : outcome.isRejection = true →
    s'.registered = (s.registered && n.reject.verdict settings ≠ .ban)
  banned : outcome.isRejection = true →
    s'.banned = (s.banned || (n.reject.verdict settings = .ban && !s.isLoopback))

instance (n : Counts) (outcome : Outcome) (s s' : Session Id) :
    Decidable (Accounted settings n outcome s s') :=
  decidable_of_iff
    (Agrees s'.context (n.next settings outcome) ∧
      published s' = published s + (if outcome.isRejection then 1 else 0) ∧
      (outcome.isRejection = true →
        s'.registered = (s.registered && n.reject.verdict settings ≠ .ban)) ∧
      (outcome.isRejection = true →
        s'.banned = (s.banned || (n.reject.verdict settings = .ban && !s.isLoopback))))
    ⟨fun ⟨h₁, h₂, h₃, h₄⟩ => ⟨h₁, h₂, h₃, h₄⟩, fun ⟨h₁, h₂, h₃, h₄⟩ => ⟨h₁, h₂, h₃, h₄⟩⟩

/-- The event is accounted for. -/
def AccountedFor (s : Session Id × Counts) (e : Event Id) : Prop :=
  ∀ s' ∈ step platform settings s.1 e,
    Accounted settings s.2 (eventOutcome platform settings s.1 e) s.1 s'

instance (s : Session Id × Counts) (e : Event Id) :
    Decidable (AccountedFor platform settings s e) :=
  inferInstanceAs (Decidable (∀ s' ∈ _, _))

/-- A submission the code counts once: it is not rejected by `SubmitShareAsync`, what is sent for it
fits, the counters do not overflow, and `ConsiderBan` judges by the counts. -/
def CountedOnce (request : Request Id) (s : Session Id) (n : Counts) : Outcome → Prop
  | .accepted => n.accept.accepted < 2 ^ 31 ∧ FirstWorkFits platform s ∧
      ∀ id ∈ request.id, Fits platform s (.response id (.bool true))
  | .refused code message => n.reject.rejected < 2 ^ 31 ∧ Judged settings n.reject ∧
      Fits platform s (.error request.id code message (some false))
  | .rejected => False
  | .ignored => True

instance (request : Request Id) (s : Session Id) (n : Counts) :
    ∀ outcome, Decidable (CountedOnce platform settings request s n outcome)
  | .accepted => inferInstanceAs (Decidable (_ ∧ _ ∧ ∀ id ∈ request.id, _))
  | .refused _ _ => inferInstanceAs (Decidable (_ ∧ _ ∧ _))
  | .rejected => inferInstanceAs (Decidable False)
  | .ignored => inferInstanceAs (Decidable True)

/-- The event is no submission, or one the code counts once. -/
def SubmissionCounted (s : Session Id × Counts) (e : Event Id) : Prop :=
  match e with
  | .request _ request =>
    CountedOnce platform settings request s.1 s.2 (eventOutcome platform settings s.1 e)
  | .newJob _ _ | .close => True

instance (s : Session Id × Counts) :
    ∀ e : Event Id, Decidable (SubmissionCounted platform settings s e)
  | .request _ request => inferInstanceAs (Decidable (CountedOnce platform settings request _ _ _))
  | .newJob _ _ | .close => inferInstanceAs (Decidable True)

variable {platform settings}

theorem accounted_of_same {n : Counts} {s s' : Session Id} (h : SameCounts s s')
    (hagrees : Agrees s.context n) : Accounted settings n .ignored s s' := by
  refine ⟨⟨?_, ?_⟩, h.published, nofun, nofun⟩
  · rw [h.validShares]
    exact hagrees.1
  · rw [h.invalidShares]
    exact hagrees.2

theorem accounted_of_accepted {n : Counts} {s s' : Session Id} (h : Accepted s s')
    (hagrees : Agrees s.context n) (hfits : n.accept.accepted < 2 ^ 31) :
    Accounted settings n .accepted s s' := by
  have haccept := hagrees.accept hfits
  refine ⟨⟨?_, ?_⟩, h.published, nofun, nofun⟩
  · rw [h.validShares]
    exact haccept.1
  · rw [h.invalidShares]
    exact haccept.2

theorem accounted_of_charged {n : Counts} {s s' : Session Id} {code : StratumError}
    {message : String} (hpublished : published s' = published s + 1)
    (h : Charged ((banDecision settings s.context.countInvalid).toOption.getD .keep) s s')
    (hagrees : Agrees s.context n) (hfits : n.reject.rejected < 2 ^ 31)
    (hjudged : Judged settings n.reject) :
    Accounted settings n (.refused code message) s s' := by
  have hreject := hagrees.reject hfits
  rw [banDecision_eq hreject (Nat.succ_pos _) hjudged] at h
  refine ⟨?_, hpublished, fun _ => h.registered, fun _ => h.banned⟩
  rw [h.context]
  exact hreject.settle _

/-- The state a submission leaves behind, when no `StratumException` ends it. -/
theorem after_onRequestAsync {request : Request Id} {s u : Session Id}
    (hmethod : request.method = some (ascii "mining.submit"))
    (h : Ends (onSubmitAsync platform settings world request) s u) :
    after (onRequestAsync platform settings world request) s = u := by
  refine after_of_ends (ends_catchStratum (ends_congr ?_ h))
  unfold dispatch
  rw [hmethod, if_neg (by decide), if_neg (by decide), if_pos rfl]

/-- **One event.** -/
theorem accounted_event {s : Session Id × Counts} {e : Event Id} (hagrees : Agrees s.1.context s.2)
    (hcounted : SubmissionCounted platform settings s e) :
    AccountedFor platform settings s e := by
  obtain ⟨s, n⟩ := s
  intro s' hs'
  cases e with
  | newJob world jobParams =>
    obtain rfl := Option.some.inj hs'
    exact accounted_of_same ((keepsCounts_onNewJobAsync jobParams).after s) hagrees
  | close =>
    obtain rfl := Option.some.inj hs'
    exact accounted_of_same ⟨rfl, rfl, rfl⟩ hagrees
  | request world request =>
    obtain rfl := Option.some.inj hs'
    unfold SubmissionCounted eventOutcome at hcounted
    unfold eventOutcome
    by_cases hsubmit :
        (settings.banning.any PoolShareBasedBanningConfig.enabled && s.banned) = false ∧
          request.method = some (ascii "mining.submit")
    · obtain ⟨hbanned, hmethod⟩ := hsubmit
      have hcases := onSubmitAsync_cases platform settings world request s
      have hlast := sameCounts_onReceive platform world request hbanned
      dsimp only at hcounted ⊢
      rw [if_pos ⟨hbanned, hmethod⟩] at hcounted ⊢
      cases houtcome : outcome platform world request s with
      | accepted =>
        rw [houtcome] at hcases hcounted
        obtain ⟨hfits, hwork, hreply⟩ := hcounted
        obtain ⟨u, hu, haccepted⟩ := hcases hwork hreply
        rw [after_onRequestAsync hmethod hu] at hlast
        refine accounted_of_accepted ⟨?_, ?_, ?_⟩ hagrees hfits
        · rw [hlast.validShares, haccepted.validShares]
        · rw [hlast.invalidShares, haccepted.invalidShares]
        · rw [hlast.published, haccepted.published]
      | refused code message =>
        rw [houtcome] at hcases hcounted
        obtain ⟨hfits, hjudged, hreply⟩ := hcounted
        obtain ⟨hpublished, hcharged⟩ := charged_onReceive hbanned hmethod hcases hreply
        exact accounted_of_charged hpublished hcharged hagrees hfits hjudged
      | rejected =>
        rw [houtcome] at hcounted
        exact hcounted.elim
      | ignored =>
        rw [houtcome] at hcases
        obtain ⟨u, hu, hsame⟩ := hcases
        rw [after_onRequestAsync hmethod hu] at hlast
        exact accounted_of_same (trans_of SameCounts hsame hlast) hagrees
    · dsimp only
      rw [if_neg hsubmit]
      exact accounted_of_same (sameCounts_of_no_submission hsubmit) hagrees

/-- **Every submission of a run is accounted for**, if each is one the code counts once. -/
theorem accounted_of_run (platform : Platform Id) (settings : Settings) {s : Session Id}
    {difficulty : Double} {varDiff : Option VarDiffConfig} {now : DateTime}
    (hinit : s.context = .init difficulty varDiff now) (es : List (Event Id))
    (hcounted : Along (countedStep platform settings) (SubmissionCounted platform settings)
      (s, ⟨0, 0⟩) es) :
    Along (countedStep platform settings) (AccountedFor platform settings) (s, ⟨0, 0⟩) es := by
  refine along_of_invariant (I := fun s => Agrees s.1.context s.2)
    (fun _ _ hagrees hcounted => accounted_event hagrees hcounted) ?_ ?_ hcounted
  · intro s e s' hagrees hcounted hstep
    obtain ⟨t, ht, rfl⟩ := Option.map_eq_some_iff.mp hstep
    exact (accounted_event hagrees hcounted t ht).agrees
  · rw [hinit]
    exact ⟨rfl, rfl⟩

/-- A pool that bans as soon as half of two submissions are rejected. -/
def strictSettings (clusterBanning : Option ClusterBanningConfig) : Settings :=
  { sampleSettings with banning := some ⟨true, 1, .fin 50, 600⟩, clusterBanning := clusterBanning }

/-- A client that submits shares as soon as it is authorized. -/
def sampleSubmissions (shares : List (List String)) : List (Event ℕ) :=
  sampleRequests ["x"] ++
    shares.map fun share => .request sampleWorld (sampleRpcRequest "mining.submit" share)

/-- Two submissions without the right number of parameters, the second of which is banned for. -/
theorem accounted_of_run_malformed :
    Along (countedStep samplePlatform (strictSettings (some ⟨none, none⟩)))
        (AccountedFor samplePlatform (strictSettings (some ⟨none, none⟩))) (sampleSession, ⟨0, 0⟩)
        (sampleSubmissions [["x"], ["x"]]) ∧
      (run (step samplePlatform (strictSettings (some ⟨none, none⟩))) sampleSession
        (sampleSubmissions [["x"], ["x"]])).map (fun s => (s.registered, s.banned)) =
        some (false, true) :=
  ⟨accounted_of_run samplePlatform (strictSettings (some ⟨none, none⟩))
    (rfl : sampleSession.context = .init (.fin 4) none 0) (sampleSubmissions [["x"], ["x"]])
    (by decide +kernel), by decide +kernel⟩

/-- **Shares are counted twice, and not banned for.** A share for a job that does not exist is
counted twice and published once. Without a section on bans in the cluster's configuration the
client whose submissions are all rejected is not banned. -/
theorem not_accounted :
    (¬ Along (countedStep samplePlatform sampleSettings)
        (AccountedFor samplePlatform sampleSettings) (sampleSession, ⟨0, 0⟩)
        (sampleSubmissions [["a0", "1", "00", "00", "00"]]) ∧
      (run (step samplePlatform sampleSettings) sampleSession
        (sampleSubmissions [["a0", "1", "00", "00", "00"]])).map
          (fun s => (s.context.invalidShares, published s)) = some (2, 1)) ∧
    ¬ Along (countedStep samplePlatform (strictSettings none))
        (AccountedFor samplePlatform (strictSettings none)) (sampleSession, ⟨0, 0⟩)
        (sampleSubmissions [["x"], ["x"]]) ∧
      (run (step samplePlatform (strictSettings none)) sampleSession
        (sampleSubmissions [["x"], ["x"]])).map (fun s => (s.registered, s.banned)) =
        some (true, false) :=
  ⟨⟨by decide +kernel, by decide +kernel⟩, by decide +kernel, by decide +kernel⟩

end AionPool.Aion.Pool
