import AionPool.Lib.Run
import AionPool.Lib.Rx

/-!
# The idle retarget

`StartVarDiffIdleUpdate` arms a timer for a client; when it expires without a share of the client,
`UpdateVarDiffAsync` is meant to run with `isIdleUpdate`. `OnConnect` and every run of
`UpdateVarDiffAsync` arm one.

* `idleUpdates`: the observables that an armed timer emits. They are cold, and
  `StartVarDiffIdleUpdate` subscribes to the observable that emits them, not to them.
* `Due`: the timer expires while the client is alive, and no share of it was accepted meanwhile.
* **`served_iff_notDue`**: in every schedule, the updates that run are those that are due exactly
  if none is due. `served_of_concat`: with `Concat`, as in the other pipelines of the pool, they
  are in every schedule.

Models `PoolBase.cs:246-283`.
-/

namespace AionPool.Mining.IdleUpdate

open AionPool.Lib.Run AionPool.Lib.Rx

variable {C : Type} [DecidableEq C]

/-! ## What a timer observes -/

/-- What happens to a client. -/
inductive Event (C : Type) where
  /-- `OnConnect`. -/
  | onConnect
  /-- A `ClientShare` on the message bus. -/
  | clientShare (poolId : String) (client : C)
  /-- The interval of a timer has passed, by the order in which they were armed. -/
  | expired (timer : ℕ)
  /-- `UpdateVarDiffAsync`, after an accepted share. -/
  | updateVarDiffAsync
  /-- A static difficulty: the client has no VarDiff any more. -/
  | staticDiff
  /-- The connection is closed. -/
  | closed

/-- An event, and whether the client is alive then. -/
structure Tick (C : Type) where
  event : Event C
  isAlive : Bool

/-- `UpdateVarDiffAsync(client, isIdleUpdate)`. -/
structure UpdateVarDiff where
  isIdleUpdate : Bool
  deriving DecidableEq

/-- A share of the pool, by its client. -/
def shareOf (poolId : String) (client : C) : Event C → Option Unit
  | .clientShare shareId c => if shareId = poolId ∧ c = client then some () else none
  | _ => none

/-- The timer with this number. -/
def expires (timer : ℕ) : Event C → Bool
  | .expired n => n = timer
  | _ => false

variable (poolId : String) (client : C)

/-- `shareReceived`. -/
def shareReceived : Observable (Tick C) UpdateVarDiff Unit :=
  .fromEvent fun t => shareOf poolId client t.event

/-- The timer, while it is awaited. -/
def timeout (timer : ℕ) : Observable (Tick C) UpdateVarDiff Unit :=
  ((Observable.timer fun t => expires timer t.event).takeUntil (shareReceived poolId client)).take 1
    |>.filter Tick.isAlive

/-- What `StartVarDiffIdleUpdate` subscribes to. -/
def idleUpdates (timer : ℕ) :
    Observable (Tick C) UpdateVarDiff (Observable (Tick C) UpdateVarDiff Unit) :=
  (timeout poolId client timer).select fun _ => .fromAsync ⟨true⟩

/-- The same, with the `Concat` of the commented-out version of `StartVarDiffIdleUpdate`. -/
def idleUpdatesConcat (timer : ℕ) : Observable (Tick C) UpdateVarDiff Unit :=
  (idleUpdates poolId client timer).merge

/-- The timer expires now, the client is alive, and none of its shares was accepted. -/
def Due (timer : ℕ) (ticks : List (Tick C)) : Bool :=
  ticks.getLast?.any (fun t => expires timer t.event && t.isAlive) &&
    !ticks.dropLast.any (fun t => expires timer t.event) &&
    !ticks.any fun t => (shareOf poolId client t.event).isSome

/-! ## The schedule of a client -/

/-- A client, with what each armed timer has observed and which of them are served. -/
structure State (C : Type) where
  isAlive : Bool
  hasVarDiff : Bool
  timers : List (List (Tick C))
  /-- The timers that ran `UpdateVarDiffAsync` with `isIdleUpdate`. -/
  served : List ℕ
  /-- The timers that expired when they should have. -/
  due : List ℕ

/-- A client that has just connected. -/
def State.init (hasVarDiff : Bool) : State C where
  isAlive := true
  hasVarDiff := hasVarDiff
  timers := if hasVarDiff then [[⟨.onConnect, true⟩]] else []
  served := []
  due := []

/-- The numbers of the timers that meet `p`. -/
def numbers (p : ℕ → List (Tick C) → Bool) (timers : List (List (Tick C))) : List ℕ :=
  (List.range timers.length).filter fun i => (timers[i]?).any (p i)

/-- A timer expires once, after it was armed; a client connects once. -/
def enabled (s : State C) : Event C → Bool
  | .onConnect => false
  | .expired n => (s.timers[n]?).any fun ticks => !ticks.any fun t => expires n t.event
  | _ => true

/-- One event, when a timer is subscribed as `effects` says. -/
def step (effects : ℕ → List (Tick C) → List UpdateVarDiff) (s : State C) (e : Event C) :
    Option (State C) :=
  if enabled s e then
    let isAlive := s.isAlive && (match e with | .closed => false | _ => true)
    let hasVarDiff := s.hasVarDiff && (match e with | .staticDiff => false | _ => true)
    let tick : Tick C := ⟨e, isAlive⟩
    let timers := s.timers.map (· ++ [tick])
    let served := numbers (fun i ticks => effects i ticks = [⟨true⟩]) timers
    -- every run of `UpdateVarDiffAsync` arms a timer
    let runs := served.length + (match e with | .updateVarDiffAsync => 1 | _ => 0)
    some {
      isAlive := isAlive
      hasVarDiff := hasVarDiff
      timers := timers ++ (if hasVarDiff then List.replicate runs [tick] else [])
      served := s.served ++ served
      due := s.due ++ numbers (Due poolId client) timers }
  else none

/-- `StartVarDiffIdleUpdate`. -/
def startVarDiffIdleUpdate (timer : ℕ) (ticks : List (Tick C)) : List UpdateVarDiff :=
  (idleUpdates poolId client timer ticks).effects

/-- The same, with `Concat`. -/
def startVarDiffIdleUpdateConcat (timer : ℕ) (ticks : List (Tick C)) : List UpdateVarDiff :=
  (idleUpdatesConcat poolId client timer ticks).effects

/-! ## The pipeline -/

theorem silent_timeout (timer : ℕ) : (timeout poolId client timer).Silent :=
  (((Observable.silent_timer _).takeUntil (Observable.silent_fromEvent _)).take 1).filter _

/-- **Nothing runs**: no operator of the pipeline subscribes to what it emits. -/
theorem startVarDiffIdleUpdate_eq (timer : ℕ) (ticks : List (Tick C)) :
    startVarDiffIdleUpdate poolId client timer ticks = [] :=
  (silent_timeout poolId client timer).select _ ticks

/-- A timer that is due emits. -/
theorem values_timeout (timer : ℕ) (ticks : List (Tick C)) :
    (timeout poolId client timer ticks).values =
      if Due poolId client timer ticks then [()] else [] := by
  induction ticks using List.reverseRecOn with
  | nil => rfl
  | append_singleton ticks t =>
    unfold timeout Observable.filter Due shareReceived
    dsimp only
    rw [Observable.values_take_one_takeUntil_timer, List.getLast?_concat, List.dropLast_concat]
    simp only [Option.any_some]
    split
    · rename_i hemits
      simp only [Bool.and_eq_true] at hemits
      by_cases h : t.isAlive = true
      · have hkeeps : [()].filter (fun _ => t.isAlive) = [()] := List.filter_cons_of_pos h
        rw [hkeeps, if_pos]
        simp only [Bool.and_eq_true]
        exact ⟨⟨⟨hemits.1.1, h⟩, hemits.1.2⟩, hemits.2⟩
      · have hdrops : [()].filter (fun _ => t.isAlive) = [] := List.filter_cons_of_neg h
        rw [hdrops, if_neg]
        simp only [Bool.and_eq_true]
        exact fun h' => h h'.1.1.2
    · rename_i hsilent
      rw [List.filter_nil, if_neg]
      simp only [Bool.and_eq_true] at hsilent ⊢
      exact fun h => hsilent ⟨⟨h.1.1.1, h.1.2⟩, h.2⟩

/-- With `Concat` the update runs exactly when it is due. -/
theorem startVarDiffIdleUpdateConcat_eq (timer : ℕ) (ticks : List (Tick C)) :
    startVarDiffIdleUpdateConcat poolId client timer ticks =
      if Due poolId client timer ticks then [⟨true⟩] else [] := by
  have hnil : (timeout poolId client timer []).values = [] := values_timeout poolId client timer []
  unfold startVarDiffIdleUpdateConcat idleUpdatesConcat idleUpdates
  rw [Observable.effects_merge_select _ (silent_timeout poolId client timer) hnil,
    values_timeout]
  split <;> rfl

/-! ## Schedules -/

variable {poolId client}

omit [DecidableEq C] in
theorem numbers_eq_nil (timers : List (List (Tick C))) : numbers (fun _ _ => false) timers = [] :=
  List.filter_eq_nil_iff.mpr fun i _ => by cases timers[i]? <;> simp

/-- No timer is due at this event. -/
def NotDue (poolId : String) (client : C)
    (effects : ℕ → List (Tick C) → List UpdateVarDiff) (s : State C) (e : Event C) : Prop :=
  ∀ s', step poolId client effects s e = some s' → s'.due = s.due

/-- Along a schedule, what is due is only added to. -/
theorem due_grows {effects : ℕ → List (Tick C) → List UpdateVarDiff} {s s' : State C}
    {e : Event C} (h : step poolId client effects s e = some s') : s.due <+: s'.due := by
  unfold step at h
  split at h
  · cases h
    exact List.prefix_append _ _
  · exact nomatch h

theorem due_grows_of_run {effects : ℕ → List (Tick C) → List UpdateVarDiff} {es : List (Event C)}
    {s s' : State C} (h : run (step poolId client effects) s es = some s') : s.due <+: s'.due := by
  induction es generalizing s with
  | nil => exact Option.some.inj h ▸ List.prefix_refl _
  | cons e es ih =>
    obtain ⟨t, ht, hrest⟩ := run_cons.mp h
    exact (due_grows ht).trans (ih hrest)

/-- A schedule in which no timer is due is one along which none is. -/
theorem due_eq_iff_along {effects : ℕ → List (Tick C) → List UpdateVarDiff} {es : List (Event C)}
    {s s' : State C} (h : run (step poolId client effects) s es = some s') :
    s'.due = s.due ↔ Along (step poolId client effects) (NotDue poolId client effects) s es := by
  induction es generalizing s with
  | nil => exact iff_of_true (Option.some.inj h ▸ rfl) trivial
  | cons e es ih =>
    obtain ⟨t, ht, hrest⟩ := run_cons.mp h
    constructor
    · intro heq
      have hle : t.due <+: s.due := heq ▸ due_grows_of_run hrest
      have hst : t.due = s.due := hle.eq_of_length_le (due_grows ht).length_le
      refine ⟨fun u hu => ?_, fun u hu => ?_⟩
      · rw [Option.some.inj (hu.symm.trans ht), hst]
      · obtain rfl := Option.some.inj (hu.symm.trans ht)
        exact (ih hrest).mp (heq.trans hst.symm)
    · rintro ⟨hnot, halong⟩
      exact ((ih hrest).mpr (halong t ht)).trans (hnot t ht)

/-- Nothing is ever served. -/
theorem served_step {s s' : State C} {e : Event C}
    (h : step poolId client (startVarDiffIdleUpdate poolId client) s e = some s') :
    s'.served = s.served := by
  unfold step at h
  split at h
  · cases h
    simp only [startVarDiffIdleUpdate_eq, List.nil_eq, List.cons_ne_nil, decide_false,
      numbers_eq_nil, List.append_nil]
  · exact nomatch h

/-- With `Concat`, what is due is served. -/
theorem served_step_concat {s s' : State C} {e : Event C}
    (h : step poolId client (startVarDiffIdleUpdateConcat poolId client) s e = some s')
    (hs : s.served = s.due) : s'.served = s'.due := by
  have hdue : (fun i ticks => decide (startVarDiffIdleUpdateConcat poolId client i ticks =
      [⟨true⟩])) = Due poolId client := by
    funext i ticks
    rw [startVarDiffIdleUpdateConcat_eq]
    cases Due poolId client i ticks <;> rfl
  unfold step at h
  split at h
  · cases h
    rw [hs, hdue]
  · exact nomatch h

/-- **With `Concat` no idle retarget is lost**, in any schedule. -/
theorem served_of_concat (hasVarDiff : Bool) {es : List (Event C)} {s : State C}
    (h : run (step poolId client (startVarDiffIdleUpdateConcat poolId client)) (.init hasVarDiff)
      es = some s) : s.served = s.due :=
  run_invariant_of_step (I := fun s => s.served = s.due) (fun _ _ _ hs h => served_step_concat h hs)
    rfl h

/-- **The idle retargets that run are those that are due exactly if no timer is ever due**: of a
schedule in which one is, each is lost. -/
theorem served_iff_notDue (hasVarDiff : Bool) {es : List (Event C)} {s : State C}
    (h : run (step poolId client (startVarDiffIdleUpdate poolId client)) (.init hasVarDiff) es =
      some s) :
    s.served = s.due ↔ Along (step poolId client (startVarDiffIdleUpdate poolId client))
      (NotDue poolId client (startVarDiffIdleUpdate poolId client)) (.init hasVarDiff) es := by
  have hserved : s.served = [] :=
    run_invariant_of_step (I := fun s => s.served = []) (fun _ _ _ hs h => (served_step h).trans hs)
      rfl h
  rw [← due_eq_iff_along h, hserved]
  exact eq_comm

/-- A client whose share is accepted in time, and that is gone when the next timer expires. -/
def shareInTime : List (Event ℕ) :=
  [.clientShare "aion1" 0, .updateVarDiffAsync, .expired 0, .closed, .expired 1]

theorem served_shareInTime : ∃ s,
    run (step "aion1" 0 (startVarDiffIdleUpdate "aion1" 0)) (.init true) shareInTime = some s ∧
      s.served = s.due ∧ Along (step "aion1" 0 (startVarDiffIdleUpdate "aion1" 0))
        (NotDue "aion1" 0 (startVarDiffIdleUpdate "aion1" 0)) (.init true) shareInTime := by
  obtain ⟨s, hs, hserved⟩ : ∃ s, run (step "aion1" 0 (startVarDiffIdleUpdate "aion1" 0))
      (.init true) shareInTime = some s ∧ s.served = s.due := by
    refine ⟨_, rfl, ?_⟩
    decide +kernel
  exact ⟨s, hs, hserved, (served_iff_notDue true hs).mp hserved⟩

/-- A timer that expires while its client mines nothing: the update is due, and does not run. -/
theorem idle_lost : ∃ s,
    run (step "aion1" 0 (startVarDiffIdleUpdate "aion1" 0)) (.init true)
      [(.expired 0 : Event ℕ)] = some s ∧ s.due = [0] ∧ s.served ≠ s.due := by
  refine ⟨_, rfl, ?_, ?_⟩
  · decide +kernel
  · decide +kernel

end AionPool.Mining.IdleUpdate
