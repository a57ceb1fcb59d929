import AionPool.Lib.Rounded
import AionPool.Util.Deque

/-!
# `VarDiffManager`

`Update` compares the average time between the shares of a client with the target, and answers with
a new difficulty when it is out of range. Numbers are doubles, and every operation on them takes its
rounding as a parameter.

* `VarDiffConfig.validate`: the messages of `VarDiffConfigValidator`.
* `VarDiffContext`: what is kept of a client between the calls.
* `limitDelta`, `clamp`, `newDifficulty`: how a new difficulty comes about.
* `update_retargets`: what is known of a call that answers with one, whatever the rounding.

Models `VarDiffManager.cs:29-123`, `VarDiffContext.cs:27-34`, `ClusterConfigValidation.cs:86-162`
and `CircularDoubleBuffer.cs:40-52`.
-/

namespace AionPool.VarDiff

open AionPool.Lib.Binary64 AionPool.Util

/-! ## The configuration -/

/-- `VarDiffConfig`, over the numbers `D` that it is written in. -/
structure VarDiffConfig (D : Type) where
  minDiff : D
  maxDiff : Option D
  maxDelta : Option D
  targetTime : D
  retargetTime : D
  variancePercent : D
  deriving DecidableEq

/-- The configuration in doubles. -/
def VarDiffConfig.exact (options : VarDiffConfig ℚ) : VarDiffConfig Double where
  minDiff := .fin options.minDiff
  maxDiff := options.maxDiff.map .fin
  maxDelta := options.maxDelta.map .fin
  targetTime := .fin options.targetTime
  retargetTime := .fin options.retargetTime
  variancePercent := .fin options.variancePercent

/-- The message of a rule that is not met. -/
def rule (holds : Bool) (message : String) : List String := if holds then [] else [message]

/-- `VarDiffConfigValidator`; the comparisons are those of `CompareTo`. -/
def VarDiffConfig.validate (x : VarDiffConfig Double) : List String :=
  rule (x.maxDiff.all fun maxDiff => x.minDiff.le? maxDiff)
      "VarDiff: max value must be greater or equal min value" ++
    rule ((Double.fin 1).le? x.variancePercent && x.variancePercent.le? (.fin 100))
      "VarDiff: variancePercent must be a percentage betwen 1 and 100" ++
    rule (!x.targetTime.le? (.fin 0)) "VarDiff: targetTime invalid" ++
    rule (!x.retargetTime.le? (.fin 0)) "VarDiff: retargetTime invalid"

@[simp] theorem rule_eq_nil (holds : Bool) (message : String) :
    rule holds message = [] ↔ holds = true := by
  cases holds <;> simp [rule]

/-! ## The context of a client -/

instance : Inhabited Double := ⟨.fin 0⟩

/-- `VarDiffContext`; its configuration is the `options` of the manager. -/
structure VarDiffContext where
  lastTs : Option Double
  lastRtc : Double
  /-- `null` before the first call. -/
  timeBuffer : Option (CircularBuffer Double)
  lastUpdate : Option DateTime

/-- A new context. -/
def VarDiffContext.init : VarDiffContext where
  lastTs := none
  lastRtc := .fin 0
  timeBuffer := none
  lastUpdate := none

/-- What a call of `Update` is given, and what it reads off the clocks. -/
structure Call where
  difficulty : Double
  isIdleUpdate : Bool
  /-- `ToUnixTimeMilliseconds`. -/
  milliseconds : ℤ
  now : DateTime

/-- The last ten shares. -/
def bufferSize : ℕ := 10

/-! ## The new difficulty -/

section Update

variable (rnd : ℚ → Double) (options : VarDiffConfig Double)

def variance : Double :=
  .mul rnd options.targetTime (.quot rnd options.variancePercent (.fin 100))

def tMin : Double := .sub rnd options.targetTime (variance rnd options)

def tMax : Double := .add rnd options.targetTime (variance rnd options)

def maxDiff : Double :=
  match options.maxDiff with
  | some maxDiff => maxDiff
  | none => .max options.minDiff .maxValue

/-- `CircularDoubleBuffer.Sum`. -/
def sum (b : CircularBuffer Double) : Double := b.enumerate.foldl (Double.add rnd) (.fin 0)

/-- `ToUnixTimeMilliseconds() / 1000.0`. -/
def timestamp (milliseconds : ℤ) : Double := .quot rnd (rnd milliseconds) (.fin 1000)

/-- The average time, the time since the last share included. -/
def average (timeBuffer : CircularBuffer Double) (sinceLast : Double) : Double :=
  .quot rnd (.add rnd (sum rnd timeBuffer) sinceLast) (.fin (timeBuffer.size + 1))

/-- The new difficulty is at most `MaxDelta` away from the old one. -/
def limitDelta (maxDelta : Option Double) (difficulty newDiff : Double) : Double :=
  match maxDelta with
  | none => newDiff
  | some maxDelta =>
    if (Double.fin 0).lt maxDelta then
      let delta := Double.abs (.sub rnd newDiff difficulty)
      if maxDelta.lt delta then
        if difficulty.lt newDiff then .sub rnd newDiff (.sub rnd delta maxDelta)
        else if newDiff.lt difficulty then .add rnd newDiff (.sub rnd delta maxDelta)
        else newDiff
      else newDiff
    else newDiff

/-- The new difficulty is in the valid range. -/
def clamp (minDiff maxDiff newDiff : Double) : Double :=
  let newDiff := if newDiff.lt minDiff then minDiff else newDiff
  if maxDiff.lt newDiff then maxDiff else newDiff

/-- The difficulty at which the shares would have come at the target time. -/
def newDifficulty (difficulty avg : Double) : Double :=
  clamp options.minDiff (maxDiff options)
    (limitDelta rnd options.maxDelta difficulty
      (.quot rnd (.mul rnd difficulty options.targetTime) avg))

/-- The context once the time of a share is stored. -/
def VarDiffContext.record (ctx : VarDiffContext) (timeBuffer : CircularBuffer Double)
    (sinceLast ts : Double) (isIdleUpdate : Bool) : VarDiffContext :=
  if isIdleUpdate then ctx
  else { ctx with timeBuffer := some (timeBuffer.pushBack sinceLast), lastTs := some ts }

/-- No retarget: too early, or the average is in range. -/
def keeps (ts lastRtc avg : Double) : Bool :=
  (Double.sub rnd ts lastRtc).lt options.retargetTime ||
    (tMin rnd options).le avg && avg.le (tMax rnd options)

/-- `Update`. -/
def update (call : Call) (ctx : VarDiffContext) :
    Except Exn (Option Double × VarDiffContext) :=
  let ts := timestamp rnd call.milliseconds
  match ctx.lastTs, ctx.timeBuffer with
  | none, _ => do
    let timeBuffer ← CircularBuffer.create bufferSize []
    .ok (none, { ctx with lastRtc := ts, lastTs := some ts, timeBuffer := some timeBuffer })
  | some _, none => .error .nullReference
  | some lastTs, some timeBuffer => do
    let sinceLast := Double.sub rnd ts lastTs
    let avg := average rnd timeBuffer sinceLast
    let ctx := ctx.record timeBuffer sinceLast ts call.isIdleUpdate
    if keeps rnd options ts ctx.lastRtc avg then .ok (none, ctx)
    else
      let newDiff := newDifficulty rnd options call.difficulty avg
      if newDiff.lt call.difficulty || call.difficulty.lt newDiff then
        -- the buffer is cleared
        let timeBuffer ← CircularBuffer.create bufferSize []
        .ok (some newDiff,
          { ctx with lastRtc := ts, lastUpdate := some call.now, timeBuffer := some timeBuffer })
      else .ok (none, ctx)

/-! ## What a call does -/

/-- The buffer that starts after a retarget. -/
def emptyBuffer : CircularBuffer Double := ⟨List.replicate bufferSize (.fin 0), 0, 0, 0⟩

theorem keeps_emptyBuffer : emptyBuffer.Keeps [] :=
  (CircularBuffer.keeps_create (rfl : CircularBuffer.create bufferSize [] = .ok emptyBuffer)).1

variable {rnd options}

/-- The first call starts the clock. -/
theorem update_first {call : Call} {ctx : VarDiffContext} (h : ctx.lastTs = none) :
    update rnd options call ctx = .ok (none,
      { ctx with
        lastRtc := timestamp rnd call.milliseconds
        lastTs := some (timestamp rnd call.milliseconds)
        timeBuffer := some emptyBuffer }) := by
  unfold update
  rw [h]
  rfl

theorem lastRtc_record (ctx : VarDiffContext) (timeBuffer : CircularBuffer Double)
    (sinceLast ts : Double) (isIdleUpdate : Bool) :
    (ctx.record timeBuffer sinceLast ts isIdleUpdate).lastRtc = ctx.lastRtc := by
  unfold VarDiffContext.record
  split <;> rfl

/-- A later call stores the time of a share, and answers with the new difficulty when it is time for
one, the average is out of range and the difficulty changes. -/
theorem update_later {call : Call} {ctx : VarDiffContext} {lastTs : Double}
    {timeBuffer : CircularBuffer Double} (hlast : ctx.lastTs = some lastTs)
    (hbuffer : ctx.timeBuffer = some timeBuffer) :
    let ts := timestamp rnd call.milliseconds
    let sinceLast := Double.sub rnd ts lastTs
    let avg := average rnd timeBuffer sinceLast
    let newDiff := newDifficulty rnd options call.difficulty avg
    let ctx' := ctx.record timeBuffer sinceLast ts call.isIdleUpdate
    update rnd options call ctx =
      if keeps rnd options ts ctx.lastRtc avg = false ∧
          (newDiff.lt call.difficulty || call.difficulty.lt newDiff) = true then
        .ok (some newDiff,
          { ctx' with lastRtc := ts, lastUpdate := some call.now, timeBuffer := some emptyBuffer })
      else .ok (none, ctx') := by
  intro ts sinceLast avg newDiff ctx'
  have hkeeps : keeps rnd options ts ctx'.lastRtc avg = keeps rnd options ts ctx.lastRtc avg := by
    rw [lastRtc_record]
  unfold update
  rw [hlast, hbuffer]
  change (if keeps rnd options ts ctx'.lastRtc avg then _ else if _ then _ else _) = _
  rw [hkeeps]
  cases hk : keeps rnd options ts ctx.lastRtc avg with
  | true =>
    rw [if_pos rfl, if_neg (by simp)]
  | false =>
    simp only [Bool.false_eq_true, if_false, true_and]
    rfl

variable (rnd options) in
/-- It retargets, or only records. -/
theorem update_retargets_or_records (call : Call) {ctx : VarDiffContext} {lastTs : Double}
    {timeBuffer : CircularBuffer Double} (hlast : ctx.lastTs = some lastTs)
    (hbuffer : ctx.timeBuffer = some timeBuffer) :
    let ts := timestamp rnd call.milliseconds
    let ctx' := ctx.record timeBuffer (.sub rnd ts lastTs) ts call.isIdleUpdate
    (∃ newDiff, update rnd options call ctx = .ok (some newDiff,
      { ctx' with lastRtc := ts, lastUpdate := some call.now, timeBuffer := some emptyBuffer })) ∨
    update rnd options call ctx = .ok (none, ctx') := by
  intro ts ctx'
  rw [update_later hlast hbuffer]
  split
  · exact Or.inl ⟨_, rfl⟩
  · exact Or.inr rfl

/-- A call that answers with a difficulty answers with a new one, in the clamp of some average. -/
theorem update_retargets {call : Call} {ctx ctx' : VarDiffContext} {x : Double}
    (h : update rnd options call ctx = .ok (some x, ctx')) :
    ∃ avg, x = newDifficulty rnd options call.difficulty avg ∧
      (x.lt call.difficulty || call.difficulty.lt x) = true := by
  cases hlast : ctx.lastTs with
  | none =>
    rw [update_first hlast] at h
    exact nomatch h
  | some lastTs =>
    cases hbuffer : ctx.timeBuffer with
    | none =>
      unfold update at h
      rw [hlast, hbuffer] at h
      exact nomatch h
    | some timeBuffer =>
      rw [update_later hlast hbuffer] at h
      split at h
      · rename_i hnew
        cases h
        exact ⟨_, rfl, hnew.2⟩
      · exact nomatch h

end Update

end AionPool.VarDiff
