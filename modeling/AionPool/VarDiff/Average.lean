import AionPool.Lib.Run
import AionPool.VarDiff.Retarget

/-!
# The average

`Update` keeps the times between shares in a circular buffer of ten. A retarget replaces the buffer,
and not the time of the last share, so that the first interval after it starts before it.

* `History`: a context, with the intervals recorded since the last retarget as the calls gave them.
* `sum_of_keeps`: the sum of a buffer is that of what it holds. An empty one adds up the zeros of
  its array.
* `Tracked`: the buffer holds the last ten of the intervals; `tracked_step`.
* **`averages_of_run`**: so the average every call is answered by is over these and the time since
  the last share, with any rounding that keeps zero; `averageAt_exact` for exact arithmetic.

About `VarDiffManager.cs:48-123` and `CircularDoubleBuffer.cs:40-52`, call after call.
-/

namespace AionPool.VarDiff

open AionPool.Lib.Binary64 AionPool.Lib.Run AionPool.Util

variable (rnd : ℚ → Double) (options : VarDiffConfig Double)

/-! ## Sums -/

variable {rnd} in
/-- Zeros add up to zero. -/
theorem sum_replicate_zero (hzero : rnd 0 = .fin 0) (n : ℕ) :
    Double.sum rnd (List.replicate n (.fin 0)) = .fin 0 := by
  induction n with
  | zero => rfl
  | succ n ih => rw [List.replicate_succ', Double.sum_concat, ih, Double.add_fin, add_zero, hzero]

variable {rnd} in
/-- **The sum of a buffer** is the sum of what it holds, oldest first. -/
theorem sum_of_keeps (hzero : rnd 0 = .fin 0) {b : CircularBuffer Double} {xs : List Double}
    (h : b.Keeps xs) : sum rnd b = Double.sum rnd xs := by
  have hsum : sum rnd b = Double.sum rnd b.enumerate := rfl
  rw [hsum, h.enumerate_eq]
  split
  · rename_i hnil
    rw [hnil]
    exact sum_replicate_zero hzero b.capacity
  · rfl

/-- In exact arithmetic a sum is the sum of the numbers. -/
theorem sum_exact (qs : List ℚ) : Double.sum .fin (qs.map .fin) = .fin qs.sum := by
  induction qs using List.reverseRecOn with
  | nil => rfl
  | append_singleton qs q ih =>
    rw [List.map_append, List.map_singleton, Double.sum_concat, ih, Double.add_fin, List.sum_append,
      List.sum_singleton]

/-! ## What the calls have recorded -/

/-- The time between two calls. -/
def interval (earlier later : ℤ) : Double := .sub rnd (timestamp rnd later) (timestamp rnd earlier)

/-- A context, with the time of the last share and the intervals between shares recorded since the
last retarget. The first call counts as a share. -/
structure History where
  context : VarDiffContext
  lastShare : Option ℤ
  intervals : List Double

def History.init : History := ⟨.init, none, []⟩

/-- The intervals after a call. -/
def recorded (s : History) (call : Call) (newDiff : Option Double) : List Double :=
  match newDiff with
  | some _ => []
  | none =>
    match s.lastShare with
    | none => []
    | some last =>
      if call.isIdleUpdate then s.intervals
      else s.intervals ++ [interval rnd last call.milliseconds]

/-- One call, whatever its time. -/
def recordStep (s : History) (call : Call) : Option History :=
  match update rnd options call s.context with
  | .error _ => none
  | .ok (newDiff, ctx) => some {
      context := ctx
      lastShare :=
        if s.lastShare.isSome ∧ call.isIdleUpdate = true then s.lastShare
        else some call.milliseconds
      intervals := recorded rnd s call newDiff }

/-- The last ten of the intervals. -/
def History.window (s : History) : List Double := s.intervals.rtake bufferSize

/-- The average of the window and the time since the last share. -/
def History.average (s : History) (last milliseconds : ℤ) : Double :=
  .quot rnd (.add rnd (Double.sum rnd s.window) (interval rnd last milliseconds))
    (.fin ((min s.intervals.length bufferSize : ℕ) + 1))

/-- What a call answers when it averages `avg`: the new difficulty, if it is time for one, `avg` is
out of range and the difficulty changes. -/
def answer (call : Call) (lastRtc avg : Double) : Option Double :=
  let newDiff := newDifficulty rnd options call.difficulty avg
  if keeps rnd options (timestamp rnd call.milliseconds) lastRtc avg = false ∧
      (newDiff.lt call.difficulty || call.difficulty.lt newDiff) = true then some newDiff
  else none

/-- The buffer is what it should be: its sum and its size are those of the window, a call at any
time averages over it, and every call is answered by this average. Without a share there is no
buffer, and nothing is answered. -/
structure Averages (s : History) : Prop where
  started : ∀ last, s.lastShare = some last → ∃ b, s.context.timeBuffer = some b ∧
    sum rnd b = Double.sum rnd s.window ∧ b.size = min s.intervals.length bufferSize ∧
    (∀ milliseconds,
      s.context.averageAt rnd milliseconds = some (s.average rnd last milliseconds)) ∧
    ∀ call, (update rnd options call s.context).map Prod.fst =
      .ok (answer rnd options call s.context.lastRtc (s.average rnd last call.milliseconds))
  fresh : s.lastShare = none → s.context.timeBuffer = none ∧
    ∀ call, (update rnd options call s.context).map Prod.fst = .ok none

/-! ## The invariant -/

/-- The buffer holds the window. -/
inductive Tracked (s : History) : Prop where
  | fresh (hlast : s.context.lastTs = none) (hbuffer : s.context.timeBuffer = none)
      (hshare : s.lastShare = none)
  | started (last : ℤ) (b : CircularBuffer Double) (hshare : s.lastShare = some last)
      (hts : s.context.lastTs = some (timestamp rnd last)) (hbuffer : s.context.timeBuffer = some b)
      (hcap : b.capacity = bufferSize) (hb : b.Keeps s.window)

theorem tracked_init : Tracked rnd .init := .fresh rfl rfl rfl

variable {rnd}

/-- A tracked context averages over the window. -/
theorem Tracked.averages (hzero : rnd 0 = .fin 0) {s : History} (h : Tracked rnd s) :
    Averages rnd options s := by
  cases h with
  | fresh hlast hbuffer hshare =>
    refine ⟨fun last h => (nomatch hshare.symm.trans h), fun _ => ⟨hbuffer, fun call => ?_⟩⟩
    rw [update_first hlast]
    rfl
  | started last b hshare hts hbuffer hcap hb =>
    have hsum := sum_of_keeps hzero hb
    have hsize : b.size = min s.intervals.length bufferSize :=
      hb.size_eq.trans (CircularBuffer.length_rtake _ _)
    refine ⟨fun last' h => ?_, fun h => nomatch hshare.symm.trans h⟩
    obtain rfl : last = last' := Option.some.inj (hshare.symm.trans h)
    have haverage : ∀ milliseconds, average rnd b (interval rnd last milliseconds) =
        s.average rnd last milliseconds := fun milliseconds => by
      unfold average History.average
      rw [hsum, hsize]
    refine ⟨b, hbuffer, hsum, hsize, fun milliseconds => ?_, fun call => ?_⟩
    · unfold VarDiffContext.averageAt
      rw [hts, hbuffer]
      exact congrArg some (haverage milliseconds)
    · rw [update_later hts hbuffer]
      have havg := haverage call.milliseconds
      unfold interval at havg
      rw [havg]
      unfold answer
      dsimp only
      split <;> rfl

variable {options}

/-- What a call that is no retarget leaves. -/
theorem tracked_record {s : History} (call : Call) {last : ℤ} {b : CircularBuffer Double}
    (hshare : s.lastShare = some last) (hts : s.context.lastTs = some (timestamp rnd last))
    (hbuffer : s.context.timeBuffer = some b) (hcap : b.capacity = bufferSize)
    (hb : b.Keeps s.window) :
    Tracked rnd
      { context := s.context.record b (interval rnd last call.milliseconds)
          (timestamp rnd call.milliseconds) call.isIdleUpdate
        lastShare := if s.lastShare.isSome ∧ call.isIdleUpdate = true then s.lastShare
          else some call.milliseconds
        intervals := recorded rnd s call none } := by
  unfold VarDiffContext.record recorded
  rw [hshare]
  cases hidle : call.isIdleUpdate with
  | true => exact .started last b rfl hts hbuffer hcap hb
  | false =>
    have hpush := CircularBuffer.keeps_pushBack hb (interval rnd last call.milliseconds)
    unfold History.window at hpush
    rw [hcap, CircularBuffer.rtake_rtake_concat] at hpush
    exact .started call.milliseconds _ rfl rfl rfl
      ((CircularBuffer.capacity_pushBack _).trans hcap) hpush

/-- A retarget starts a new buffer, and keeps the time of the last share. -/
theorem tracked_retarget {s : History} {call : Call} (h : Tracked rnd s)
    (hshare : s.lastShare.isSome) :
    Tracked rnd
      { context := { s.context with
          lastRtc := timestamp rnd call.milliseconds
          lastUpdate := some call.now
          timeBuffer := some emptyBuffer }
        lastShare := s.lastShare
        intervals := [] } := by
  cases h with
  | fresh _ _ hnone => rw [hnone] at hshare; exact nomatch hshare
  | started last b hshare hts hbuffer hcap hb =>
    exact .started last emptyBuffer hshare hts rfl rfl keeps_emptyBuffer

variable (rnd options) in
/-- Every call is answered, and keeps the buffer in step with the window. -/
theorem tracked_step {s : History} (h : Tracked rnd s) (call : Call) :
    ∃ s', recordStep rnd options s call = some s' ∧ Tracked rnd s' := by
  cases h with
  | fresh hlast hbuffer hshare =>
    unfold recordStep
    rw [update_first hlast]
    refine ⟨_, rfl, ?_⟩
    unfold recorded
    rw [hshare]
    exact .started call.milliseconds emptyBuffer rfl rfl rfl rfl keeps_emptyBuffer
  | started last b hshare hts hbuffer hcap hb =>
    have hrecord := tracked_record call hshare hts hbuffer hcap hb
    unfold recordStep
    rcases update_retargets_or_records rnd options call hts hbuffer with
      ⟨newDiff, hupdate⟩ | hupdate
    · rw [hupdate]
      refine ⟨_, rfl, tracked_retarget hrecord ?_⟩
      dsimp only
      split
      · rw [hshare]; rfl
      · rfl
    · rw [hupdate]
      exact ⟨_, rfl, hrecord⟩

variable (rnd options) in
/-- The buffer is in step with the window after any calls. -/
theorem tracked_of_run (calls : List Call) {s : History} (h : Tracked rnd s) :
    ∃ s', run (recordStep rnd options) s calls = some s' ∧ Tracked rnd s' := by
  induction calls generalizing s with
  | nil => exact ⟨s, rfl, h⟩
  | cons call calls ih =>
    obtain ⟨t, ht, htracked⟩ := tracked_step rnd options h call
    obtain ⟨s', hs', htracked'⟩ := ih htracked
    exact ⟨s', run_cons.mpr ⟨t, ht, hs'⟩, htracked'⟩

/-! ## Every run -/

variable (rnd options) in
/-- **The average is over the last ten intervals** since the last retarget and the time since the
last share, after any calls, and it is what the next call is answered by; a buffer of any capacity
adds up and counts the last of what was pushed. -/
theorem averages_of_run (hzero : rnd 0 = .fin 0) :
    (∀ (capacity : ℕ) (items : List Double), 0 < capacity → ∃ b : CircularBuffer Double,
      CircularBuffer.create capacity [] = .ok b ∧
        sum rnd (b.pushAll items) = Double.sum rnd (items.rtake capacity) ∧
        (b.pushAll items).size = min items.length capacity) ∧
    ∀ calls : List Call, ∃ s, run (recordStep rnd options) .init calls = some s ∧
      Averages rnd options s := by
  refine ⟨fun capacity items hpos => ?_, fun calls => ?_⟩
  · obtain ⟨b, hcreate, hkept⟩ := CircularBuffer.keeps_of_pushes hpos items
    exact ⟨b, hcreate, sum_of_keeps hzero hkept,
      hkept.size_eq.trans (CircularBuffer.length_rtake items capacity)⟩
  · obtain ⟨s, hrun, htracked⟩ := tracked_of_run rnd options calls (tracked_init rnd)
    exact ⟨s, hrun, htracked.averages options hzero⟩

/-- A share every 15 seconds. -/
def steadyShares (n : ℕ) : List Call := (List.range n).map fun i => sampleCall false (15000 * i)

/-- The rounding of IEEE 754 keeps zero. -/
theorem ofRat_zero : Double.ofRat 0 = .fin 0 := Double.ofRat_of_nearest nearest_zero (by norm_num)

/-- Twelve intervals, of which the last ten count, in exact arithmetic and in that of doubles. -/
theorem averages_of_run_steady :
    (∃ s, run (recordStep .fin sampleOptions.exact) .init (steadyShares 13) = some s ∧
      s.intervals = List.replicate 12 (.fin 15) ∧ s.window = List.replicate 10 (.fin 15) ∧
      Averages .fin sampleOptions.exact s) ∧
    ∃ s, run (recordStep .ofRat sampleOptions.exact) .init (steadyShares 13) = some s ∧
      Averages .ofRat sampleOptions.exact s := by
  refine ⟨?_, (averages_of_run .ofRat sampleOptions.exact ofRat_zero).2 (steadyShares 13)⟩
  obtain ⟨s, hrun, haverages⟩ := (averages_of_run .fin sampleOptions.exact rfl).2 (steadyShares 13)
  have hintervals : (run (recordStep .fin sampleOptions.exact) .init (steadyShares 13)).map
      History.intervals = some (List.replicate 12 (.fin 15)) := by
    decide +kernel
  rw [hrun] at hintervals
  have hs : s.intervals = List.replicate 12 (.fin 15) := Option.some.inj hintervals
  refine ⟨s, hrun, hs, ?_, haverages⟩
  unfold History.window
  rw [hs]
  rfl

/-! ## Exact arithmetic -/

theorem interval_exact (earlier later : ℤ) :
    interval .fin earlier later = .fin ((later - earlier) / 1000) := by
  unfold interval
  rw [timestamp_exact, timestamp_exact, Double.sub_fin, sub_div]

/-- In exact arithmetic every interval is a number. -/
theorem exact_of_run {calls : List Call} {s : History}
    (hrun : run (recordStep .fin options) .init calls = some s) :
    ∃ qs : List ℚ, s.intervals = qs.map .fin := by
  refine run_invariant_of_step (I := fun s : History => ∃ qs : List ℚ, s.intervals = qs.map .fin)
    (fun s call s' hqs hstep => ?_) ⟨[], rfl⟩ hrun
  obtain ⟨qs, hqs⟩ := hqs
  unfold recordStep at hstep
  split at hstep
  · exact nomatch hstep
  · cases hstep
    dsimp only
    unfold recorded
    split
    · exact ⟨[], rfl⟩
    · split
      · exact ⟨[], rfl⟩
      · rename_i last _
        split
        · exact ⟨qs, hqs⟩
        · refine ⟨qs ++ [((call.milliseconds : ℚ) - last) / 1000], ?_⟩
          rw [hqs, interval_exact, List.map_append, List.map_singleton]

/-- The average over numbers, in seconds. -/
theorem average_exact {s : History} {qs : List ℚ} (h : s.intervals = qs.map .fin)
    (last milliseconds : ℤ) : s.average .fin last milliseconds =
      .fin (((qs.rtake bufferSize).sum + (milliseconds - last) / 1000) /
        ((min qs.length bufferSize : ℕ) + 1)) := by
  have hwindow : s.window = (qs.rtake bufferSize).map .fin := by
    unfold History.window
    rw [h, List.rtake, List.rtake, List.map_drop, List.length_map]
  have hsize : (0 : ℚ) < (min qs.length bufferSize : ℕ) + 1 := by positivity
  unfold History.average
  rw [hwindow, sum_exact, interval_exact, Double.add_fin, h, List.length_map,
    Double.quot_fin _ hsize.ne']

/-- **In exact arithmetic** the average of a call is the quotient of the sum of the last ten
intervals and the time since the last share by their number. -/
theorem averageAt_exact {calls : List Call} {s : History}
    (hrun : run (recordStep .fin options) .init calls = some s) {last : ℤ}
    (hlast : s.lastShare = some last) (milliseconds : ℤ) :
    ∃ qs : List ℚ, s.intervals = qs.map .fin ∧ s.context.averageAt .fin milliseconds =
      some (.fin (((qs.rtake bufferSize).sum + (milliseconds - last) / 1000) /
        ((min qs.length bufferSize : ℕ) + 1))) := by
  obtain ⟨qs, hqs⟩ := exact_of_run hrun
  obtain ⟨s', hrun', htracked⟩ := tracked_of_run .fin options calls (tracked_init .fin)
  obtain rfl : s = s' := Option.some.inj (hrun.symm.trans hrun')
  obtain ⟨_, _, _, _, haverage, -⟩ := (htracked.averages options rfl).started last hlast
  exact ⟨qs, hqs, by rw [haverage, average_exact hqs]⟩

end AionPool.VarDiff
