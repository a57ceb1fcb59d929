import AionPool.Lib.Run
import AionPool.VarDiff.VarDiffManager
import Mathlib.Algebra.Order.Field.Basic
import Mathlib.Tactic.Linarith

/-!
# Retargets in exact arithmetic

`Update` with exact operations, for configurations that the validator accepts.

* `Toward d y w`: `w` is on the side of `d` that `y` is on, and no farther away.
  `limitDelta_exact` and `clamp_exact` give such values.
* `Timed`: what every context reached by calls in the order of time satisfies; `timed_step`.
* **`update_sane`**: a new difficulty is in the valid range, within `MaxDelta` of the old one, moves
  against the average, and comes no earlier than `RetargetTime` after the last one.

About `VarDiffManager.cs:48-123`, in exact arithmetic.
-/

namespace AionPool.VarDiff

open AionPool.Lib.Binary64 AionPool.Lib.Run AionPool.Util

/-! ## Steps toward a value -/

/-- `w` lies between `d` and `y`. -/
structure Toward (d y w : ℚ) : Prop where
  up : d ≤ y → d ≤ w ∧ w ≤ y
  down : y ≤ d → y ≤ w ∧ w ≤ d

theorem Toward.refl (d y : ℚ) : Toward d y y := ⟨fun h => ⟨h, le_rfl⟩, fun h => ⟨le_rfl, h⟩⟩

theorem Toward.trans {d y z w : ℚ} (h : Toward d y z) (h' : Toward d z w) : Toward d y w where
  up hy := ⟨(h'.up (h.up hy).1).1, (h'.up (h.up hy).1).2.trans (h.up hy).2⟩
  down hy := ⟨(h.down hy).1.trans (h'.down (h.down hy).2).1, (h'.down (h.down hy).2).2⟩

/-- A value on the way is no farther away. -/
theorem Toward.abs_le {d y w : ℚ} (h : Toward d y w) : |w - d| ≤ |y - d| := by
  rcases le_total d y with hy | hy
  · obtain ⟨hlo, hhi⟩ := h.up hy
    rw [abs_of_nonneg (sub_nonneg.mpr hlo), abs_of_nonneg (sub_nonneg.mpr hy)]
    exact sub_le_sub_right hhi d
  · obtain ⟨hlo, hhi⟩ := h.down hy
    rw [abs_of_nonpos (sub_nonpos.mpr hhi), abs_of_nonpos (sub_nonpos.mpr hy)]
    linarith

/-- What moved up was above, and what moved down was below. -/
theorem Toward.lt {d y w : ℚ} (h : Toward d y w) : (d < w → d < y) ∧ (w < d → y < d) :=
  ⟨fun hw => not_le.mp fun hy => absurd (h.down hy).2 (not_le_of_gt hw),
    fun hw => not_le.mp fun hy => absurd (h.up hy).1 (not_le_of_gt hw)⟩

/-! ## The new difficulty -/

/-- A value is limited to one on the way to it, no farther than `MaxDelta`. -/
theorem limitDelta_some (δ d y : ℚ) :
    ∃ z, limitDelta .fin (some (.fin δ)) (.fin d) (.fin y) = .fin z ∧ Toward d y z ∧
      (0 < δ → |z - d| ≤ δ) := by
  simp only [limitDelta, Double.lt_fin, Double.sub_fin, Double.abs_fin, Double.add_fin,
    decide_eq_true_iff]
  by_cases hδ : 0 < δ
  · rw [if_pos hδ]
    by_cases hfar : δ < |y - d|
    · rw [if_pos hfar]
      rcases lt_trichotomy d y with hup | heq | hdown
      · have habs : |y - d| = y - d := abs_of_pos (sub_pos.mpr hup)
        rw [if_pos hup, habs]
        rw [habs] at hfar
        refine ⟨y - (y - d - δ), rfl,
          ⟨fun _ => ⟨by linarith, by linarith⟩, fun h => ?_⟩, fun _ => ?_⟩
        · exact absurd hup (not_lt_of_ge h)
        · rw [show y - (y - d - δ) - d = δ by ring, abs_of_pos hδ]
      · rw [heq, sub_self, abs_zero] at hfar
        exact absurd hfar (not_lt_of_gt hδ)
      · have habs : |y - d| = d - y := by rw [abs_sub_comm, abs_of_pos (sub_pos.mpr hdown)]
        rw [if_neg (not_lt_of_gt hdown), if_pos hdown, habs]
        rw [habs] at hfar
        refine ⟨y + (d - y - δ), rfl,
          ⟨fun h => ?_, fun _ => ⟨by linarith, by linarith⟩⟩, fun _ => ?_⟩
        · exact absurd hdown (not_lt_of_ge h)
        · rw [show y + (d - y - δ) - d = -δ by ring, abs_neg, abs_of_pos hδ]
    · rw [if_neg hfar]
      exact ⟨y, rfl, .refl d y, fun _ => not_lt.mp hfar⟩
  · rw [if_neg hδ]
    exact ⟨y, rfl, .refl d y, fun h => absurd h hδ⟩

theorem limitDelta_exact (maxDelta : Option ℚ) (d y : ℚ) :
    ∃ z, limitDelta .fin (maxDelta.map .fin) (.fin d) (.fin y) = .fin z ∧ Toward d y z ∧
      ∀ δ, maxDelta = some δ → 0 < δ → |z - d| ≤ δ := by
  cases maxDelta with
  | none => exact ⟨y, rfl, .refl d y, nofun⟩
  | some δ =>
    obtain ⟨z, hz, htoward, hdelta⟩ := limitDelta_some δ d y
    exact ⟨z, hz, htoward, fun _ h hpos => Option.some.inj h ▸ hdelta (Option.some.inj h ▸ hpos)⟩

/-- A value is clamped to one in range, on the way to it from any value in range. -/
theorem clamp_exact {lo hi d : ℚ} (hlo : lo ≤ d) (hhi : d ≤ hi) (y : ℚ) :
    ∃ w, clamp (.fin lo) (.fin hi) (.fin y) = .fin w ∧ (lo ≤ w ∧ w ≤ hi) ∧ Toward d y w := by
  simp only [clamp, Double.lt_fin, decide_eq_true_iff]
  by_cases hy : y < lo
  · rw [if_pos hy]
    have hle : ¬ hi < lo := not_lt_of_ge (hlo.trans hhi)
    rw [Double.lt_fin, if_neg (by simpa using hle)]
    exact ⟨lo, rfl, ⟨le_rfl, hlo.trans hhi⟩, fun h => absurd (hlo.trans h) (not_le_of_gt hy),
      fun _ => ⟨hy.le, hlo⟩⟩
  · rw [if_neg hy, Double.lt_fin]
    by_cases hy' : hi < y
    · rw [if_pos (by simpa using hy')]
      exact ⟨hi, rfl, ⟨hlo.trans hhi, le_rfl⟩, fun _ => ⟨hhi, hy'.le⟩,
        fun h => absurd (h.trans hhi) (not_le_of_gt hy')⟩
    · rw [if_neg (by simpa using hy')]
      exact ⟨y, rfl, ⟨not_lt.mp hy, not_lt.mp hy'⟩, .refl d y⟩

variable {options : VarDiffConfig ℚ}

/-- The upper end of the valid range: `MaxDiff`, and without one all doubles are in it. -/
def VarDiffConfig.upper (options : VarDiffConfig ℚ) : ℚ :=
  options.maxDiff.getD (max options.minDiff ((2 ^ 53 - 1) * 2 ^ 971))

theorem maxDiff_exact (options : VarDiffConfig ℚ) :
    maxDiff options.exact = .fin options.upper := by
  unfold maxDiff VarDiffConfig.upper VarDiffConfig.exact
  cases options.maxDiff with
  | some m => rfl
  | none => exact Double.max_fin

/-- A quotient by zero is infinite, and clamped to the upper end. -/
theorem clamp_inf {lo hi : ℚ} : clamp (.fin lo) (.fin hi) (.inf false) = .fin hi := rfl

theorem clamp_nan (lo hi : ℚ) : clamp (.fin lo) (.fin hi) .nan = .nan := rfl

/-- An infinite value is limited to NaN, or not at all. -/
theorem limitDelta_inf (maxDelta : Option ℚ) (d : ℚ) :
    limitDelta .fin (maxDelta.map .fin) (.fin d) (.inf false) = .nan ∨
      limitDelta .fin (maxDelta.map .fin) (.fin d) (.inf false) = .inf false ∧
        ∀ δ, maxDelta = some δ → ¬ 0 < δ := by
  cases maxDelta with
  | none => exact .inr ⟨rfl, nofun⟩
  | some δ =>
    by_cases hδ : 0 < δ
    · left
      have hpos : (Double.fin 0).lt (.fin δ) = true := decide_eq_true hδ
      simp only [limitDelta, Option.map_some, hpos, if_true]
      rfl
    · right
      have hpos : (Double.fin 0).lt (.fin δ) = false := decide_eq_false hδ
      simp only [limitDelta, Option.map_some, hpos, Bool.false_eq_true, if_false, true_and]
      rintro _ h
      exact Option.some.inj h ▸ hδ

/-- What a new difficulty owes to the configuration and to the average it answers. -/
structure Sane (options : VarDiffConfig ℚ) (d avg w : ℚ) : Prop where
  range : options.minDiff ≤ w ∧ w ≤ options.upper
  delta : ∀ δ, options.maxDelta = some δ → 0 < δ → |w - d| ≤ δ
  up : d < w → avg < options.targetTime
  down : w < d → options.targetTime < avg

/-- A new difficulty that differs from the old one is a sane one. -/
theorem newDifficulty_exact {d avg : ℚ} (ht : 0 < options.targetTime) (hd : 0 < d)
    (hlo : options.minDiff ≤ d) (hhi : d ≤ options.upper) (havg : 0 ≤ avg) :
    newDifficulty .fin options.exact (.fin d) (.fin avg) = .nan ∨
      ∃ w, newDifficulty .fin options.exact (.fin d) (.fin avg) = .fin w ∧
        Sane options d avg w := by
  have hnew : newDifficulty .fin options.exact (.fin d) (.fin avg) =
      clamp (.fin options.minDiff) (.fin options.upper)
        (limitDelta .fin (options.maxDelta.map .fin) (.fin d)
          (.quot .fin (.fin (d * options.targetTime)) (.fin avg))) := by
    unfold newDifficulty
    rw [maxDiff_exact]
    rfl
  rw [hnew]
  have hprod : 0 < d * options.targetTime := mul_pos hd ht
  rcases havg.eq_or_lt with rfl | hpos
  · have hinf : Double.quot .fin (.fin (d * options.targetTime)) (.fin 0) = .inf false := by
      unfold Double.quot
      dsimp only
      rw [if_pos rfl, if_neg hprod.ne', decide_eq_false (not_lt_of_gt hprod)]
    rw [hinf]
    rcases limitDelta_inf options.maxDelta d with h | ⟨h, hdelta⟩
    · exact .inl (by rw [h, clamp_nan])
    · refine .inr ⟨options.upper, by rw [h, clamp_inf], ⟨hlo.trans hhi, le_rfl⟩, ?_,
        fun _ => ht, ?_⟩
      · exact fun δ hδ hpos => absurd hpos (hdelta δ hδ)
      · exact fun h => absurd hhi (not_le_of_gt h)
  · rw [Double.quot_fin _ hpos.ne']
    obtain ⟨z, hz, htoz, hdelta⟩ :=
      limitDelta_exact options.maxDelta d (d * options.targetTime / avg)
    obtain ⟨w, hw, hrange, htow⟩ := clamp_exact hlo hhi z
    refine .inr ⟨w, by rw [hz, hw], hrange, fun δ hδ h => ?_, fun h => ?_, fun h => ?_⟩
    · exact htow.abs_le.trans (hdelta δ hδ h)
    · have hy := (htoz.trans htow).lt.1 h
      rw [lt_div_iff₀ hpos] at hy
      exact lt_of_mul_lt_mul_left hy hd.le
    · have hy := (htoz.trans htow).lt.2 h
      rw [div_lt_iff₀ hpos] at hy
      exact lt_of_mul_lt_mul_left hy hd.le

/-! ## The configuration -/

/-- What the validator demands of a configuration. -/
theorem validate_exact (h : options.exact.validate = []) :
    1 ≤ options.variancePercent ∧ options.variancePercent ≤ 100 ∧
      0 < options.targetTime ∧ 0 < options.retargetTime := by
  simp only [VarDiffConfig.validate, VarDiffConfig.exact, List.append_eq_nil_iff, rule_eq_nil,
    Double.le?_fin, Bool.and_eq_true, decide_eq_true_iff, Bool.not_eq_true',
    decide_eq_false_iff_not, not_le] at h
  exact ⟨h.1.1.2.1, h.1.1.2.2, h.1.2, h.2⟩

theorem variance_exact (options : VarDiffConfig ℚ) :
    variance .fin options.exact =
      .fin (options.targetTime * (options.variancePercent / 100)) := by
  unfold variance VarDiffConfig.exact
  rw [Double.quot_fin _ (by norm_num)]
  rfl

theorem tMin_exact (options : VarDiffConfig ℚ) :
    tMin .fin options.exact = .fin (options.targetTime * (1 - options.variancePercent / 100)) := by
  unfold tMin
  rw [variance_exact, VarDiffConfig.exact, Double.sub_fin, mul_sub, mul_one]

theorem tMax_exact (options : VarDiffConfig ℚ) :
    tMax .fin options.exact = .fin (options.targetTime * (1 + options.variancePercent / 100)) := by
  unfold tMax
  rw [variance_exact, VarDiffConfig.exact, Double.add_fin, mul_add, mul_one]

/-- The target time is in the range of the average. -/
theorem targetTime_mem (h : options.exact.validate = []) :
    options.targetTime * (1 - options.variancePercent / 100) ≤ options.targetTime ∧
      options.targetTime ≤ options.targetTime * (1 + options.variancePercent / 100) := by
  obtain ⟨hv, -, ht, -⟩ := validate_exact h
  have hvar : 0 ≤ options.targetTime * (options.variancePercent / 100) := by positivity
  constructor <;> linarith

/-- A retarget: the time has come, and the average is out of range. -/
theorem keeps_exact {ts lastRtc avg : ℚ}
    (h : keeps .fin options.exact (.fin ts) (.fin lastRtc) (.fin avg) = false) :
    options.retargetTime ≤ ts - lastRtc ∧
      (avg < options.targetTime * (1 - options.variancePercent / 100) ∨
        options.targetTime * (1 + options.variancePercent / 100) < avg) := by
  have hretarget : options.exact.retargetTime = .fin options.retargetTime := rfl
  simp only [keeps, tMin_exact, tMax_exact, hretarget, Double.sub_fin, Double.lt_fin,
    Double.le_fin, Bool.or_eq_false_iff, decide_eq_false_iff_not, not_lt, Bool.and_eq_false_iff,
    not_le] at h
  exact h

/-! ## The average -/

theorem timestamp_exact (milliseconds : ℤ) :
    timestamp .fin milliseconds = .fin (milliseconds / 1000) := by
  unfold timestamp
  rw [Double.quot_fin _ (by norm_num)]

/-- A length of time. -/
def Nonneg (x : Double) : Prop := ∃ q : ℚ, x = .fin q ∧ 0 ≤ q

theorem nonneg_foldl_add {xs : List Double} (h : ∀ x ∈ xs, Nonneg x) {x : Double} (hx : Nonneg x) :
    Nonneg (xs.foldl (Double.add .fin) x) := by
  induction xs generalizing x with
  | nil => exact hx
  | cons y ys ih =>
    obtain ⟨q, rfl, hq⟩ := hx
    obtain ⟨r, rfl, hr⟩ := h _ List.mem_cons_self
    exact ih (fun z hz => h z (List.mem_cons_of_mem _ hz)) ⟨q + r, rfl, add_nonneg hq hr⟩

/-- The average of lengths of time is one. -/
theorem nonneg_average {b : CircularBuffer Double} {xs : List Double} (hb : b.Keeps xs)
    (hxs : ∀ x ∈ xs, Nonneg x) {sinceLast : Double} (hsince : Nonneg sinceLast) :
    Nonneg (average .fin b sinceLast) := by
  have henum : ∀ x ∈ b.enumerate, Nonneg x := by
    rw [hb.enumerate_eq]
    split
    · rintro x hx
      rw [List.eq_of_mem_replicate hx]
      exact ⟨0, rfl, le_rfl⟩
    · exact hxs
  obtain ⟨total, htotal, hpos⟩ := nonneg_foldl_add henum ⟨0, rfl, le_rfl⟩
  obtain ⟨since, rfl, hs⟩ := hsince
  have hsize : (0 : ℚ) < (b.size : ℚ) + 1 := by positivity
  refine ⟨(total + since) / (b.size + 1), ?_, div_nonneg (add_nonneg hpos hs) hsize.le⟩
  unfold average sum
  rw [htotal, Double.add_fin, Double.quot_fin _ hsize.ne']

/-- The average that a call compares with the target, of a context that has seen one before. -/
def VarDiffContext.averageAt (rnd : ℚ → Double) (ctx : VarDiffContext) (milliseconds : ℤ) :
    Option Double :=
  match ctx.lastTs, ctx.timeBuffer with
  | some lastTs, some timeBuffer =>
    some (average rnd timeBuffer (.sub rnd (timestamp rnd milliseconds) lastTs))
  | _, _ => none

/-! ## Contexts and the calls they have seen -/

/-- A context, with the times of the last call and of the last retarget, or of the first call. -/
structure Timeline where
  context : VarDiffContext
  lastCall : Option ℤ
  lastRetarget : Option ℤ

/-- A context without calls. -/
def Timeline.init : Timeline := ⟨.init, none, none⟩

/-- One call. -/
def step (rnd : ℚ → Double) (options : VarDiffConfig Double) (s : Timeline) (call : Call) :
    Option Timeline :=
  match update rnd options call s.context with
  | .error _ => none
  | .ok (newDiff, ctx) => some {
      context := ctx
      lastCall := some call.milliseconds
      lastRetarget :=
        if s.lastRetarget.isNone || newDiff.isSome then some call.milliseconds else s.lastRetarget }

/-- The clock does not go back. -/
def InOrder (s : Timeline) (call : Call) : Prop := ∀ m ∈ s.lastCall, m ≤ call.milliseconds

instance (s : Timeline) (call : Call) : Decidable (InOrder s call) :=
  inferInstanceAs (Decidable (∀ m ∈ s.lastCall, m ≤ call.milliseconds))

/-- A context that has seen calls in the order of time. -/
inductive Timed (s : Timeline) : Prop where
  | fresh (hlast : s.context.lastTs = none) (hretarget : s.lastRetarget = none)
  | started (share last retarget : ℤ) (b : CircularBuffer Double) (xs : List Double)
      (hlast : s.lastCall = some last) (hretarget : s.lastRetarget = some retarget)
      (hts : s.context.lastTs = some (.fin (share / 1000))) (hshare : share ≤ last)
      (hrtc : s.context.lastRtc = .fin (retarget / 1000)) (hbuffer : s.context.timeBuffer = some b)
      (hb : b.Keeps xs) (hxs : ∀ x ∈ xs, Nonneg x)

theorem timed_init : Timed .init := .fresh rfl rfl

/-- The time since the last share, at a call that is in order. -/
theorem sinceLast_exact {s : Timeline} {call : Call} {share last : ℤ}
    (hlast : s.lastCall = some last) (hshare : share ≤ last) (horder : InOrder s call) :
    Double.sub .fin (timestamp .fin call.milliseconds) (.fin (share / 1000)) =
        .fin ((call.milliseconds - share) / 1000) ∧
      (0 : ℚ) ≤ (call.milliseconds - share) / 1000 := by
  have hle : share ≤ call.milliseconds := hshare.trans (horder last hlast)
  rw [timestamp_exact, Double.sub_fin, ← sub_div]
  exact ⟨rfl, div_nonneg (sub_nonneg.mpr (Int.cast_le.mpr hle)) (by norm_num)⟩

/-- Storing the time of a share keeps the times in order. -/
theorem timed_record {s : Timeline} {call : Call} {share last retarget : ℤ}
    {b : CircularBuffer Double} {xs : List Double} (hlast : s.lastCall = some last)
    (hretarget : s.lastRetarget = some retarget)
    (hts : s.context.lastTs = some (.fin (share / 1000))) (hshare : share ≤ last)
    (hrtc : s.context.lastRtc = .fin (retarget / 1000)) (hbuffer : s.context.timeBuffer = some b)
    (hb : b.Keeps xs) (hxs : ∀ x ∈ xs, Nonneg x) (horder : InOrder s call) {sinceLast : Double}
    (hsince : Nonneg sinceLast) :
    Timed ⟨s.context.record b sinceLast (timestamp .fin call.milliseconds) call.isIdleUpdate,
      some call.milliseconds, s.lastRetarget⟩ := by
  have hle : share ≤ call.milliseconds := hshare.trans (horder last hlast)
  unfold VarDiffContext.record
  split
  · exact .started share _ retarget b xs rfl hretarget hts hle hrtc hbuffer hb hxs
  · refine .started call.milliseconds _ retarget _ _ rfl hretarget ?_ le_rfl hrtc rfl
      (CircularBuffer.keeps_pushBack hb sinceLast) fun x hx => ?_
    · rw [timestamp_exact]
    · rcases List.mem_append.mp (List.mem_of_mem_drop hx) with hx | hx
      · exact hxs x hx
      · exact List.mem_singleton.mp hx ▸ hsince

/-- A retarget starts over, at the time of its call. -/
theorem timed_retarget {ctx : VarDiffContext} {call : Call} {share : ℤ}
    (hts : ctx.lastTs = some (.fin (share / 1000))) (hshare : share ≤ call.milliseconds) :
    Timed ⟨{ ctx with
        lastRtc := timestamp .fin call.milliseconds
        lastUpdate := some call.now
        timeBuffer := some emptyBuffer }, some call.milliseconds, some call.milliseconds⟩ :=
  .started share _ call.milliseconds emptyBuffer [] rfl rfl hts hshare
    (timestamp_exact call.milliseconds) rfl keeps_emptyBuffer nofun

variable (options) in
/-- A call in order is answered, and keeps the times in order. -/
theorem timed_step {s : Timeline} {call : Call} (h : Timed s) (horder : InOrder s call) :
    ∃ s', step .fin options.exact s call = some s' ∧ Timed s' := by
  cases h with
  | fresh hlast hretarget =>
    unfold step
    rw [update_first hlast]
    refine ⟨_, rfl, ?_⟩
    simp only [hretarget, Option.isNone_none, Bool.true_or, if_true]
    exact .started call.milliseconds _ call.milliseconds emptyBuffer [] rfl rfl
      (congrArg some (timestamp_exact call.milliseconds)) le_rfl
      (timestamp_exact call.milliseconds) rfl keeps_emptyBuffer nofun
  | started share last retarget b xs hlast hretarget hts hshare hrtc hbuffer hb hxs =>
    obtain ⟨hsince, hpos⟩ := sinceLast_exact hlast hshare horder
    have hrecord := timed_record hlast hretarget hts hshare hrtc hbuffer hb hxs horder
      ⟨_, hsince, hpos⟩
    unfold step
    rcases update_retargets_or_records .fin options.exact call hts hbuffer with
      ⟨newDiff, hupdate⟩ | hupdate
    · rw [hupdate]
      refine ⟨_, rfl, ?_⟩
      simp only [Option.isSome_some, Bool.or_true, if_true]
      cases hrecord with
      | fresh _ hnone => exact nomatch hretarget.symm.trans hnone
      | started share' _ _ _ _ hlast' _ hts' hshare' =>
        exact timed_retarget hts' (Option.some.inj hlast' ▸ hshare')
    · rw [hupdate]
      refine ⟨_, rfl, ?_⟩
      simp only [hretarget, Option.isNone_some, Option.isSome_none, Bool.or_self,
        Bool.false_eq_true, if_false]
      rwa [hretarget] at hrecord

/-- Every context that calls in order reach is timed. -/
theorem timed_of_run {calls : List Call} {s : Timeline}
    (horder : Along (step .fin options.exact) InOrder .init calls)
    (hrun : run (step .fin options.exact) .init calls = some s) : Timed s :=
  run_invariant (fun s call s' h ho hs => by
    obtain ⟨t, ht, htimed⟩ := timed_step options h ho
    exact Option.some.inj (ht.symm.trans hs) ▸ htimed) timed_init horder hrun

/-- What a call that retargets has found. -/
theorem update_timed {s : Timeline} {call : Call} (h : Timed s) (horder : InOrder s call)
    {ctx' : VarDiffContext} {x : Double}
    (hupdate : update .fin options.exact call s.context = .ok (some x, ctx')) :
    ∃ (avg : ℚ) (retarget : ℤ), 0 ≤ avg ∧
      s.context.averageAt .fin call.milliseconds = some (.fin avg) ∧
      s.lastRetarget = some retarget ∧
      keeps .fin options.exact (timestamp .fin call.milliseconds) (.fin (retarget / 1000))
        (.fin avg) = false ∧
      x = newDifficulty .fin options.exact call.difficulty (.fin avg) ∧
      (x.lt call.difficulty || call.difficulty.lt x) = true := by
  cases h with
  | fresh hlast hretarget =>
    rw [update_first hlast] at hupdate
    exact nomatch hupdate
  | started share last retarget b xs hlast hretarget hts hshare hrtc hbuffer hb hxs =>
    obtain ⟨hsince, hpos⟩ := sinceLast_exact hlast hshare horder
    obtain ⟨avg, havg, hnonneg⟩ := nonneg_average hb hxs ⟨_, hsince, hpos⟩
    rw [update_later hts hbuffer] at hupdate
    split at hupdate
    · rename_i hnew
      cases hupdate
      rw [havg, hrtc] at hnew
      refine ⟨avg, retarget, hnonneg, ?_, hretarget, hnew.1, by rw [havg], ?_⟩
      · unfold VarDiffContext.averageAt
        rw [hts, hbuffer]
        exact congrArg some havg
      · rw [havg]
        exact hnew.2
    · exact nomatch hupdate

/-- **Retargets are sane**, of every context that calls in the order of time have reached. The call
is answered, and a new difficulty is in range, at most `MaxDelta` from the old one, no earlier than
`RetargetTime` after the last retarget or the first call, and moves against the average. -/
theorem update_sane (hvalid : options.exact.validate = []) {calls : List Call} {s : Timeline}
    (horder : Along (step .fin options.exact) InOrder .init calls)
    (hrun : run (step .fin options.exact) .init calls = some s) {call : Call}
    (hcall : InOrder s call) {d : ℚ} (hd : call.difficulty = .fin d) (hpos : 0 < d)
    (hmin : options.minDiff ≤ d) (hmax : d ≤ options.upper) :
    ∃ newDiff ctx', update .fin options.exact call s.context = .ok (newDiff, ctx') ∧
      ∀ x, newDiff = some x → ∃ (w avg : ℚ) (retarget : ℤ), x = .fin w ∧
        s.context.averageAt .fin call.milliseconds = some (.fin avg) ∧
        s.lastRetarget = some retarget ∧
        (options.minDiff ≤ w ∧ w ≤ options.upper) ∧
        (∀ δ, options.maxDelta = some δ → 0 < δ → |w - d| ≤ δ) ∧
        options.retargetTime ≤ ((call.milliseconds : ℚ) - retarget) / 1000 ∧
        (d < w → avg < options.targetTime * (1 - options.variancePercent / 100)) ∧
        (w < d → options.targetTime * (1 + options.variancePercent / 100) < avg) := by
  have htimed := timed_of_run horder hrun
  obtain ⟨ht, ht'⟩ := targetTime_mem hvalid
  have htarget : 0 < options.targetTime := (validate_exact hvalid).2.2.1
  obtain ⟨s', hs', -⟩ := timed_step options htimed hcall
  cases hupdate : update .fin options.exact call s.context with
  | error e =>
    unfold step at hs'
    rw [hupdate] at hs'
    exact nomatch hs'
  | ok result =>
    obtain ⟨newDiff, ctx'⟩ := result
    refine ⟨newDiff, ctx', rfl, ?_⟩
    rintro x rfl
    obtain ⟨avg, retarget, hnonneg, havg, hretarget, hkeeps, hx, hne⟩ :=
      update_timed htimed hcall hupdate
    rw [timestamp_exact] at hkeeps
    obtain ⟨htime, hout⟩ := keeps_exact hkeeps
    rw [hd] at hx
    rcases newDifficulty_exact htarget hpos hmin hmax hnonneg with hnan | ⟨w, hw, hsane⟩
    · -- NaN is neither below nor above the old difficulty
      rw [hx, hnan, hd] at hne
      exact nomatch hne
    · refine ⟨w, avg, retarget, hx.trans hw, havg, hretarget, hsane.range, hsane.delta, ?_, ?_, ?_⟩
      · rw [sub_div]
        exact htime
      · exact fun h => hout.resolve_right fun h' =>
          absurd (hsane.up h) (not_lt_of_ge (ht'.trans h'.le))
      · exact fun h => hout.resolve_left fun h' =>
          absurd (hsane.down h) (not_lt_of_ge (h'.le.trans ht))

/-- One share every fifteen seconds, give or take 30 percent. -/
def sampleOptions : VarDiffConfig ℚ where
  minDiff := 1000
  maxDiff := some 10000
  maxDelta := some 1000
  targetTime := 15
  retargetTime := 15
  variancePercent := 30

/-- A share, or an idle update, at a difficulty of 7500. -/
def sampleCall (isIdleUpdate : Bool) (milliseconds : ℤ) : Call where
  difficulty := .fin 7500
  isIdleUpdate := isIdleUpdate
  milliseconds := milliseconds
  now := 0

theorem update_sane_fast : ∃ s newDiff ctx',
    run (step .fin sampleOptions.exact) .init
      [sampleCall false 0, sampleCall false 10000] = some s ∧
    update .fin sampleOptions.exact (sampleCall false 20000) s.context = .ok (newDiff, ctx') ∧
    newDiff = some (.fin 8500) ∧
    ∀ x, newDiff = some x → ∃ (w avg : ℚ) (retarget : ℤ), x = .fin w ∧
      s.context.averageAt .fin 20000 = some (.fin avg) ∧ s.lastRetarget = some retarget ∧
      (1000 ≤ w ∧ w ≤ 10000) ∧ (∀ δ, some (1000 : ℚ) = some δ → 0 < δ → |w - 7500| ≤ δ) ∧
      15 ≤ ((20000 : ℤ) - (retarget : ℚ)) / 1000 ∧ (7500 < w → avg < 15 * (1 - 30 / 100)) ∧
      (w < 7500 → 15 * (1 + 30 / 100) < avg) := by
  have hanswer : ((run (step .fin sampleOptions.exact) .init
      [sampleCall false 0, sampleCall false 10000]).bind fun s =>
        (update .fin sampleOptions.exact (sampleCall false 20000) s.context).toOption.map
          Prod.fst) = some (some (.fin 8500)) := by
    decide +kernel
  obtain ⟨s, hrun, hfst⟩ := Option.bind_eq_some_iff.mp hanswer
  have hcall : InOrder s (sampleCall false 20000) := by
    have h : ((run (step .fin sampleOptions.exact) .init
        [sampleCall false 0, sampleCall false 10000]).all fun s =>
          decide (InOrder s (sampleCall false 20000))) = true := by
      decide +kernel
    rw [hrun] at h
    exact of_decide_eq_true h
  obtain ⟨newDiff, ctx', hupdate, hsane⟩ := update_sane (d := 7500)
    (by decide +kernel) (by decide +kernel) hrun hcall rfl (by norm_num) (by decide +kernel)
    (by decide +kernel)
  refine ⟨s, newDiff, ctx', hrun, hupdate, ?_, hsane⟩
  rw [hupdate] at hfst
  exact Option.some.inj hfst

end AionPool.VarDiff
