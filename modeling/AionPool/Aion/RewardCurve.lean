import AionPool.Aion.Classify
import Mathlib.Data.List.Range
import Mathlib.Tactic.Linarith
import Mathlib.Tactic.NormNum

/-!
# The reward curves

The constructor of `AionRewardsCalculator` fills a table in a loop, entry `i` for a timespan of
`i + 1` seconds, and `calculateRewardWithTimeSpan` reads it one entry before the timespan, the last
entry from `capping` on. `calculateReward` climbs with a slope that is a quotient. Decimals are
exact here.

* `create_eq`: the loop writes every entry of the table, each once.
* `calculateRewardWithTimeSpan_eq`: no index is out of range, and the result is the one that
  `ClassifyBlocksAsync` is modelled with.
* `calculateReward_eq_ramp`: the ramp and the constant part are one curve, cut off at its end.
* **`reward_curves`**: what both functions pay, for every timespan and every height.

Models `AionRewardsCalculator.cs:9-53`. Out of scope: the rounding of decimals.
-/

namespace AionPool.Aion.RewardCurve

open AionRewardsCalculator (blockReward capping magnitude rewardsAdjustTable calculateReward)

/-! ## The table -/

section Table

variable {α : Type}

/-- `table[index] = value`. -/
def setEntry (table : List α) (index : ℤ) (value : α) : Except Exn (List α) :=
  if 0 ≤ index ∧ index < table.length then .ok (table.set index.toNat value)
  else .error .indexOutOfRange

/-- `table[index]`. -/
def getEntry (table : List α) (index : ℤ) : Except Exn α :=
  if 0 ≤ index then
    match table[index.toNat]? with
    | some value => .ok value
    | none => .error .indexOutOfRange
  else .error .indexOutOfRange

theorem setEntry_of_length (done : List α) (old value : α) (rest : List α) :
    setEntry (done ++ old :: rest) done.length value = .ok (done ++ value :: rest) := by
  have hin : (0 : ℤ) ≤ done.length ∧ (done.length : ℤ) < (done ++ old :: rest).length := by
    rw [List.length_append, List.length_cons]
    omega
  unfold setEntry
  rw [if_pos hin, Int.toNat_natCast, List.set_append_right _ _ le_rfl, Nat.sub_self,
    List.set_cons_zero]

theorem getEntry_of_getElem? {table : List α} {i : ℕ} {value : α} (h : table[i]? = some value) :
    getEntry table i = .ok value := by
  unfold getEntry
  rw [if_pos (Int.natCast_nonneg i), Int.toNat_natCast, h]

end Table

/-! ## `AionRewardsCalculator` -/

def expectedBlockTime : ℚ := 10

/-- The slope over `divisor` is 0.4. -/
def rewardsSlope : ℚ := 4

def divisor : ℚ := 10

def baseline : ℚ := blockReward * (divisor - rewardsSlope) / divisor

/-- What the loop writes at `i`. -/
def adjusted (i : ℕ) : ℚ :=
  blockReward * (i + 1) * rewardsSlope / divisor / expectedBlockTime + baseline

/-- The loop, from `i` on. -/
def fillTable : ℕ → ℕ → List ℚ → Except Exn (List ℚ)
  | 0, _, table => .ok table
  | rounds + 1, i, table => do
    let table ← setEntry table i (adjusted i)
    fillTable rounds (i + 1) table

/-- The constructor. -/
def create : Except Exn (List ℚ) := fillTable capping 0 (List.replicate capping 0)

/-- `calculateRewardWithTimeSpan`, with the table of the constructor. -/
def calculateRewardWithTimeSpan (table : List ℚ) (timeSpan : Int64) : Except Exn ℚ :=
  if timeSpan.toInt ≤ 0 then .error (.exception "The block timespan should be at least 1 sec.")
  else do
    let entry ← getEntry table
      (if (capping : ℤ) < timeSpan.toInt then capping - 1 else timeSpan.toInt - 1)
    .ok (entry / magnitude)

/-! ## Rewards of a timespan -/

theorem adjusted_eq (i : ℕ) : adjusted i = rewardsAdjustTable i := rfl

/-- Every round of the loop writes the next entry. -/
theorem fillTable_eq (done rest : List ℚ) :
    fillTable rest.length done.length (done ++ rest) =
      .ok (done ++ (List.range' done.length rest.length).map adjusted) := by
  induction rest generalizing done with
  | nil => rfl
  | cons old rest ih =>
    have ih := ih (done ++ [adjusted done.length])
    rw [List.length_append, List.length_singleton, List.append_assoc, List.append_assoc] at ih
    rw [List.length_cons, fillTable, setEntry_of_length, ok_bind, List.range'_succ, List.map_cons]
    exact ih

/-- **The constructor fills the table.** -/
theorem create_eq : create = .ok ((List.range capping).map rewardsAdjustTable) := by
  have hfill := fillTable_eq [] (List.replicate capping 0)
  rw [List.length_replicate, List.nil_append, List.nil_append, List.length_nil,
    ← List.range_eq_range', funext adjusted_eq] at hfill
  exact hfill

/-- The entry that is read is in the table. -/
theorem getEntry_table {index : ℕ} (h : index < capping) :
    getEntry ((List.range capping).map rewardsAdjustTable) index =
      .ok (rewardsAdjustTable index) := by
  refine getEntry_of_getElem? ?_
  rw [List.getElem?_map, List.getElem?_range h]
  rfl

/-- **The table is read where it was written**: the result is the one in closed form. -/
theorem calculateRewardWithTimeSpan_eq {table : List ℚ} (h : create = .ok table)
    (timeSpan : Int64) : calculateRewardWithTimeSpan table timeSpan =
      AionRewardsCalculator.calculateRewardWithTimeSpan timeSpan := by
  obtain rfl : table = (List.range capping).map rewardsAdjustTable :=
    Except.ok.inj (h.symm.trans create_eq)
  unfold calculateRewardWithTimeSpan AionRewardsCalculator.calculateRewardWithTimeSpan
  by_cases hpos : timeSpan.toInt ≤ 0
  · rw [if_pos hpos, if_pos hpos]
  · have hcapping : capping = 125 := rfl
    rw [if_neg hpos, if_neg hpos]
    by_cases hcap : (capping : ℤ) < timeSpan.toInt
    · have hindex : (capping : ℤ) - 1 = ((capping - 1 : ℕ) : ℤ) := by omega
      rw [if_pos hcap, if_pos (by omega), hindex, getEntry_table (by omega)]
      rfl
    · have hindex : timeSpan.toInt - 1 = ((timeSpan.toInt.toNat - 1 : ℕ) : ℤ) := by omega
      rw [if_neg hcap, if_neg (by omega), hindex, getEntry_table (by omega)]
      rfl

/-- What a timespan pays, in coins. -/
def timeSpanReward (timeSpan : ℤ) : ℚ :=
  blockReward * (6 + 0.4 * (min timeSpan capping : ℤ)) / 10 / magnitude

theorem rewardsAdjustTable_eq (i : ℕ) :
    rewardsAdjustTable i = blockReward * (6 + 0.4 * (i + 1)) / 10 := by
  unfold rewardsAdjustTable
  norm_num
  ring

/-- The closed form of the table, up to the cap. -/
theorem calculateRewardWithTimeSpan_of_pos {timeSpan : Int64} (h : 0 < timeSpan.toInt) :
    AionRewardsCalculator.calculateRewardWithTimeSpan timeSpan =
      .ok (timeSpanReward timeSpan.toInt) := by
  have hcapping : capping = 125 := rfl
  unfold AionRewardsCalculator.calculateRewardWithTimeSpan timeSpanReward
  rw [if_neg (not_le.mpr h), rewardsAdjustTable_eq]
  by_cases hcap : capping < timeSpan.toInt.toNat
  · have hmin : min timeSpan.toInt capping = ((capping - 1 : ℕ) : ℤ) + 1 := by omega
    rw [if_pos hcap, hmin, Int.cast_add, Int.cast_natCast, Int.cast_one]
  · have hmin : min timeSpan.toInt capping = ((timeSpan.toInt.toNat - 1 : ℕ) : ℤ) + 1 := by omega
    rw [if_neg hcap, hmin, Int.cast_add, Int.cast_natCast, Int.cast_one]

theorem calculateRewardWithTimeSpan_of_not_pos {timeSpan : Int64} (h : ¬ 0 < timeSpan.toInt) :
    AionRewardsCalculator.calculateRewardWithTimeSpan timeSpan =
      .error (.exception "The block timespan should be at least 1 sec.") := if_pos (not_lt.mp h)

/-- A longer timespan pays no less. -/
theorem timeSpanReward_mono {t t' : ℤ} (h : t ≤ t') : timeSpanReward t ≤ timeSpanReward t' := by
  have hmin : ((min t capping : ℤ) : ℚ) ≤ (min t' capping : ℤ) :=
    Int.cast_le.mpr (min_le_min_right _ h)
  unfold timeSpanReward blockReward magnitude
  linarith

/-! ## Rewards of a height -/

/-- Where the ramp ends. -/
def rampUpUpperBound : ℤ := 259200

def rampUpStartValue : ℚ := 748994641621655092

/-- The ramp, in coins. -/
def ramp (height : ℤ) : ℚ :=
  ((blockReward - rampUpStartValue) / rampUpUpperBound * height + rampUpStartValue) / magnitude

/-- The ramp ends at the constant reward. -/
theorem ramp_end : ramp rampUpUpperBound = blockReward / magnitude := by
  unfold ramp
  rw [div_mul_cancel₀ _ (by unfold rampUpUpperBound; norm_num), sub_add_cancel]

theorem ramp_end_eq : ramp rampUpUpperBound = 4.5 := by
  rw [ramp_end]
  unfold blockReward magnitude
  norm_num

theorem ramp_mono {h h' : ℤ} (hle : h ≤ h') : ramp h ≤ ramp h' := by
  have hcast : (h : ℚ) ≤ h' := Int.cast_le.mpr hle
  unfold ramp blockReward rampUpStartValue rampUpUpperBound magnitude
  linarith

/-- The two parts are one curve, which stays where the ramp ends. -/
theorem calculateReward_eq_ramp (height : Int64) :
    calculateReward height = ramp (min height.toInt rampUpUpperBound) := by
  unfold calculateReward
  by_cases h : height.toInt ≤ 259200
  · have hmin : min height.toInt rampUpUpperBound = height.toInt := min_eq_left h
    rw [if_pos h, hmin]
    unfold ramp rampUpUpperBound rampUpStartValue
    norm_num
  · have hmin : min height.toInt rampUpUpperBound = rampUpUpperBound :=
      min_eq_right (not_le.mp h).le
    rw [if_neg h, hmin, ramp_end]

theorem calculateReward_mono {h h' : Int64} (hle : h ≤ h') :
    calculateReward h ≤ calculateReward h' := by
  rw [calculateReward_eq_ramp, calculateReward_eq_ramp]
  exact ramp_mono (min_le_min_right _ (Int64.le_iff_toInt_le.mp hle))

theorem calculateReward_le (h : Int64) : calculateReward h ≤ 4.5 := by
  rw [calculateReward_eq_ramp, ← ramp_end_eq]
  exact ramp_mono (min_le_right _ _)

theorem calculateReward_of_end_le {h : Int64} (hend : rampUpUpperBound ≤ h.toInt) :
    calculateReward h = 4.5 := by
  rw [calculateReward_eq_ramp, min_eq_right hend, ramp_end_eq]

/-- **The reward curves.** A timespan is refused exactly if it is not positive, and pays along the
capped line otherwise, which never falls; the reward of a height is that of the ramp, cut off at its
end, where the ramp meets the constant part. It never falls and never exceeds the reward there. -/
theorem reward_curves :
    (∃ table, create = .ok table ∧
      (∀ timeSpan : Int64,
        ((∃ e, calculateRewardWithTimeSpan table timeSpan = .error e) ↔ timeSpan.toInt ≤ 0) ∧
        calculateRewardWithTimeSpan table timeSpan ≠ .error .indexOutOfRange ∧
        (0 < timeSpan.toInt → calculateRewardWithTimeSpan table timeSpan =
          .ok (timeSpanReward timeSpan.toInt))) ∧
      ∀ h₁ h₂ : Int64, 0 ≤ h₁ → h₁ ≤ h₂ →
        calculateReward h₁ ≤ calculateReward h₂ ∧ calculateReward h₂ ≤ 4.5 ∧
          (rampUpUpperBound ≤ h₂.toInt → calculateReward h₂ = 4.5)) ∧
    (∀ t t' : ℤ, t ≤ t' → timeSpanReward t ≤ timeSpanReward t') ∧
    (∀ h : Int64, calculateReward h = ramp (min h.toInt rampUpUpperBound)) ∧
    ramp rampUpUpperBound = 4.5 := by
  refine ⟨⟨_, create_eq, fun timeSpan => ?_, fun h₁ h₂ _ hle => ?_⟩,
    fun _ _ => timeSpanReward_mono, calculateReward_eq_ramp, ramp_end_eq⟩
  · rw [calculateRewardWithTimeSpan_eq create_eq]
    by_cases hpos : 0 < timeSpan.toInt
    · have hpays := calculateRewardWithTimeSpan_of_pos hpos
      rw [hpays]
      exact ⟨iff_of_false nofun (not_le.mpr hpos), nofun, fun _ => rfl⟩
    · have hrefused := calculateRewardWithTimeSpan_of_not_pos hpos
      rw [hrefused]
      exact ⟨iff_of_true ⟨_, rfl⟩ (not_lt.mp hpos), nofun, fun h => absurd h hpos⟩
  · exact ⟨calculateReward_mono hle, calculateReward_le h₂, calculateReward_of_end_le⟩

end AionPool.Aion.RewardCurve
