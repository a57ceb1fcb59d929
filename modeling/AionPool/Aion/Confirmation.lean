import AionPool.Aion.Classify

/-!
# When a block is confirmed or given up

`ClassifyBlocksAsync` compares `latest - height`, a difference of unsigned numbers that wraps when
the latest height is the smaller one, with a number of confirmations that may be zero or negative.

* `confirmationProgress_eq`: the progress, when there are confirmations to wait for.
* **`classified_sound_iff`**: no block is confirmed or given up early, and every progress is between
  0 and 1, exactly when every block meets `InOrder`: the latest height is not below the block's, or
  the wrapped difference stays below the threshold it is compared with.

About `AionPayoutHandler.cs:110-193`.
-/

namespace AionPool.Aion

open AionPool.Configuration AionPool.Persistence AionPool.Daemon
open AionPool.Lib.Binary64

/-- The confirmations of the configuration, as an integer. -/
def confirmations (pool : PoolConfig) : ℤ :=
  pool.paymentProcessing.extra.minimumConfirmations.toInt

/-- The block was mined by the pool. -/
def Classified.Mine (pool : PoolConfig) (r : Classified) : Prop :=
  r.blockInfo.miner = some pool.address

/-- The latest height minus the block's height, as integers. -/
def Classified.age (r : Classified) : ℤ := r.latest.toNat - r.stored.blockHeight.toNat

/-- What the code computes of it. -/
def Classified.wrapped (r : Classified) : ℕ := (r.latest - r.stored.blockHeight).toNat

/-- Nothing early: confirmed only mature and ours, orphaned only past three quarters of the
confirmations and not ours, and a progress between 0 and 1. -/
structure Classified.NotEarly (pool : PoolConfig) (r : Classified) : Prop where
  confirmed : r.block.status = .confirmed → confirmations pool ≤ r.age ∧ r.Mine pool
  orphaned : r.block.status = .orphaned → 3 * confirmations pool < 4 * r.age ∧ ¬ r.Mine pool
  progress : Double.le (.fin 0) r.block.confirmationProgress = true ∧
    Double.le r.block.confirmationProgress (.fin 1) = true

/-- With confirmations to wait for: the heights are in order, or the wrapped difference stays below
the threshold. -/
def Classified.InOrder (pool : PoolConfig) (r : Classified) : Prop :=
  let m := confirmations pool
  (0 < m ∧ (r.stored.blockHeight ≤ r.latest ∨ (r.Mine pool ∧ r.wrapped < m) ∨
      (¬ r.Mine pool ∧ 4 * r.wrapped ≤ 3 * m))) ∨
    (m = 0 ∧ r.stored.blockHeight ≤ r.latest ∧ (r.Mine pool ∨ r.stored.blockHeight < r.latest)) ∨
    (m < 0 ∧ (r.stored.blockHeight = r.latest ∨ (r.Mine pool ∧ 2 ^ 64 + m ≤ r.wrapped)))

/-! ## The arithmetic of the code -/

theorem wrapped_eq (r : Classified) : (r.wrapped : ℤ) =
    if r.stored.blockHeight ≤ r.latest then r.age else 2 ^ 64 + r.age := by
  unfold Classified.wrapped Classified.age
  rw [UInt64.toNat_sub]
  have h₁ := r.latest.toNat_lt
  have h₂ := r.stored.blockHeight.toNat_lt
  split
  · rename_i h
    rw [UInt64.le_iff_toNat_le] at h
    omega
  · rename_i h
    rw [UInt64.le_iff_toNat_le] at h
    omega

/-- The cast of the confirmations to an unsigned number. -/
theorem toNat_toUInt64 (m : Int32) :
    (m.toInt64.toUInt64.toNat : ℤ) = if 0 ≤ m.toInt then m.toInt else 2 ^ 64 + m.toInt := by
  have h : m.toInt64.toBitVec.toInt = m.toInt := Int32.toInt_toInt64 m
  have hlt := m.toInt64.toUInt64.toNat_lt
  rw [BitVec.toInt_eq_toNat_cond, Int64.toNat_toBitVec] at h
  have := Int32.le_toInt m
  have := Int32.toInt_lt m
  split at h <;> split <;> omega

theorem mature_iff (pool : PoolConfig) (r : Classified) :
    mature r.latest r.stored.blockHeight pool.paymentProcessing.extra.minimumConfirmations = true ↔
      (if 0 ≤ confirmations pool then confirmations pool else 2 ^ 64 + confirmations pool) ≤
        r.wrapped := by
  unfold mature confirmations Classified.wrapped
  rw [decide_eq_true_iff, UInt64.le_iff_toNat_le, ← toNat_toUInt64]
  exact Int.ofNat_le.symm

/-! ## The progress -/

theorem nearest_natCast_bounds {x : ℕ} (hx : x < 2 ^ 64) :
    0 ≤ nearest x ∧ nearest x ≤ 2 ^ 64 := by
  refine ⟨nearest_nonneg (Nat.cast_nonneg x), ?_⟩
  have h : nearest (2 ^ 64) = 2 ^ 64 :=
    nearest_of_grid 1 64 (by norm_num) (by norm_num) (by norm_num)
  rw [← h]
  exact nearest_mono (by exact_mod_cast hx.le)

theorem ofRat_natCast {x : ℕ} (hx : x < 2 ^ 64) : Double.ofRat x = .fin (nearest x) := by
  obtain ⟨h₀, h₁⟩ := nearest_natCast_bounds hx
  refine Double.ofRat_of_nearest rfl ?_
  rw [abs_of_nonneg h₀]
  exact h₁.trans_lt (pow_lt_pow_right₀ (by norm_num) (by norm_num))

theorem one_le_nearest {x : ℕ} (hx : 0 < x) : 1 ≤ nearest x := by
  have h : nearest 1 = 1 := nearest_of_grid 1 0 (by norm_num) (by norm_num) (by norm_num)
  rw [← h]
  exact nearest_mono (by exact_mod_cast hx)

theorem one_le_abs_intCast {m : ℤ} (hm : m ≠ 0) : (1 : ℚ) ≤ |(m : ℚ)| := by
  exact_mod_cast Int.one_le_abs hm

/-- The quotient before it is capped. -/
def quotient (x : ℕ) (m : ℤ) : ℚ := nearest (nearest x / m)

theorem abs_quotient_lt {x : ℕ} (hx : x < 2 ^ 64) {m : ℤ} (hm : m ≠ 0) :
    |quotient x m| < 2 ^ 1024 := by
  obtain ⟨h₀, h₁⟩ := nearest_natCast_bounds hx
  have hle : |nearest x / (m : ℚ)| ≤ 2 ^ 64 := by
    rw [abs_div, abs_of_nonneg h₀]
    exact (div_le_self h₀ (one_le_abs_intCast hm)).trans h₁
  have hgrid : nearest (2 ^ 64) = 2 ^ 64 :=
    nearest_of_grid 1 64 (by norm_num) (by norm_num) (by norm_num)
  have hbound : |quotient x m| ≤ 2 ^ 64 := by
    obtain ⟨hlo, hhi⟩ := abs_le.mp hle
    unfold quotient
    rw [abs_le]
    constructor
    · have := nearest_mono hlo
      rwa [nearest_neg, hgrid] at this
    · have := nearest_mono hhi
      rwa [hgrid] at this
  exact hbound.trans_lt (pow_lt_pow_right₀ (by norm_num) (by norm_num))

/-- **The progress**, when the confirmations are not zero. -/
theorem confirmationProgress_eq (latest height : UInt64) {m : Int32} (hm : m.toInt ≠ 0) :
    confirmationProgress latest height m =
      .fin (min 1 (quotient (latest - height).toNat m.toInt)) := by
  have hx := (latest - height).toNat_lt
  unfold confirmationProgress
  rw [ofRat_natCast hx, Double.div_fin (by exact_mod_cast hm),
    Double.ofRat_of_nearest rfl (abs_quotient_lt hx hm), Double.min_fin]
  rfl

/-- Without confirmations to wait for, the quotient is infinite or NaN. -/
theorem confirmationProgress_zero (latest height : UInt64) {m : Int32} (hm : m.toInt = 0) :
    confirmationProgress latest height m =
      if (latest - height).toNat = 0 then .nan else .fin 1 := by
  have hx := (latest - height).toNat_lt
  unfold confirmationProgress
  rw [ofRat_natCast hx, hm, Double.div, if_pos Int.cast_zero]
  by_cases h : (latest - height).toNat = 0
  · rw [if_pos h, h, Nat.cast_zero, nearest_zero, if_pos rfl]
    rfl
  · have := one_le_nearest (Nat.pos_of_ne_zero h)
    rw [if_neg h, if_neg (by linarith), decide_eq_false (by linarith)]
    rfl

theorem quotient_nonneg (x : ℕ) {m : ℤ} (hm : 0 < m) : 0 ≤ quotient x m :=
  nearest_nonneg (div_nonneg (nearest_nonneg (Nat.cast_nonneg x)) (by exact_mod_cast hm.le))

/-- A negative number of confirmations makes the progress negative. -/
theorem quotient_neg_iff {x : ℕ} {m : ℤ} (hm : m < 0) (hlo : -2 ^ 31 ≤ m) :
    0 ≤ quotient x m ↔ x = 0 := by
  have hmq : (m : ℚ) < 0 := by exact_mod_cast hm
  constructor
  · intro h
    by_contra hx
    have hone := one_le_nearest (Nat.pos_of_ne_zero hx)
    have hle : nearest x / (m : ℚ) ≤ -(1 / 2 ^ 31) := by
      rw [div_le_iff_of_neg hmq]
      have : (-2 ^ 31 : ℚ) ≤ m := by exact_mod_cast hlo
      linarith
    have hgrid : nearest (-(1 / 2 ^ 31)) = -(1 / 2 ^ 31) :=
      nearest_of_grid (-1) (-31) (by norm_num [zpow_neg]) (by norm_num) (by norm_num)
    have := nearest_mono hle
    rw [hgrid] at this
    unfold quotient at h
    linarith [show (0 : ℚ) < 1 / 2 ^ 31 by norm_num]
  · rintro rfl
    simp [quotient]

/-- The comparison with three quarters is exact. -/
theorem three_quarters_lt_iff {x : ℕ} {m : ℤ} (hm : 0 < m) (hhi : m < 2 ^ 31) :
    3 / 4 < quotient x m ↔ 3 * m < 4 * x := by
  have hmq : (0 : ℚ) < m := by exact_mod_cast hm
  have hmhi : (m : ℚ) < 2 ^ 31 := by exact_mod_cast hhi
  unfold quotient
  constructor
  · intro h
    by_contra hx
    have hx' : (4 : ℚ) * x ≤ 3 * m := by exact_mod_cast not_lt.mp hx
    have hxlt : (x : ℤ) < 2 ^ 53 := by omega
    have hexact : nearest x = x := by
      refine nearest_of_grid x 0 (by simp) ?_ (by norm_num)
      rwa [Int.abs_natCast]
    have hle : (x : ℚ) / m ≤ 3 / 4 := by
      rw [div_le_iff₀ hmq]
      linarith
    have hgrid : nearest (3 / 4) = 3 / 4 :=
      nearest_of_grid 3 (-2) (by norm_num [zpow_neg]) (by norm_num) (by norm_num)
    have := nearest_mono hle
    rw [hgrid] at this
    rw [hexact] at h
    linarith
  · intro hx
    -- the quotient is above three quarters by more than a place it keeps
    have hgrid : nearest (3 / 4 + 1 / 2 ^ 33) = 3 / 4 + 1 / 2 ^ 33 :=
      nearest_of_grid (3 * 2 ^ 31 + 1) (-33) (by norm_num [zpow_neg]) (by norm_num) (by norm_num)
    have hle : 3 / 4 + 1 / 2 ^ 33 ≤ nearest x / (m : ℚ) := by
      rw [le_div_iff₀ hmq]
      rcases lt_or_ge x (2 ^ 53) with hsmall | hlarge
      · have hexact : nearest x = x := by
          refine nearest_of_grid x 0 (by simp) ?_ (by norm_num)
          rw [Int.abs_natCast]
          exact_mod_cast hsmall
        have hx' : (3 : ℚ) * m + 1 ≤ 4 * x := by exact_mod_cast hx
        rw [hexact]
        linarith
      · have hbig : nearest (2 ^ 53) = 2 ^ 53 :=
          nearest_of_grid 1 53 (by norm_num) (by norm_num) (by norm_num)
        have : (2 : ℚ) ^ 53 ≤ nearest x := by
          rw [← hbig]
          exact nearest_mono (by exact_mod_cast hlarge)
        linarith
    have := nearest_mono hle
    rw [hgrid] at this
    linarith [show (0 : ℚ) < 1 / 2 ^ 33 by norm_num]

/-! ## The two thresholds and the progress, over the integers -/

section Thresholds

variable {pool : PoolConfig} {r : Classified}

/-- The progress the code computes for the block. -/
def Classified.progressOf (pool : PoolConfig) (r : Classified) : Double :=
  confirmationProgress r.latest r.stored.blockHeight
    pool.paymentProcessing.extra.minimumConfirmations

theorem progressOf_of_ne_zero (hm : confirmations pool ≠ 0) :
    r.progressOf pool = .fin (min 1 (quotient r.wrapped (confirmations pool))) :=
  confirmationProgress_eq r.latest r.stored.blockHeight hm

theorem progressOf_of_zero (hm : confirmations pool = 0) :
    r.progressOf pool = if r.wrapped = 0 then .nan else .fin 1 :=
  confirmationProgress_zero r.latest r.stored.blockHeight hm

theorem quotient_nonpos {x : ℕ} (hm : confirmations pool < 0) :
    quotient x (confirmations pool) ≤ 0 := by
  by_contra h
  have hx := (quotient_neg_iff hm (Int32.le_toInt _)).mp (not_le.mp h).le
  rw [hx] at h
  simp [quotient] at h

/-- When the progress is between 0 and 1. -/
theorem unit_progressOf_iff :
    (Double.le (.fin 0) (r.progressOf pool) = true ∧
        Double.le (r.progressOf pool) (.fin 1) = true) ↔
      0 < confirmations pool ∨ (confirmations pool = 0 ∧ r.wrapped ≠ 0) ∨
        (confirmations pool < 0 ∧ r.wrapped = 0) := by
  rcases lt_trichotomy (confirmations pool) 0 with hm | hm | hm
  · rw [progressOf_of_ne_zero hm.ne, min_eq_right ((quotient_nonpos hm).trans zero_le_one)]
    have hq := quotient_neg_iff (x := r.wrapped) hm (Int32.le_toInt _)
    have hle := (quotient_nonpos (x := r.wrapped) hm).trans zero_le_one
    simp only [Double.le, decide_eq_true_eq, hq, hle, and_true]
    omega
  · rw [progressOf_of_zero hm]
    split
    · rename_i hx
      simp [Double.le, hm, hx]
    · rename_i hx
      simp [Double.le, hm, hx]
  · rw [progressOf_of_ne_zero hm.ne']
    simp [Double.le, hm, quotient_nonneg r.wrapped hm]

/-- When the block is past three quarters. -/
theorem lost_iff : Double.lt (.fin (3 / 4)) (r.progressOf pool) = true ↔
    (0 < confirmations pool ∧ 3 * confirmations pool < 4 * r.wrapped) ∨
      (confirmations pool = 0 ∧ r.wrapped ≠ 0) := by
  rcases lt_trichotomy (confirmations pool) 0 with hm | hm | hm
  · rw [progressOf_of_ne_zero hm.ne, min_eq_right ((quotient_nonpos hm).trans zero_le_one)]
    have hq : ¬ 3 / 4 < quotient r.wrapped (confirmations pool) :=
      not_lt.mpr ((quotient_nonpos hm).trans (by norm_num))
    simp only [Double.lt, decide_eq_true_eq, hq, false_iff]
    omega
  · rw [progressOf_of_zero hm]
    split
    · rename_i hx
      simp [Double.lt, hm, hx]
    · rename_i hx
      simp only [Double.lt, decide_eq_true_eq, hm, lt_irrefl, false_and, true_and, false_or]
      exact iff_of_true (by norm_num) hx
  · rw [progressOf_of_ne_zero hm.ne']
    have hq := three_quarters_lt_iff (x := r.wrapped) hm (Int32.toInt_lt _)
    simp only [Double.lt, decide_eq_true_eq, lt_min_iff, hq]
    constructor
    · exact fun h => Or.inl ⟨hm, h.2⟩
    · rintro (h | h)
      · exact ⟨by norm_num, h.2⟩
      · exact absurd h.1 hm.ne'

/-! ## Early or not, block by block -/

theorem status_eq (h : r.FromStored pool) :
    r.block.status = (classify pool r.latest r.blockInfo r.stored).status := by
  obtain ⟨reward, h⟩ := h
  rw [h]

theorem confirmationProgress_block (h : r.FromStored pool) : r.block.confirmationProgress =
    (classify pool r.latest r.blockInfo r.stored).confirmationProgress := by
  obtain ⟨reward, h⟩ := h
  rw [h]

/-- What is asked of a block with a status and a progress. -/
theorem notEarly_iff_of_eq {status : BlockStatus} {progress : Double}
    (hst : r.block.status = status) (hpr : r.block.confirmationProgress = progress) :
    r.NotEarly pool ↔
      (status = .confirmed → confirmations pool ≤ r.age ∧ r.Mine pool) ∧
        (status = .orphaned → 3 * confirmations pool < 4 * r.age ∧ ¬ r.Mine pool) ∧
        Double.le (.fin 0) progress = true ∧ Double.le progress (.fin 1) = true := by
  subst hst hpr
  exact ⟨fun h => ⟨h.confirmed, h.orphaned, h.progress⟩, fun ⟨hc, ho, hp⟩ => ⟨hc, ho, hp⟩⟩

/-- A block of ours. -/
theorem notEarly_iff_of_mine (h : r.FromStored pool) (hp : r.stored.status = .pending)
    (hmine : r.Mine pool) : r.NotEarly pool ↔
      if mature r.latest r.stored.blockHeight pool.paymentProcessing.extra.minimumConfirmations then
        confirmations pool ≤ r.age
      else Double.le (.fin 0) (r.progressOf pool) = true ∧
        Double.le (r.progressOf pool) (.fin 1) = true := by
  have hst := status_eq h
  have hpr := confirmationProgress_block h
  unfold classify at hst hpr
  simp only [show r.blockInfo.miner = some pool.address from hmine, if_true] at hst hpr
  split at hst
  · rename_i hmat
    rw [if_pos hmat] at hpr ⊢
    rw [notEarly_iff_of_eq hst hpr]
    simp [hmine, Double.le]
  · rename_i hmat
    rw [if_neg hmat] at hpr ⊢
    have hpr' : r.block.confirmationProgress = r.progressOf pool := hpr
    rw [notEarly_iff_of_eq (hst.trans hp) hpr']
    simp

/-- A block of someone else. -/
theorem notEarly_iff_of_not_mine (h : r.FromStored pool) (hp : r.stored.status = .pending)
    (hmine : ¬ r.Mine pool) : r.NotEarly pool ↔
      (Double.lt (.fin (3 / 4)) (r.progressOf pool) = true →
        3 * confirmations pool < 4 * r.age) ∧
      Double.le (.fin 0) (r.progressOf pool) = true ∧
        Double.le (r.progressOf pool) (.fin 1) = true := by
  have hst := status_eq h
  have hpr := confirmationProgress_block h
  unfold classify at hst hpr
  simp only [show ¬ r.blockInfo.miner = some pool.address from hmine, if_false, hp,
    true_and] at hst hpr
  split at hst
  · rename_i hlost
    rw [if_pos hlost] at hpr
    have hst' : r.block.status = .orphaned := hst
    have hpr' : r.block.confirmationProgress = r.progressOf pool := hpr
    have hlost' : Double.lt (.fin (3 / 4)) (r.progressOf pool) = true := hlost
    rw [notEarly_iff_of_eq hst' hpr']
    simp [hmine, hlost']
  · rename_i hlost
    rw [if_neg hlost] at hpr
    have hst' : r.block.status = .pending := hst
    have hpr' : r.block.confirmationProgress = r.progressOf pool := hpr
    have hlost' : ¬ Double.lt (.fin (3 / 4)) (r.progressOf pool) = true := hlost
    rw [notEarly_iff_of_eq hst' hpr']
    simp [hlost']

/-- The two heights, as integers. -/
theorem heights (r : Classified) :
    (r.stored.blockHeight ≤ r.latest ↔ 0 ≤ r.age) ∧ (r.stored.blockHeight = r.latest ↔ r.age = 0) ∧
      (r.stored.blockHeight < r.latest ↔ 0 < r.age) ∧ -2 ^ 64 < r.age ∧ r.age < 2 ^ 64 := by
  have h₁ := r.latest.toNat_lt
  have h₂ := r.stored.blockHeight.toNat_lt
  unfold Classified.age
  rw [UInt64.le_iff_toNat_le, UInt64.lt_iff_toNat_lt, ← UInt64.toNat_inj]
  refine ⟨?_, ?_, ?_, ?_, ?_⟩ <;> omega

/-- **One block**: it is not early iff it is in order. -/
theorem notEarly_iff (h : r.FromStored pool) (hp : r.stored.status = .pending) :
    r.NotEarly pool ↔ r.InOrder pool := by
  obtain ⟨hle, heq, hlt, hlo, hhi⟩ := heights r
  have hx := wrapped_eq r
  rw [if_congr hle rfl rfl] at hx
  have hmlo : -2 ^ 31 ≤ confirmations pool := Int32.le_toInt _
  have hmhi : confirmations pool < 2 ^ 31 := Int32.toInt_lt _
  unfold Classified.InOrder
  simp only [hle, heq, hlt]
  by_cases hmine : r.Mine pool
  · have hmat := mature_iff pool r
    rw [notEarly_iff_of_mine h hp hmine, unit_progressOf_iff]
    simp only [hmine, true_and, not_true_eq_false, false_and, or_false, true_or, and_true]
    split
    · rename_i hm
      rw [hm] at hmat
      have hle := hmat.mp rfl
      split at hle <;> split at hx <;> omega
    · rename_i hm
      have hlt := not_le.mp (mt hmat.mpr hm)
      split at hlt <;> split at hx <;> omega
  · rw [notEarly_iff_of_not_mine h hp hmine, unit_progressOf_iff, lost_iff]
    simp only [hmine, false_and, not_false_eq_true, true_and, false_or, or_false]
    split at hx <;> omega

end Thresholds

/-- **No block is confirmed or given up early** exactly when every block is in order. The latest
height and the block details that say so are those the daemons reported for the block. -/
theorem classified_sound_iff (pool : PoolConfig) (answers : Answers) (blocks result : List Block)
    (hpending : ∀ b ∈ blocks, b.status = .pending)
    (hresult : classifyBlocksAsync pool answers blocks = .ok result) :
    ∃ rs, classifyPages pool answers 0 Fetched.empty (pagesOf blocks) = .ok rs ∧
      result = rs.map Classified.block ∧ (rs.map Classified.stored).Sublist blocks ∧
      (∀ r ∈ rs, r.Reported answers (pagesOf blocks)) ∧
      ((∀ r ∈ rs, r.NotEarly pool) ↔ ∀ r ∈ rs, r.InOrder pool) := by
  obtain ⟨rs, hrs, hmap, hsub, hfrom⟩ := classifyBlocksAsync_spec hresult
  refine ⟨rs, hrs, hmap, hsub, reported_of_classifyPages hrs, forall₂_congr fun r hr => ?_⟩
  exact notEarly_iff (hfrom r hr) (hpending r.stored (hsub.subset (List.mem_map_of_mem hr)))

/-- Daemons of which the first has seen the chain up to height 9 only, and a block of ours at
height 10. -/
def laggingAnswers : Answers where
  latest _ := [⟨some ⟨some 9, none, 0, []⟩, none⟩]
  blocks _ _ := .ok [⟨some ⟨some 10, some "0xa0pool", 0, []⟩, none⟩]
  receipts _ _ := .ok []

theorem classified_sound_lagging : ∃ rs,
    classifyPages samplePool laggingAnswers 0 Fetched.empty
        (pagesOf [sampleBlock "aion1" 10 0 30]) = .ok rs ∧
      [{ sampleBlock "aion1" 10 (AionRewardsCalculator.calculateReward 10) 30 with
        status := .confirmed, confirmationProgress := .fin 1 }] = rs.map Classified.block ∧
      (rs.map Classified.stored).Sublist [sampleBlock "aion1" 10 0 30] ∧
      (∀ r ∈ rs, r.Reported laggingAnswers (pagesOf [sampleBlock "aion1" 10 0 30])) ∧
      ((∀ r ∈ rs, r.NotEarly samplePool) ↔ ∀ r ∈ rs, r.InOrder samplePool) :=
  classified_sound_iff samplePool laggingAnswers [sampleBlock "aion1" 10 0 30] _ (by decide)
    (by decide +kernel)

/-- **A block is confirmed early** when the daemon that reports the latest height lags. -/
theorem confirmed_before_latest : ∃ rs,
    classifyPages samplePool laggingAnswers 0 Fetched.empty
        (pagesOf [sampleBlock "aion1" 10 0 30]) = .ok rs ∧
      ∃ r ∈ rs, ¬ r.NotEarly samplePool := by
  have hrun : (classifyPages samplePool laggingAnswers 0 Fetched.empty
      (pagesOf [sampleBlock "aion1" 10 0 30])).toOption.map (fun rs => rs.map fun r =>
        (r.latest, r.stored.blockHeight, r.block.status)) = some [(9, 10, .confirmed)] := by
    decide +kernel
  cases hrs : classifyPages samplePool laggingAnswers 0 Fetched.empty
      (pagesOf [sampleBlock "aion1" 10 0 30]) with
  | error e =>
    rw [hrs] at hrun
    exact absurd hrun (by simp [Except.toOption])
  | ok rs =>
    rw [hrs] at hrun
    simp only [Except.toOption, Option.map_some, Option.some.injEq, List.map_eq_singleton_iff,
      Prod.mk.injEq] at hrun
    obtain ⟨r, rfl, hlatest, hheight, hstatus⟩ := hrun
    refine ⟨[r], rfl, r, List.mem_singleton_self r, fun hn => ?_⟩
    have hage := (hn.confirmed hstatus).1
    unfold Classified.age at hage
    rw [hlatest, hheight] at hage
    exact absurd hage (by decide)

end AionPool.Aion
