import AionPool.Aion.FoundBlock

/-!
# Where difficulty and target agree

A difficulty `q` is meant to stand for the target `threshold q`: the text of `diffToTarget` writes
it, a share is of low difficulty from it on, and the network target decides which shares are blocks.
Each of these fails somewhere: below 1 there is nothing to divide by, below 2 the quotient has 257
bits, below 3 it has the bit that the share check reads as a sign, and so has a network target from
`2 ^ 255` on.

* `diffToTarget_of_two_le`: the text, from a difficulty of 2 on.
* `lowDifficulty_iff`: which headers are rejected, from 3 on.
* **`targetAgrees_iff`**: all of it holds exactly from 3 on and below a network target of `2 ^ 255`.

About `AionUtils.cs:11-31` and `AionJob.cs:115-172`.
-/

namespace AionPool.Aion

open AionPool.Extensions AionPool.Lib.Bytes AionJob
open AionPool.Lib.Binary64 (Double)

/-! ## What is meant -/

/-- The target of a difficulty: the quotient, or the largest number that fits. -/
def threshold (q : ℚ) : ℕ := min (2 ^ 256 - 1) (2 ^ 256 / ⌊q⌋.toNat)

/-- The header value of a submission. -/
def submittedValue (alg : Algorithms) (job : AionJob) (nonce solution : Text) : ℕ :=
  headerValue (alg.digest (job.serializeHeader nonce ++ hexToByteArray solution))

/-- `isBlockCandidate`, which `ProcessShareInternal` decides before it looks at the difficulty. -/
def isBlockCandidate (alg : Algorithms) (job : AionJob) (nonce solution : Text) : Bool :=
  (submittedValue alg job nonce solution : ℤ) < signed job.blockTarget.1

/-- It is what a share that is returned says. -/
theorem isBlockCandidate_of_ok {alg : Algorithms} {job : AionJob} {worker : StratumClient}
    {nonce nTime solution : Text} {p : ProcessedShare}
    (h : job.processShareInternal alg worker nonce nTime solution = .ok p) :
    p.share.isBlockCandidate = isBlockCandidate alg job nonce solution :=
  (processShareInternal_ok h).2.2.2

/-- A difficulty and a network target agree with the texts and the decisions of the code. -/
structure TargetAgrees (d : Double) (target : Bytes32) : Prop where
  digits : ∃ text, diffToTarget d = .ok text ∧ text.length = 64 ∧ ∀ c ∈ text, isHexDigit c = true
  antitone : ∀ d' text text', d.le d' = true → diffToTarget d = .ok text →
    diffToTarget d' = .ok text' →
    unsigned (hexToReverseByteArray text') ≤ unsigned (hexToReverseByteArray text)
  encoding : ∀ q, d = .fin q → 1 ≤ q →
    diffToTarget d = .ok (byteToHex (bytes 32 (threshold q)).reverse)
  rejection : ∀ q alg (job : AionJob) worker nonce nTime solution, d = .fin q → 1 ≤ q →
    job.blockTarget = target → worker.context.difficulty = d →
    alg.verify (job.serializeHeader nonce) (hexToByteArray solution) = true →
    ((∃ message, job.processShareInternal alg worker nonce nTime solution =
      .error (.stratum .lowDifficultyShare message)) ↔
        threshold q ≤ submittedValue alg job nonce solution)
  candidate : ∀ alg job nonce solution, job.blockTarget = target →
    (isBlockCandidate alg job nonce solution = true ↔
      submittedValue alg job nonce solution < unsigned target.1)
  share : ∀ alg (job : AionJob) worker nonce nTime solution p, job.blockTarget = target →
    job.processShareInternal alg worker nonce nTime solution = .ok p →
    (p.share.isBlockCandidate = true ↔
      submittedValue alg job nonce solution < unsigned target.1)

/-! ## The text -/

section Text

variable {q : ℚ}

theorem truncate_of_nonneg (h : 0 ≤ q) : truncate q = ⌊q⌋ := if_pos h

theorem tdiv_floor (h : 1 ≤ q) :
    (2 ^ 256 : ℤ).tdiv (truncate q) = (2 ^ 256 / ⌊q⌋.toNat : ℕ) := by
  have hfloor : 0 ≤ ⌊q⌋ := Int.floor_nonneg.mpr (by linarith)
  rw [truncate_of_nonneg (by linarith), Int.tdiv_eq_ediv_of_nonneg (by norm_num)]
  push_cast
  rw [Int.toNat_of_nonneg hfloor]

/-- From a difficulty of 2 on the quotient fits. -/
theorem threshold_of_two_le (h : 2 ≤ q) :
    threshold q = 2 ^ 256 / ⌊q⌋.toNat ∧ threshold q ≤ 2 ^ 255 := by
  have hfloor : 2 ≤ ⌊q⌋ := by
    rw [Int.le_floor]
    exact_mod_cast h
  have hle : 2 ^ 256 / ⌊q⌋.toNat ≤ 2 ^ 255 := by
    refine (Nat.div_le_div_left (show 2 ≤ ⌊q⌋.toNat by omega) (by norm_num)).trans ?_
    norm_num
  unfold threshold
  omega

/-- **From a difficulty of 2 on** the text writes the target. -/
theorem diffToTarget_of_two_le (h : 2 ≤ q) :
    diffToTarget (.fin q) = .ok (byteToHex (bytes 32 (threshold q)).reverse) := by
  obtain ⟨hvalue, hle⟩ := threshold_of_two_le h
  have hfloor : 2 ≤ ⌊q⌋ := by
    rw [Int.le_floor]
    exact_mod_cast h
  have hn : truncate q ≠ 0 := by
    rw [truncate_of_nonneg (by linarith)]
    omega
  rw [diffToTarget_of_ne_zero hn]
  have hwidth := width_tdiv_le (truncate q)
  have htwos : unsigned (twos ((2 ^ 256 : ℤ).tdiv (truncate q))) = threshold q := by
    rw [hvalue, tdiv_floor (by linarith)]
    exact_mod_cast unsigned_twos_of_nonneg (Int.natCast_nonneg _)
  have hbytes := unsigned_targetBytes hwidth
  rw [htwos, if_pos (by omega)] at hbytes
  have hlength : (targetBytes
      (twos ((2 ^ 256 : ℤ).tdiv (truncate q))).reverse).reverse.length = 32 := by
    rw [List.length_reverse, length_targetBytes]
  rw [← hbytes, ← hlength, bytes_unsigned, List.reverse_reverse]

/-- The number that a text of `diffToTarget` writes. -/
theorem unsigned_text {n : ℕ} (h : n < 2 ^ 256) :
    unsigned (hexToReverseByteArray (byteToHex (bytes 32 n).reverse)) = n := by
  rw [hexToReverseByteArray_byteToHex, List.reverse_reverse, unsigned_bytes (by omega)]

/-- The text gets no larger with the difficulty. -/
theorem threshold_antitone {q' : ℚ} (h : 2 ≤ q) (hle : q ≤ q') : threshold q' ≤ threshold q := by
  have hfloor : 2 ≤ ⌊q⌋ := by
    rw [Int.le_floor]
    exact_mod_cast h
  have hfloors : ⌊q⌋ ≤ ⌊q'⌋ := Int.floor_le_floor hle
  unfold threshold
  exact min_le_min le_rfl (Nat.div_le_div_left (by omega) (by omega))

end Text

/-! ## The decisions -/

/-- A verified share is rejected for its difficulty from the share target on. -/
theorem lowDifficulty_iff {alg : Algorithms} {job : AionJob} {worker : StratumClient}
    {nonce nTime solution : Text} {t : ℤ}
    (hverify : alg.verify (job.serializeHeader nonce) (hexToByteArray solution) = true)
    (ht : sentTarget worker.context.difficulty = .ok t) :
    (∃ message, job.processShareInternal alg worker nonce nTime solution =
      .error (.stratum .lowDifficultyShare message)) ↔
        t ≤ submittedValue alg job nonce solution := by
  refine ⟨?_, processShareInternal_of_le hverify ht⟩
  rintro ⟨message, h⟩
  by_contra hlow
  have hok : ∃ p, job.processShareInternal alg worker nonce nTime solution = .ok p := by
    unfold processShareInternal
    dsimp only
    rw [if_neg (by rw [hverify]; exact Bool.true_eq_false_eq_False), ht]
    exact ⟨_, if_neg hlow⟩
  obtain ⟨p, hp⟩ := hok
  exact nomatch h.symm.trans hp

/-- Every number of 256 bits is the value of some submission that is verified. -/
theorem exists_submission (target : Bytes32) {v : ℕ} (hv : v < 2 ^ 256) :
    ∃ alg, submittedValue alg { sampleJob with blockTarget := target } [] [] = v ∧
      alg.verify (AionJob.serializeHeader { sampleJob with blockTarget := target } [])
        (hexToByteArray []) = true := by
  have hlength : (bytes 32 v).reverse.length = 32 := by rw [List.length_reverse, length_bytes]
  refine ⟨{ sampleAlgorithms with digest := fun _ => ⟨_, hlength⟩ }, ?_, rfl⟩
  unfold submittedValue headerValue
  dsimp only
  rw [List.reverse_reverse, unsigned_bytes (by omega)]

section Exact

variable {d : Double} {target : Bytes32}

/-- Below a difficulty of 3 a header value of zero is rejected, or nothing is. -/
theorem sentTarget_nonpos {q : ℚ} (hq : 1 ≤ q) (h : q < 3) :
    ∃ t, sentTarget (.fin q) = .ok t ∧ t ≤ 0 := by
  have hpos : 1 ≤ ⌊q⌋ := by
    rw [Int.le_floor]
    exact_mod_cast hq
  have hlt : ⌊q⌋ < 3 := by
    rw [Int.floor_lt]
    exact_mod_cast h
  have htrunc := truncate_of_nonneg (show 0 ≤ q by linarith)
  obtain ⟨t, ht, hvalue⟩ := sentTarget_spec (q := q) (by omega)
  refine ⟨t, ht, ?_⟩
  rw [htrunc, shareTarget_of_lt_three (by omega) hlt] at hvalue
  omega

theorem TargetAgrees.difficulty (h : TargetAgrees d target)
    (hd : Double.lt (.fin 0) d = true) : ∃ q, d = .fin q ∧ 3 ≤ q := by
  obtain ⟨text, htext, -⟩ := h.digits
  cases d with
  | nan => exact nomatch hd
  | inf s => exact nomatch htext
  | fin q =>
    have hpos : 0 < q := of_decide_eq_true hd
    refine ⟨q, rfl, ?_⟩
    by_contra hlt
    rcases lt_or_ge q 1 with hone | hone
    · -- there is nothing to divide by
      have hzero : truncate q = 0 := by
        rw [truncate_of_nonneg hpos.le, Int.floor_eq_zero_iff]
        exact ⟨hpos.le, hone⟩
      exact nomatch (diffToTarget_of_eq_zero hzero).symm.trans htext
    · -- the target is positive, and zero is not below it as the code reads it
      obtain ⟨t, ht, hnonpos⟩ := sentTarget_nonpos hone (not_le.mp hlt)
      obtain ⟨alg, hvalue, hverify⟩ := exists_submission target (show 0 < 2 ^ 256 by norm_num)
      have hrejected := (h.rejection q alg _ (sampleWorker (.fin q)) [] [] [] rfl hone rfl rfl
        hverify).mp ((lowDifficulty_iff hverify ht).mpr (by rw [hvalue]; exact hnonpos))
      have hfloor : ⌊q⌋.toNat ≤ 2 := by
        have : ⌊q⌋ < 3 := by
          rw [Int.floor_lt]
          exact_mod_cast not_le.mp hlt
        omega
      have hfloor' : 1 ≤ ⌊q⌋ := by
        rw [Int.le_floor]
        exact_mod_cast hone
      have hquotient : 2 ^ 256 / 2 ≤ 2 ^ 256 / ⌊q⌋.toNat :=
        Nat.div_le_div_left hfloor (by omega)
      rw [hvalue] at hrejected
      unfold threshold at hrejected
      omega

theorem TargetAgrees.unsigned_lt (h : TargetAgrees d target) : unsigned target.1 < 2 ^ 255 := by
  by_contra hge
  have hbelow : 0 < unsigned target.1 := by omega
  obtain ⟨alg, hvalue, -⟩ := exists_submission target (show 0 < 2 ^ 256 by norm_num)
  have hcandidate := (h.candidate alg _ [] [] rfl).mpr (hvalue.trans_lt hbelow)
  have hsigned := of_decide_eq_true hcandidate
  rw [hvalue] at hsigned
  exact hge ((lt_signed_iff target 0 hbelow).mp hsigned)

/-- Below a network target that has no sign a hash is a candidate. -/
theorem isBlockCandidate_iff (alg : Algorithms) {job : AionJob} (nonce solution : Text)
    (htarget : unsigned job.blockTarget.1 < 2 ^ 255) :
    isBlockCandidate alg job nonce solution = true ↔
      submittedValue alg job nonce solution < unsigned job.blockTarget.1 := by
  have hsigned : signed job.blockTarget.1 = unsigned job.blockTarget.1 := by
    unfold signed
    rw [job.blockTarget.2, if_pos (by omega)]
  unfold isBlockCandidate
  rw [decide_eq_true_iff, hsigned]
  exact Int.ofNat_lt

/-- From a difficulty of 3 on, and with a network target that has no sign, all of it agrees. -/
theorem targetAgrees_of_three_le {q : ℚ} (hq : 3 ≤ q) (htarget : unsigned target.1 < 2 ^ 255) :
    TargetAgrees (.fin q) target := by
  have htwo : 2 ≤ q := by linarith
  have htext := diffToTarget_of_two_le htwo
  have hlt : threshold q < 2 ^ 256 := (threshold_of_two_le htwo).2.trans_lt (by norm_num)
  constructor
  · refine ⟨_, htext, ?_, fun c => isHexDigit_byteToHex⟩
    rw [length_byteToHex, List.length_reverse, length_bytes]
  · intro d' text text' hle h h'
    obtain rfl := Except.ok.inj (htext.symm.trans h)
    cases d' with
    | nan => exact nomatch hle
    | inf s => exact nomatch h'
    | fin q' =>
      have hle' : q ≤ q' := of_decide_eq_true hle
      have htwo' : 2 ≤ q' := htwo.trans hle'
      obtain rfl := Except.ok.inj ((diffToTarget_of_two_le htwo').symm.trans h')
      rw [unsigned_text hlt,
        unsigned_text ((threshold_of_two_le htwo').2.trans_lt (by norm_num))]
      exact threshold_antitone htwo hle'
  · rintro q' hd -
    obtain rfl := Double.fin.inj hd
    exact htext
  · rintro q' alg job worker nonce nTime solution hd - - hworker hverify
    obtain rfl := Double.fin.inj hd
    have hfloor : 3 ≤ ⌊q⌋ := by
      rw [Int.le_floor]
      exact_mod_cast hq
    have htrunc := truncate_of_nonneg (show 0 ≤ q by linarith)
    obtain ⟨t, ht, hvalue⟩ := sentTarget_spec (q := q) (by omega)
    rw [lowDifficulty_iff hverify (hworker ▸ ht)]
    have hshare : (shareTarget (truncate q) : ℤ) = threshold q := by
      rw [htrunc, shareTarget_of_three_le hfloor, (threshold_of_two_le htwo).1]
      push_cast
      rw [Int.toNat_of_nonneg (by omega)]
    omega
  · intro alg job nonce solution hjob
    exact hjob ▸ isBlockCandidate_iff alg nonce solution (hjob ▸ htarget)
  · intro alg job worker nonce nTime solution p hjob hp
    rw [isBlockCandidate_of_ok hp]
    exact hjob ▸ isBlockCandidate_iff alg nonce solution (hjob ▸ htarget)

/-- **Difficulty and target agree** exactly for a finite difficulty from 3 on and a network target
below `2 ^ 255`. -/
theorem targetAgrees_iff (d : Double) (target : Bytes32) (hd : Double.lt (.fin 0) d = true) :
    TargetAgrees d target ↔ (∃ q, d = .fin q ∧ 3 ≤ q) ∧ unsigned target.1 < 2 ^ 255 := by
  constructor
  · exact fun h => ⟨h.difficulty hd, h.unsigned_lt⟩
  · rintro ⟨⟨q, rfl, hq⟩, htarget⟩
    exact targetAgrees_of_three_le hq htarget

end Exact

/-- They do for the difficulty 5 and the network target `2 ^ 254`. -/
theorem targetAgrees_sample : TargetAgrees (.fin 5) sampleJob.blockTarget :=
  (targetAgrees_iff (.fin 5) sampleJob.blockTarget (by decide)).mpr
    ⟨⟨5, rfl, by norm_num⟩, by decide +kernel⟩

/-- The difficulty `1 / 2` throws, the difficulty 1 has a text of zeros. -/
theorem diffToTarget_below_two :
    diffToTarget (.fin (1 / 2)) = .error .divideByZero ∧
    diffToTarget (.fin 1) = .ok (List.replicate 64 48) ∧ threshold 1 = 2 ^ 256 - 1 ∧
    ¬ TargetAgrees (.fin (1 / 2)) sampleJob.blockTarget := by
  refine ⟨by decide +kernel, by decide +kernel, by decide +kernel, fun h => ?_⟩
  obtain ⟨q, hq, hle⟩ := h.difficulty (by decide +kernel)
  obtain rfl := Double.fin.inj hq
  norm_num at hle

end AionPool.Aion
