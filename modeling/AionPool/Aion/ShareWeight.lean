import AionPool.Aion.FoundBlock
import AionPool.Aion.UpdateJob
import AionPool.Payments.Pplns
import Mathlib.Data.List.TakeWhile

/-!
# The weight of a share

The network difficulty is read by `Convert.ToInt32(value, 16)`, which takes the digits as the bits
of a 32-bit number: from `2 ^ 31` on the job has a negative difficulty, from `2 ^ 32` on it is not
made. Every share of the job then gets the smaller of that difficulty and the worker's.

* `convertToInt32_of_reports`: what is read of a text that writes a number.
* `weight_of_accepted`: the weight of a share, on a job whose difficulty is the reported one.
* **`soundWeights_iff`**: weights are sound exactly below `2 ^ 31`.

Models `AionJob.cs:181-185`, and what `AionPool.cs:152-247` makes of the difficulty.
-/

namespace AionPool.Aion.ShareWeight

open AionPool.Extensions AionPool.Aion.UpdateJob
open AionPool.Lib.Binary64

/-! ## Reading the difficulty -/

/-- Leave out `0x` or `0X`. -/
def skipRadix : Text → Text
  | 48 :: x :: digits => if x = 120 ∨ x = 88 then digits else 48 :: x :: digits
  | text => text

/-- `Convert.ToInt32(value, 16)`. The digits are read first, so that one that does not fit is found
before what follows them. -/
def convertToInt32 : Option Text → Except Exn Int32
  | none => return 0
  | some [] => throw .argumentOutOfRange
  | some (sign :: rest) =>
    if sign = 45 then throw .argument
    else
      let digits := skipRadix (if sign = 43 then rest else sign :: rest)
      match parseHex? (digits.takeWhile isHexDigit) with
      | none => throw .format
      | some n =>
        if 2 ^ 32 ≤ n then
          throw (.overflow "Value was either too large or too small for a UInt32.")
        else if (digits.dropWhile isHexDigit) ≠ [] then throw .format
        else return (UInt32.ofNat n).toInt32

/-- The text reports the number: it writes its digits, or `0x` or `0X` and its digits. -/
def Reports (text : Text) (n : ℕ) : Prop :=
  ∃ digits, parseHex? digits = some n ∧
    (text = digits ∨ text = ascii "0x" ++ digits ∨ text = ascii "0X" ++ digits)

theorem reports_hexNumber (n : ℕ) : Reports (ascii "0x" ++ hexNumber n) n :=
  ⟨hexNumber n, parseHex_hexNumber n, Or.inr (Or.inl rfl)⟩

theorem skipRadix_of_digits {s : Text} (h : ∀ c ∈ s, isHexDigit c = true) : skipRadix s = s := by
  unfold skipRadix
  split
  · rename_i x digits
    refine if_neg fun hx => ?_
    have hdigit := h x (by simp)
    rcases hx with rfl | rfl
    · exact absurd hdigit (by decide)
    · exact absurd hdigit (by decide)
  · rfl

/-- What is read once the sign and the radix are left out. -/
theorem convertToInt32_of_digits {sign : UInt16} {rest digits : Text} {n : ℕ}
    (hsign : sign ≠ 45 ∧ sign ≠ 43) (hskip : skipRadix (sign :: rest) = digits)
    (h : parseHex? digits = some n) :
    convertToInt32 (some (sign :: rest)) = if n < 2 ^ 32 then .ok (UInt32.ofNat n).toInt32
      else .error (.overflow "Value was either too large or too small for a UInt32.") := by
  have hdigits := isHexDigit_of_parse h
  unfold convertToInt32
  dsimp only
  rw [if_neg hsign.1, if_neg hsign.2, hskip]
  rw [List.takeWhile_eq_self_iff.mpr hdigits, h, List.dropWhile_eq_nil_iff.mpr hdigits]
  dsimp only
  split
  · rename_i hle
    rw [if_neg (not_lt.mpr hle)]
    rfl
  · rename_i hlt
    rw [if_neg (by simp), if_pos (not_le.mp hlt)]
    rfl

/-- **A number that fits 32 bits is read with its bits**, a larger one throws. -/
theorem convertToInt32_of_reports {text : Text} {n : ℕ} (h : Reports text n) :
    convertToInt32 (some text) = if n < 2 ^ 32 then .ok (UInt32.ofNat n).toInt32
      else .error (.overflow "Value was either too large or too small for a UInt32.") := by
  obtain ⟨digits, hparse, htext | rfl | rfl⟩ := h
  · have hdigits := isHexDigit_of_parse hparse
    subst htext
    cases text with
    | nil => exact nomatch hparse
    | cons c text =>
      refine convertToInt32_of_digits ⟨?_, ?_⟩ (skipRadix_of_digits hdigits) hparse
      · rintro rfl
        exact absurd (hdigits 45 List.mem_cons_self) (by decide)
      · rintro rfl
        exact absurd (hdigits 43 List.mem_cons_self) (by decide)
  · exact convertToInt32_of_digits (by decide) rfl hparse
  · exact convertToInt32_of_digits (by decide) rfl hparse

/-- The bits of a number below `2 ^ 32` read as a signed one. -/
theorem toInt_ofNat {n : ℕ} (h : n < 2 ^ 32) :
    (UInt32.ofNat n).toInt32.toInt = if n < 2 ^ 31 then (n : ℤ) else n - 2 ^ 32 := by
  have hnat : (UInt32.ofNat n).toInt32.toInt = (BitVec.ofNat 32 n).toInt := rfl
  rw [hnat, BitVec.toInt_eq_toNat_cond, BitVec.toNat_ofNat, Nat.mod_eq_of_lt h]
  split_ifs <;> omega

/-! ## The weight -/

/-- A share of a job with the network difficulty `n` has a weight above zero and up to one, both as
the walk divides its doubles and as the quotient of the numbers that are stored. -/
structure SoundWeight (n : ℕ) (share : Mining.Share Double) : Prop where
  networkDifficulty : share.networkDifficulty = .fin n
  difficulty : ∃ δ, share.difficulty = .fin δ ∧ 0 < δ ∧ δ ≤ n
  quotient : ∃ q, Double.div share.difficulty share.networkDifficulty = .fin q ∧ 0 < q ∧ q ≤ 1
  score : ∀ stored : Persistence.Share, share.difficulty = .fin stored.difficulty →
    share.networkDifficulty = .fin stored.networkDifficulty →
    0 < Payments.PPLNSPaymentScheme.score stored ∧ Payments.PPLNSPaymentScheme.score stored ≤ 1

/-- A daemon that reports `n` gets a job of that difficulty, and every share that a worker with a
positive difficulty has accepted on it has a sound weight. -/
def SoundWeights (n : ℕ) : Prop :=
  ∀ (conversions : Conversions) (id : Text) (template : ReceivedTemplate) (headerHash : Text)
    (answers : Answers) (response : Daemon.DaemonResponse Text) (text target : Text),
    conversions.toInt32 = convertToInt32 → answers.getDifficulty = .ok response →
    response.response = some text → Reports text n → template.target = some target →
    (hexToReverseByteArray (skip0x target)).length = 32 →
    ∃ job, newJob conversions id template headerHash answers = .ok job ∧
      job.difficulty = .fin n ∧
      ∀ (env : Environment) (m : AionJobManager) (worker : StratumClient) (request : List Text)
        (r : SubmitRequest) (nonces : String → Option (List Text)) (share : Mining.Share Double),
        SubmitRequest.ofArray request = .ok r →
        m.validJobs r.jobId = some { job with workerNonces := nonces } →
        Double.lt (.fin 0) worker.context.difficulty = true →
        (m.submitShareAsync env worker request).result = .ok share → SoundWeight n share

/-- The difficulties of a share that is returned are those that its job computed. -/
theorem difficulties_of_result {env : Environment} {m : AionJobManager} {worker : StratumClient}
    {request : List Text} {r : SubmitRequest} {job : AionJob} {share : Mining.Share Double}
    (hr : SubmitRequest.ofArray request = .ok r) (hjob : m.validJobs r.jobId = some job)
    (h : (m.submitShareAsync env worker request).result = .ok share) :
    share.networkDifficulty = job.difficulty ∧
      share.difficulty = (if job.difficulty.lt worker.context.difficulty then job.difficulty
        else worker.context.difficulty) ∧
      ∃ t, AionJob.sentTarget worker.context.difficulty = .ok t := by
  unfold AionJobManager.submitShareAsync at h
  rw [hr] at h
  dsimp only at h
  rw [hjob] at h
  unfold AionJob.processShareAsync at h
  dsimp only at h
  cases haccept : job.acceptShare env.toAlgorithms worker r.nonce r.time r.soln with
  | error e =>
    rw [haccept] at h
    exact nomatch h
  | ok accepted =>
    obtain ⟨nonce, solution, job'⟩ := accepted
    rw [haccept] at h
    dsimp only at h
    rw [AionJob.processShareInternal_of_acceptShare haccept] at h
    cases hprocess : job.processShareInternal env.toAlgorithms worker nonce r.time solution with
    | error e =>
      rw [hprocess] at h
      exact nomatch h
    | ok processed =>
      rw [hprocess] at h
      dsimp only at h
      have hkept : share.networkDifficulty = processed.share.networkDifficulty ∧
          share.difficulty = processed.share.difficulty := by
        unfold AionJobManager.finishShare at h
        dsimp only at h
        split at h
        · obtain ⟨accepted, -, h⟩ := bind_eq_ok.mp h
          obtain rfl := Except.ok.inj h
          exact ⟨rfl, rfl⟩
        · obtain rfl := Except.ok.inj h
          exact ⟨rfl, rfl⟩
      rw [hkept.1, hkept.2]
      unfold AionJob.processShareInternal at hprocess
      dsimp only at hprocess
      split at hprocess
      · exact nomatch hprocess
      obtain ⟨t, ht, hprocess⟩ := bind_eq_ok.mp hprocess
      split at hprocess
      · exact nomatch hprocess
      obtain rfl := Except.ok.inj hprocess
      exact ⟨rfl, rfl, t, ht⟩

/-- **The weight of a share** on a job whose difficulty is the reported one. -/
theorem weight_of_accepted {n : ℕ} (hn : 1 ≤ n) (hn' : n < 2 ^ 53) {env : Environment}
    {m : AionJobManager} {worker : StratumClient} {request : List Text} {r : SubmitRequest}
    {job : AionJob} {share : Mining.Share Double} (hr : SubmitRequest.ofArray request = .ok r)
    (hjob : m.validJobs r.jobId = some job) (hdifficulty : job.difficulty = .fin n)
    (hpos : Double.lt (.fin 0) worker.context.difficulty = true)
    (h : (m.submitShareAsync env worker request).result = .ok share) : SoundWeight n share := by
  obtain ⟨hnetwork, hshare, t, ht⟩ := difficulties_of_result hr hjob h
  obtain ⟨q, hq, htrunc⟩ := sentTarget_eq_ok ht
  rw [hdifficulty] at hnetwork hshare
  rw [hq] at hshare hpos
  have hq0 : 0 < q := of_decide_eq_true hpos
  have hn1 : (1 : ℚ) ≤ n := by exact_mod_cast hn
  -- what has an integral part is at least one
  have hq1 : 1 ≤ q := by
    by_contra hlt
    refine htrunc ((if_pos hq0.le).trans (Int.floor_eq_zero_iff.mpr ⟨hq0.le, not_le.mp hlt⟩))
  obtain ⟨δ, hδ, hδ1, hδn⟩ : ∃ δ : ℚ, share.difficulty = .fin δ ∧ 1 ≤ δ ∧ δ ≤ n := by
    rw [hshare]
    by_cases hlt : (n : ℚ) < q
    · exact ⟨n, if_pos (decide_eq_true hlt), hn1, le_rfl⟩
    · exact ⟨q, if_neg (by simpa [Double.lt] using hlt), hq1, not_lt.mp hlt⟩
  have hle : δ / n ≤ 1 := (div_le_one (by linarith)).mpr hδn
  have hsmall : (2 : ℚ) ^ (-1074 : ℤ) ≤ δ / n := by
    have hpow : (2 : ℚ) ^ (-1074 : ℤ) ≤ 2 ^ (-53 : ℤ) :=
      zpow_le_zpow_right₀ (by norm_num) (by norm_num)
    have hnle : (n : ℚ) ≤ 2 ^ 53 := by exact_mod_cast hn'.le
    refine hpow.trans ?_
    rw [le_div_iff₀ (by linarith)]
    calc (2 : ℚ) ^ (-53 : ℤ) * n ≤ 2 ^ (-53 : ℤ) * 2 ^ 53 :=
          mul_le_mul_of_nonneg_left hnle (by positivity)
      _ = 1 := by norm_num
      _ ≤ δ := hδ1
  refine ⟨hnetwork, ⟨δ, hδ, by linarith, hδn⟩, ?_, ?_⟩
  · rw [hδ, hnetwork]
    obtain ⟨w, hw, hw0, hw1⟩ := Double.ofRat_of_le_one hsmall hle
    refine ⟨w, ?_, hw0, hw1⟩
    rw [← hw]
    exact if_neg (by linarith)
  · intro stored hstored hstored'
    obtain rfl := Double.fin.inj (hδ.symm.trans hstored)
    obtain hnet := Double.fin.inj (hnetwork.symm.trans hstored')
    unfold Payments.PPLNSPaymentScheme.score
    rw [← hnet]
    exact ⟨div_pos (by linarith) (by linarith), hle⟩

/-- What a reported number comes to. -/
theorem getNetworkDifficulty_of_reports {conversions : Conversions} {answers : Answers}
    {response : Daemon.DaemonResponse Text} {text : Text} {n : ℕ}
    (hconvert : conversions.toInt32 = convertToInt32)
    (hanswer : answers.getDifficulty = .ok response)
    (hresponse : response.response = some text) (h : Reports text n) :
    getNetworkDifficulty conversions answers = if n < 2 ^ 32 then .ok (UInt32.ofNat n).toInt32
      else .error (.overflow "Value was either too large or too small for a UInt32.") := by
  unfold getNetworkDifficulty
  rw [hanswer, hconvert]
  change convertToInt32 response.response = _
  rw [hresponse, convertToInt32_of_reports h]

/-- A daemon that reports `n`. -/
def reportingAnswers (n : ℕ) : Answers :=
  { sampleAnswers "a0" true with
    getDifficulty := .ok { response := some (ascii "0x" ++ hexNumber n), error := none } }

/-- A template with the target `2 ^ 254`. -/
def sampleTemplate : ReceivedTemplate where
  height := 7
  headerHash := some (ascii "a0")
  target := some (ascii "40" ++ List.replicate 62 48)

/-- From `2 ^ 31` on the job of a report has another difficulty, or none is made. -/
theorem lt_of_soundWeights {n : ℕ} (h : SoundWeights n) : n < 2 ^ 31 := by
  by_contra hge
  let conversions : Conversions := { sampleConversions with toInt32 := convertToInt32 }
  obtain ⟨job, hjob, hdifficulty, -⟩ := h conversions [] sampleTemplate (ascii "a0")
    (reportingAnswers n) _ _ _ rfl rfl rfl (reports_hexNumber n) rfl (by decide)
  have hread : getNetworkDifficulty conversions (reportingAnswers n) = _ :=
    getNetworkDifficulty_of_reports rfl rfl rfl (reports_hexNumber n)
  by_cases hlt : n < 2 ^ 32
  · rw [if_pos hlt] at hread
    have hmade : newJob conversions [] sampleTemplate (ascii "a0") (reportingAnswers n) = _ :=
      newJob_of_difficulty rfl (by decide) hread _ _
    obtain rfl := Except.ok.inj (hmade.symm.trans hjob)
    have hvalue := Double.fin.inj hdifficulty
    rw [toInt_ofNat hlt, if_neg hge] at hvalue
    have : (n : ℤ) - 2 ^ 32 = n := by exact_mod_cast hvalue
    omega
  · rw [if_neg hlt] at hread
    unfold newJob at hjob
    rw [hread] at hjob
    exact nomatch hjob

/-- **The weights are sound** exactly for the network difficulties below `2 ^ 31`. -/
theorem soundWeights_iff (n : ℕ) (hn : 1 ≤ n) (hn' : n < 2 ^ 53) : SoundWeights n ↔ n < 2 ^ 31 := by
  refine ⟨lt_of_soundWeights, ?_⟩
  intro hlt conversions id template headerHash answers response text target hconvert hanswer
    hresponse hreports htarget hlen
  have hread := getNetworkDifficulty_of_reports hconvert hanswer hresponse hreports
  rw [if_pos (by omega)] at hread
  have hvalue : ((UInt32.ofNat n).toInt32.toInt : ℚ) = n := by
    rw [toInt_ofNat (by omega), if_pos hlt]
    rfl
  refine ⟨_, newJob_of_difficulty htarget hlen hread id headerHash, congrArg Double.fin hvalue, ?_⟩
  intro env m worker request r nonces share hr hjob hpos hresult
  exact weight_of_accepted hn hn' hr hjob (congrArg Double.fin hvalue) hpos hresult

theorem ok_of_toOption {α : Type} {x : Except Exn α} {a : α} (h : x.toOption = some a) :
    x = .ok a := by
  cases x with
  | error e => exact nomatch h
  | ok b => exact congrArg Except.ok (Option.some.inj h)

/-- The job of a report of five. -/
def jobOfFive : AionJob where
  id := ascii "00000001"
  blockTemplate := ⟨7, ascii "a0", ascii "40" ++ List.replicate 62 48⟩
  difficulty := .fin (5 : ℤ)
  blockTarget := ⟨hexToReverseByteArray (ascii "40" ++ List.replicate 62 48), by decide⟩
  workerNonces := fun _ => none

/-- They are for a report of five: a worker of the difficulty 3 has a share accepted, of a weight of
three fifths. -/
theorem soundWeights_five : SoundWeights 5 ∧
    newJob { sampleConversions with toInt32 := convertToInt32 } (ascii "00000001") sampleTemplate
      (ascii "a0") (reportingAnswers 5) = .ok jobOfFive ∧
    ∃ share, ((sampleManager jobOfFive).submitShareAsync
        (sampleEnvironment ⟨List.replicate 32 0, rfl⟩) (sampleWorker (.fin 3))
        sampleRequest.toArray).result = .ok share ∧
      share.difficulty = .fin 3 ∧ SoundWeight 5 share := by
  have hsound : SoundWeights 5 :=
    (soundWeights_iff 5 (by norm_num) (by norm_num)).mpr (by norm_num)
  have hread := getNetworkDifficulty_of_reports
    (rfl : { sampleConversions with toInt32 := convertToInt32 }.toInt32 = convertToInt32)
    (rfl : (reportingAnswers 5).getDifficulty = _) rfl (reports_hexNumber 5)
  rw [if_pos (by norm_num)] at hread
  have hmade : newJob { sampleConversions with toInt32 := convertToInt32 } (ascii "00000001")
      sampleTemplate (ascii "a0") (reportingAnswers 5) = .ok jobOfFive :=
    newJob_of_difficulty rfl (by decide) hread _ _
  have hresult : (((sampleManager jobOfFive).submitShareAsync
      (sampleEnvironment ⟨List.replicate 32 0, rfl⟩) (sampleWorker (.fin 3))
      sampleRequest.toArray).result.toOption.map Mining.Share.difficulty) = some (.fin 3) := by
    decide +kernel
  obtain ⟨share, hshare, hdifficulty⟩ := Option.map_eq_some_iff.mp hresult
  have hok := ok_of_toOption hshare
  refine ⟨hsound, hmade, share, hok, hdifficulty, ?_⟩
  obtain ⟨job, hjob, -, hweight⟩ := hsound { sampleConversions with toInt32 := convertToInt32 }
    (ascii "00000001") sampleTemplate (ascii "a0") (reportingAnswers 5) _ _ _ rfl rfl rfl
    (reports_hexNumber 5) rfl (by decide)
  obtain rfl := Except.ok.inj (hmade.symm.trans hjob)
  exact hweight _ _ _ _ sampleRequest (fun _ => none) share rfl rfl (by decide +kernel) hok

/-- A report of `2 ^ 31` gets a job of a negative difficulty, one of `2 ^ 32` none. -/
theorem difficulty_misread :
    getNetworkDifficulty { sampleConversions with toInt32 := convertToInt32 }
      (reportingAnswers (2 ^ 31)) = .ok Int32.minValue ∧
    getNetworkDifficulty { sampleConversions with toInt32 := convertToInt32 }
      (reportingAnswers (2 ^ 32)) =
        .error (.overflow "Value was either too large or too small for a UInt32.") ∧
    ¬ SoundWeights (2 ^ 31) := by
  refine ⟨?_, ?_, fun h => absurd (lt_of_soundWeights h) (by norm_num)⟩
  · rw [getNetworkDifficulty_of_reports rfl rfl rfl (reports_hexNumber (2 ^ 31))]
    rfl
  · rw [getNetworkDifficulty_of_reports rfl rfl rfl (reports_hexNumber (2 ^ 32))]
    rfl

end AionPool.Aion.ShareWeight
