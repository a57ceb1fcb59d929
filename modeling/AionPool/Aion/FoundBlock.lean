import AionPool.Aion.DiffTarget
import AionPool.Aion.JobManager

/-!
# Found blocks

A header below the network target is a block, but `ProcessShareInternal` compares it with the
target of the worker's difficulty as well, and rejects it when it is not below that one.

* `FoundBlock` is a submission that finds a block, `Kept` says that it reaches the daemon.
* `candidate_iff`: the share is a candidate when the header is below both targets as they are read.
* **`found_block_kept_iff`**: every block found under a network target and a difficulty is kept
  exactly when the target is read as the number it is and the share target is not below it.

About `AionJob.cs:115-172` and `AionJobManager.cs:85-132`.
-/

namespace AionPool.Aion

open AionPool.Extensions AionPool.Daemon AionPool.Lib.Bytes AionJob
open AionPool.Lib.Binary64 (Double)

/-! ## The claim about one submission -/

/-- A submission names a valid job, passes the length and duplicate checks with a solution that is
verified, and its header is below the network target. -/
structure FoundBlock (env : Environment) (m : AionJobManager) (worker : StratumClient)
    (request : List Text) (r : SubmitRequest) (job job' : AionJob) (nonce solution : Text) :
    Prop where
  request : SubmitRequest.ofArray request = .ok r
  valid : m.validJobs r.jobId = some job
  accepted : job.acceptShare env.toAlgorithms worker r.nonce r.time r.soln =
    .ok (nonce, solution, job')
  verified : env.verify (job.serializeHeader nonce) (hexToByteArray solution) = true
  below : headerValue (env.digest (job.serializeHeader nonce ++ hexToByteArray solution)) <
    unsigned job.blockTarget.1

/-- The share is returned as a block candidate, and the block is submitted. -/
structure Kept (env : Environment) (m : AionJobManager) (worker : StratumClient)
    (request : List Text) (r : SubmitRequest) (job' : AionJob) (nonce solution : Text) :
    Prop where
  candidate : ∃ p, job'.processShareInternal env.toAlgorithms worker nonce r.time solution =
    .ok p ∧ p.share.isBlockCandidate = true
  submitted : (m.submitShareAsync env worker request).submissions =
    [⟨nonce, solution, job'.blockTemplate.headerHash⟩]

/-- The network target `target` is read as itself, and a worker with the difficulty `d` has a share
target that is not below it. -/
def KeepsBlocks (target : ℕ) (d : Double) : Prop :=
  target = 0 ∨ target < 2 ^ 255 ∧ ∃ q, d = .fin q ∧
    ((3 ≤ q ∧ (target : ℤ) ≤ 2 ^ 256 / ⌊q⌋) ∨ (q < 0 ∧ target ≤ shareTarget ⌈q⌉))

/-! ## Both targets -/

/-- The share is a candidate when the solution is verified and the header is below both targets. -/
theorem candidate_iff (alg : Algorithms) (job : AionJob) (worker : StratumClient)
    (nonce nTime solution : Text) :
    (∃ p, job.processShareInternal alg worker nonce nTime solution = .ok p ∧
      p.share.isBlockCandidate = true) ↔
    alg.verify (job.serializeHeader nonce) (hexToByteArray solution) = true ∧
    ∃ t, sentTarget worker.context.difficulty = .ok t ∧
      (headerValue (alg.digest (job.serializeHeader nonce ++ hexToByteArray solution)) : ℤ) < t ∧
      (headerValue (alg.digest (job.serializeHeader nonce ++ hexToByteArray solution)) : ℤ) <
        signed job.blockTarget.1 := by
  unfold processShareInternal
  dsimp only
  split
  · rename_i hverify
    refine iff_of_false ?_ fun h => absurd h.1 (by rw [hverify]; exact Bool.false_ne_true)
    rintro ⟨p, hp, -⟩
    exact nomatch hp
  · rename_i hverify
    rw [and_iff_right (Bool.eq_true_of_not_eq_false hverify)]
    cases sentTarget worker.context.difficulty with
    | error e =>
      refine iff_of_false ?_ ?_
      · rintro ⟨p, hp, -⟩
        exact nomatch hp
      · rintro ⟨t, ht, -⟩
        exact nomatch ht
    | ok t =>
      constructor
      · rintro ⟨p, hp, hcandidate⟩
        obtain ⟨t', ht', hp⟩ := bind_eq_ok.mp hp
        obtain rfl := Except.ok.inj ht'
        split at hp
        · exact nomatch hp
        · rename_i hlow
          obtain rfl := Except.ok.inj hp
          exact ⟨t, rfl, not_le.mp hlow, of_decide_eq_true hcandidate⟩
      · rintro ⟨t', ht', hlow, hcandidate⟩
        obtain rfl := Except.ok.inj ht'
        refine ⟨_, bind_eq_ok.mpr ⟨t, rfl, if_neg (not_le.mpr hlow)⟩, decide_eq_true hcandidate⟩

/-- A header that is not below the share target is rejected, whatever the network target is. -/
theorem processShareInternal_of_le {alg : Algorithms} {job : AionJob} {worker : StratumClient}
    {nonce nTime solution : Text} {t : ℤ}
    (hverify : alg.verify (job.serializeHeader nonce) (hexToByteArray solution) = true)
    (ht : sentTarget worker.context.difficulty = .ok t)
    (hle : t ≤ headerValue (alg.digest (job.serializeHeader nonce ++ hexToByteArray solution))) :
    ∃ message, job.processShareInternal alg worker nonce nTime solution =
      .error (.stratum .lowDifficultyShare message) := by
  unfold processShareInternal
  dsimp only
  rw [if_neg (by rw [hverify]; exact Bool.true_eq_false_eq_False), ht]
  exact ⟨_, if_pos hle⟩

/-- What is submitted for a share, and whether it is a candidate. -/
theorem processShareInternal_ok {alg : Algorithms} {job : AionJob} {worker : StratumClient}
    {nonce nTime solution : Text} {p : ProcessedShare}
    (h : job.processShareInternal alg worker nonce nTime solution = .ok p) :
    p.nonce = nonce ∧ p.solution = solution ∧ p.headerHash = job.blockTemplate.headerHash ∧
      p.share.isBlockCandidate = decide ((headerValue (alg.digest
        (job.serializeHeader nonce ++ hexToByteArray solution)) : ℤ) <
          signed job.blockTarget.1) := by
  unfold processShareInternal at h
  dsimp only at h
  split at h
  · exact nomatch h
  obtain ⟨t, -, h⟩ := bind_eq_ok.mp h
  split at h
  · exact nomatch h
  obtain rfl := Except.ok.inj h
  exact ⟨rfl, rfl, rfl, rfl⟩

/-- The network target is read as itself below `2 ^ 255`, and as a negative number from there on. -/
theorem lt_signed_iff (target : Bytes32) (v : ℕ) (hv : v < unsigned target.1) :
    (v : ℤ) < signed target.1 ↔ unsigned target.1 < 2 ^ 255 := by
  have hlt := unsigned_lt target.1
  unfold signed
  rw [target.2] at hlt ⊢
  split
  · rename_i h
    exact iff_of_true (by exact_mod_cast hv) (by omega)
  · rename_i h
    refine iff_of_false ?_ (by omega)
    push_cast
    omega

/-- Every value below the target is below the share target as well. -/
theorem le_shareTarget_iff {target : ℕ} (hpos : 0 < target) (q : ℚ) :
    target ≤ shareTarget (truncate q) ↔
      (3 ≤ q ∧ (target : ℤ) ≤ 2 ^ 256 / ⌊q⌋) ∨ (q < 0 ∧ target ≤ shareTarget ⌈q⌉) := by
  unfold truncate
  rcases lt_or_ge q 0 with hneg | hnn
  · rw [if_neg (not_le.mpr hneg), or_iff_right (fun h => by linarith [h.1]), and_iff_right hneg]
  · rw [if_pos hnn, or_iff_left (fun h => by linarith [h.1])]
    have hfloor : 0 ≤ ⌊q⌋ := Int.floor_nonneg.mpr hnn
    have hthree : (3 ≤ ⌊q⌋) ↔ 3 ≤ q := by
      rw [Int.le_floor]
      norm_num
    rcases le_or_gt 3 ⌊q⌋ with h3 | h3
    · rw [and_iff_right (hthree.mp h3), ← shareTarget_of_three_le h3]
      exact_mod_cast Iff.rfl
    · rw [shareTarget_of_lt_three hfloor h3]
      exact iff_of_false (by omega) fun h => absurd (hthree.mpr h.1) (by omega)

/-! ## A submission -/

/-- An environment in which every header has the hash `hash`. -/
def sampleEnvironment (hash : Bytes32) : Environment where
  toAlgorithms := { sampleAlgorithms with digest := fun _ => hash }
  submitWork := fun _ => return ⟨none, none⟩
  now := 5

/-- A manager with one job. -/
def sampleManager (job : AionJob) : AionJobManager where
  poolId := "aion1"
  clusterName := none
  validJobs := fun id => if id = job.id then some job else none

/-- A submission for `sampleJob`. -/
def sampleRequest : SubmitRequest where
  miner := ascii "0xa0miner"
  jobId := ascii "00000001"
  time := List.replicate 16 48
  nonce := List.replicate 60 48
  soln := List.replicate 2816 48

def SubmitRequest.toArray (r : SubmitRequest) : List Text :=
  [r.miner, r.jobId, r.time, r.nonce, r.soln]

/-- For every target and difficulty, and every value below the target, a block with that value can
be found. -/
theorem exists_foundBlock (target : Bytes32) (d : Double) {v : ℕ} (hv : v < unsigned target.1) :
    ∃ hash job' nonce solution, headerValue hash = v ∧
      FoundBlock (sampleEnvironment hash) (sampleManager { sampleJob with blockTarget := target })
        (sampleWorker d) sampleRequest.toArray sampleRequest
        { sampleJob with blockTarget := target } job' nonce solution := by
  have hlt : v < 256 ^ 32 := by
    have := unsigned_lt target.1
    rw [target.2] at this
    exact hv.trans this
  have hlength : (bytes 32 v).reverse.length = 32 := by
    rw [List.length_reverse, length_bytes]
  have hhash : headerValue ⟨(bytes 32 v).reverse, hlength⟩ = v := by
    unfold headerValue
    rw [List.reverse_reverse, unsigned_bytes hlt]
  have hcheck := checkShare_of_length (sampleWorker d) sampleRequest.nonce sampleRequest.time
    sampleRequest.soln rfl (List.cons_ne_nil _ _) List.length_replicate List.length_replicate
  refine ⟨_, _, _, _, hhash, ⟨rfl, rfl, bind_eq_ok.mpr ⟨_, hcheck, rfl⟩, rfl, hhash.trans_lt hv⟩⟩

/-! ## The exact condition -/

/-- A found block is kept where the target and the difficulty keep blocks. -/
theorem kept_of_keepsBlocks {env : Environment} {m : AionJobManager} {worker : StratumClient}
    {request : List Text} {r : SubmitRequest} {job job' : AionJob} {nonce solution : Text}
    (hfound : FoundBlock env m worker request r job job' nonce solution)
    (hkeeps : KeepsBlocks (unsigned job.blockTarget.1) worker.context.difficulty) :
    Kept env m worker request r job' nonce solution := by
  have hbelow := hfound.below
  have hpos : 0 < unsigned job.blockTarget.1 := (Nat.zero_le _).trans_lt hbelow
  obtain ⟨hsign, q, hq, hshare⟩ := hkeeps.resolve_left hpos.ne'
  have hle := (le_shareTarget_iff hpos q).mpr hshare
  have hn : truncate q ≠ 0 := by
    intro h0
    rw [h0, shareTarget_of_lt_three le_rfl (by norm_num)] at hle
    omega
  obtain ⟨t, ht, hvalue⟩ := sentTarget_spec hn
  have hcandidate := (candidate_iff _ _ _ _ r.time _).mpr ⟨hfound.verified, t, hq ▸ ht, by omega,
    (lt_signed_iff _ _ hbelow).mpr hsign⟩
  obtain ⟨p, hp, hp'⟩ := hcandidate
  obtain ⟨hnonce, hsolution, hheader, -⟩ := processShareInternal_ok hp
  have hsubmitted :=
    AionJobManager.submissions_submitShareAsync hfound.request hfound.valid hfound.accepted
  rw [hp] at hsubmitted
  dsimp only at hsubmitted
  rw [if_pos hp', hnonce, hsolution, hheader] at hsubmitted
  refine ⟨⟨p, ?_, hp'⟩, ?_⟩
  · rw [processShareInternal_of_acceptShare hfound.accepted]
    exact hp
  · obtain ⟨-, rfl⟩ := registerNonce_ok (acceptShare_ok hfound.accepted).2
    exact hsubmitted

/-- **Every block found under a network target and a difficulty is kept** exactly when the target is
below `2 ^ 255` and not above the share target of the difficulty. -/
theorem found_block_kept_iff (target : Bytes32) (d : Double) :
    (∀ env m worker request r job job' nonce solution,
      job.blockTarget = target → worker.context.difficulty = d →
      FoundBlock env m worker request r job job' nonce solution →
      Kept env m worker request r job' nonce solution) ↔
    KeepsBlocks (unsigned target.1) d := by
  constructor
  · intro h
    rcases Nat.eq_zero_or_pos (unsigned target.1) with h0 | hpos
    · exact Or.inl h0
    -- the block with the largest value there is
    have hlast : unsigned target.1 - 1 < unsigned target.1 := by omega
    obtain ⟨hash, job', nonce, solution, hhash, hfound⟩ := exists_foundBlock target d hlast
    have hkept := h _ _ _ _ _ _ _ _ _ rfl rfl hfound
    have hcandidate := hkept.candidate
    rw [processShareInternal_of_acceptShare hfound.accepted] at hcandidate
    obtain ⟨-, t, ht, hlow, hsigned⟩ := (candidate_iff _ _ _ _ _ _).mp hcandidate
    obtain ⟨q, rfl, hn⟩ := sentTarget_eq_ok ht
    obtain ⟨t', ht', hvalue⟩ := sentTarget_spec hn
    obtain rfl := Except.ok.inj (ht.symm.trans ht')
    have hlow' : ((unsigned target.1 - 1 : ℕ) : ℤ) < t := by
      rw [← hhash]
      exact hlow
    have hsigned' : ((unsigned target.1 - 1 : ℕ) : ℤ) < signed target.1 := by
      rw [← hhash]
      exact hsigned
    exact Or.inr ⟨(lt_signed_iff target _ hlast).mp hsigned', q, rfl,
      (le_shareTarget_iff hpos q).mp (by omega)⟩
  · intro hkeeps env m worker request r job job' nonce solution htarget hd hfound
    subst htarget hd
    exact kept_of_keepsBlocks hfound hkeeps

/-- Under the target `2 ^ 254`, a worker with the difficulty 8 finds a block of the value `2 ^ 253`,
which is rejected and not submitted. -/
theorem found_block_rejected :
    ∃ env m worker request r job job' nonce solution message,
      FoundBlock env m worker request r job job' nonce solution ∧
      job'.processShareInternal env.toAlgorithms worker nonce r.time solution =
        .error (.stratum .lowDifficultyShare message) ∧
      (m.submitShareAsync env worker request).submissions = [] := by
  have hv : 2 ^ 253 < unsigned sampleJob.blockTarget.1 := by decide +kernel
  have ht : sentTarget (sampleWorker (.fin 8)).context.difficulty = .ok (2 ^ 253) := by
    decide +kernel
  obtain ⟨hash, job', nonce, solution, hhash, hfound⟩ :=
    exists_foundBlock sampleJob.blockTarget (.fin 8) hv
  have hle : (2 ^ 253 : ℤ) ≤ headerValue hash := by
    rw [hhash]
    norm_num
  obtain ⟨message, herror⟩ := processShareInternal_of_le hfound.verified ht hle
  refine ⟨_, _, _, _, _, _, _, _, _, message, hfound, ?_, ?_⟩
  · rw [processShareInternal_of_acceptShare hfound.accepted]
    exact herror
  · rw [AionJobManager.submissions_submitShareAsync hfound.request hfound.valid hfound.accepted,
      herror]

end AionPool.Aion
