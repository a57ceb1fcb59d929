import AionPool.Aion.FoundBlock
import AionPool.Native.Equihash210

/-!
# The proof of work of a share

`AionJob` with the functions it really calls: `EquihashSolver_210_9.Verify`, which passes the bytes
to `equihash_verify_210_9_export`, and `Blake2b.Digest`, which passes them to `blake2b_hash`.

* `ProofOfWork header solution bound`: the solution solves the Equihash of the header, and the hash
  of both is below the bound.
* **`share_accepted_iff`**: a submission with the right lengths and a new nonce is a share if it is
  a proof of work for the template and the worker's target, and any other is none.
* **`block_submitted_iff`**: a block goes to the daemon if it is one for the network target too.

About `AionJob.cs:78-179`, with `EquihashSolver.cs:68-87`, `Blake2b.cs:29-38` and
`exports.cpp:146-149` and `:242-249`.
-/

namespace AionPool.Aion

open AionPool.Extensions AionPool.Daemon AionPool.Lib.Bytes AionPool.Native AionJob
open AionPool.Native.Equihash210 (Accepts)
open AionPool.Lib.Binary64 (Double)

theorem length_hashOf (m : List UInt8) : (Blake2b.hashOf 32 [] m).length = 32 := by
  unfold Blake2b.hashOf Blake2b.hashFrom
  rw [List.length_take, Blake2b210.length_wordBytes]
  rfl

/-- `Blake2b.Digest`: the context of the hash is on the stack. -/
def digest (ctx : Blake2bCtx) (data : List UInt8) : Bytes32 :=
  ⟨(Blake2b.hash ctx data).getD [], by
    rw [Blake2b.hash_eq, Option.getD_some]
    exact length_hashOf data⟩

/-- The native library, built for some instruction set. -/
def nativeAlgorithms (build : Build) (ctx : Blake2bCtx) (culture : Culture) : Algorithms where
  verify header solution := Equihash210.equihashVerifyExport build header solution == some true
  digest := digest ctx
  culture := culture

/-- A hash, as the number that is compared with the targets. -/
def hashNumber (m : List UInt8) : ℕ := unsigned (Blake2b.hashOf 32 [] m).reverse

/-- The solution solves the Equihash of the header, and the hash of both is below the bound. -/
structure ProofOfWork (header solution : List UInt8) (bound : ℤ) : Prop where
  accepts : Accepts header solution
  below : (hashNumber (header ++ solution) : ℤ) < bound

variable (build : Build) (ctx : Blake2bCtx) (culture : Culture)

theorem verify_iff_accepts (header solution : List UInt8) :
    (nativeAlgorithms build ctx culture).verify header solution = true ↔
      Accepts header solution := by
  obtain ⟨valid, hvalid, hiff⟩ := Equihash210.verify_eq build header solution
  change (Equihash210.equihashVerifyExport build header solution == some true) = true ↔ _
  rw [hvalid, beq_iff_eq, Option.some.injEq, hiff]

theorem headerValue_digest (m : List UInt8) :
    headerValue ((nativeAlgorithms build ctx culture).digest m) = hashNumber m := by
  change unsigned ((Blake2b.hash ctx m).getD []).reverse = _
  rw [Blake2b.hash_eq]
  rfl

/-- `ProcessShareInternal`, with the functions it calls. -/
theorem processShareInternal_iff (job : AionJob) (worker : StratumClient)
    (nonce nTime solution : Text) :
    (∃ p, job.processShareInternal (nativeAlgorithms build ctx culture) worker nonce nTime
      solution = .ok p) ↔
    ∃ t, sentTarget worker.context.difficulty = .ok t ∧
      ProofOfWork (job.serializeHeader nonce) (hexToByteArray solution) t := by
  unfold processShareInternal
  dsimp only
  split
  · rename_i hverify
    refine iff_of_false (fun ⟨p, hp⟩ => nomatch hp) ?_
    rintro ⟨t, -, hwork⟩
    have := (verify_iff_accepts build ctx culture _ _).mpr hwork.accepts
    exact absurd (this.symm.trans hverify) (by decide)
  · rename_i hverify
    have haccepts := (verify_iff_accepts build ctx culture _ _).mp
      (Bool.eq_true_of_not_eq_false hverify)
    rw [headerValue_digest]
    cases sentTarget worker.context.difficulty with
    | error e => exact iff_of_false (fun ⟨p, hp⟩ => nomatch hp) fun ⟨t, ht, _⟩ => nomatch ht
    | ok t =>
      constructor
      · rintro ⟨p, hp⟩
        obtain ⟨t', ht', hp⟩ := bind_eq_ok.mp hp
        obtain rfl := Except.ok.inj ht'
        split at hp
        · exact nomatch hp
        · rename_i hlow
          exact ⟨t, rfl, haccepts, not_le.mp hlow⟩
      · rintro ⟨t', ht', hwork⟩
        obtain rfl := Except.ok.inj ht'
        exact ⟨_, bind_eq_ok.mpr ⟨t, rfl, if_neg (not_le.mpr hwork.below)⟩⟩

/-- **A share**: a submission becomes one if its fields have the right lengths, its nonce is new,
and it is a proof of work for the template and the target of the worker, and only then. -/
theorem share_accepted_iff (job : AionJob) (worker : StratumClient)
    (extraNonce2 nTime solution : Text) :
    (∃ p job', job.processShareAsync (nativeAlgorithms build ctx culture) worker extraNonce2 nTime
      solution = (.ok p, job')) ↔
    job.Admits (nativeAlgorithms build ctx culture) worker extraNonce2 nTime solution ∧
      ∃ t, sentTarget worker.context.difficulty = .ok t ∧
        ProofOfWork
          (hexToByteArray (job.blockTemplate.headerHash ++
            (worker.context.extraNonce1.getD [] ++ extraNonce2)))
          (hexToByteArray (if solution.length = 2822 then solution.drop 6 else solution)) t := by
  unfold processShareAsync
  split
  · rename_i e he
    refine iff_of_false (fun ⟨p, job', hp⟩ => nomatch hp) ?_
    rintro ⟨hadmits, -⟩
    obtain ⟨job', haccept⟩ := exists_acceptShare_iff.mpr ⟨hadmits, rfl, rfl⟩
    exact nomatch he.symm.trans haccept
  · rename_i nonce solution' job' haccept
    have hsame := processShareInternal_of_acceptShare haccept
    obtain ⟨hadmits, rfl, rfl⟩ := exists_acceptShare_iff.mp ⟨job', haccept⟩
    rw [hsame]
    constructor
    · rintro ⟨p, job'', hp⟩
      exact ⟨hadmits, (processShareInternal_iff build ctx culture job worker _ nTime _).mp
        ⟨p, (Prod.mk.inj hp).1⟩⟩
    · rintro ⟨-, hwork⟩
      obtain ⟨p, hp⟩ :=
        (processShareInternal_iff build ctx culture job worker _ nTime _).mpr hwork
      exact ⟨p, job', by rw [hp]⟩

/-- A block is submitted for a submission that gets past the checks of a valid job. -/
theorem mem_submissions {env : Environment} {m : AionJobManager} {worker : StratumClient}
    {request : List Text} {b : BlockSubmission}
    (h : b ∈ (m.submitShareAsync env worker request).submissions) :
    ∃ r job nonce solution job', SubmitRequest.ofArray request = .ok r ∧
      m.validJobs r.jobId = some job ∧
      job.acceptShare env.toAlgorithms worker r.nonce r.time r.soln =
        .ok (nonce, solution, job') := by
  cases hr : SubmitRequest.ofArray request with
  | error e =>
    unfold AionJobManager.submitShareAsync at h
    rw [hr] at h
    exact absurd h List.not_mem_nil
  | ok r =>
    cases hjob : m.validJobs r.jobId with
    | none =>
      unfold AionJobManager.submitShareAsync at h
      rw [hr] at h
      dsimp only at h
      rw [hjob] at h
      exact absurd h List.not_mem_nil
    | some job =>
      cases haccept : job.acceptShare env.toAlgorithms worker r.nonce r.time r.soln with
      | error e =>
        unfold AionJobManager.submitShareAsync AionJob.processShareAsync at h
        rw [hr] at h
        dsimp only at h
        rw [hjob] at h
        dsimp only at h
        rw [haccept] at h
        exact absurd h List.not_mem_nil
      | ok a =>
        obtain ⟨nonce, solution, job'⟩ := a
        exact ⟨r, job, nonce, solution, job', rfl, hjob, haccept⟩

/-- **A block**: what goes to the daemon is a proof of work for the target of the worker and for the
network target, as it is read, of a job that is valid. -/
theorem block_submitted_iff (submitWork : BlockSubmission → Except Exn (DaemonResponse Text))
    (now : DateTime) (m : AionJobManager) (worker : StratumClient) (request : List Text)
    (b : BlockSubmission) :
    b ∈ (m.submitShareAsync ⟨nativeAlgorithms build ctx culture, submitWork, now⟩ worker
      request).submissions ↔
    ∃ r job job', SubmitRequest.ofArray request = .ok r ∧ m.validJobs r.jobId = some job ∧
      job.acceptShare (nativeAlgorithms build ctx culture) worker r.nonce r.time r.soln =
        .ok (b.nonce, b.solution, job') ∧
      b.headerHash = job.blockTemplate.headerHash ∧
      ∃ t, sentTarget worker.context.difficulty = .ok t ∧
        ProofOfWork (hexToByteArray (b.headerHash ++ b.nonce)) (hexToByteArray b.solution)
          (min t (signed job.blockTarget.1)) := by
  set alg := nativeAlgorithms build ctx culture with halg
  constructor
  · intro hb
    obtain ⟨r, job, nonce, solution, job', hr, hjob, haccept⟩ := mem_submissions hb
    have hcandidate := candidate_iff alg job worker nonce r.time solution
    rw [AionJobManager.submissions_submitShareAsync hr hjob haccept] at hb
    cases hp : job.processShareInternal alg worker nonce r.time solution with
    | error e =>
      rw [hp] at hb
      exact absurd hb List.not_mem_nil
    | ok p =>
      obtain ⟨hnonce, hsolution, hheader, -⟩ := processShareInternal_ok hp
      rw [hp] at hb hcandidate
      dsimp only at hb
      split at hb
      · rename_i hcand
        obtain rfl := List.mem_singleton.mp hb
        obtain ⟨hverify, t, ht, hlow, hblock⟩ := hcandidate.mp ⟨p, rfl, hcand⟩
        rw [halg, headerValue_digest] at hlow hblock
        rw [hnonce, hsolution, hheader]
        exact ⟨r, job, job', hr, hjob, haccept, rfl, t, ht,
          (verify_iff_accepts build ctx culture _ _).mp hverify, lt_min hlow hblock⟩
      · exact absurd hb List.not_mem_nil
  · rintro ⟨r, job, job', hr, hjob, haccept, hheader, t, ht, hwork⟩
    have hbelow := lt_min_iff.mp hwork.below
    have hserialize : hexToByteArray (b.headerHash ++ b.nonce) = job.serializeHeader b.nonce := by
      rw [hheader]
      rfl
    have haccepts := hwork.accepts
    rw [hserialize] at hbelow haccepts
    obtain ⟨p, hp, hcand⟩ := (candidate_iff alg job worker b.nonce r.time b.solution).mpr
      ⟨(verify_iff_accepts build ctx culture _ _).mpr haccepts, t, ht, by
        rw [halg, headerValue_digest]
        exact hbelow⟩
    obtain ⟨hnonce, hsolution, hheader', -⟩ := processShareInternal_ok hp
    rw [AionJobManager.submissions_submitShareAsync hr hjob haccept]
    dsimp only
    rw [hp]
    dsimp only
    rw [if_pos hcand, hnonce, hsolution, hheader', ← hheader]
    exact List.mem_singleton_self b

end AionPool.Aion
