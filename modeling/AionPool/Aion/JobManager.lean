import AionPool.Aion.Job
import AionPool.Daemon

/-!
# `AionJobManager`

`SubmitShareAsync`: the job a submission names processes it, and a block candidate is submitted to
the daemon. The submissions made are part of the result.

* `submissions_submitShareAsync`: which block is submitted.

Models `AionJobManager.cs:85-132` and `:277-298`.
-/

namespace AionPool.Aion

open AionPool.Extensions AionPool.Daemon
open AionPool.Lib.Binary64 (Double)

/-- `AionJobManager`, with the configuration it reads. -/
structure AionJobManager where
  poolId : String
  clusterName : Option String
  validJobs : Text → Option AionJob

/-- The parameters of `submitblock`. -/
structure BlockSubmission where
  nonce : Text
  solution : Text
  headerHash : Text
  deriving DecidableEq

/-- The algorithms of a job, the daemon's answer to a submitted block, and the clock. -/
structure Environment extends Algorithms where
  submitWork : BlockSubmission → Except Exn (DaemonResponse Text)
  now : DateTime

/-- A stratum submission; `miner` is not read. -/
structure SubmitRequest where
  miner : Text
  jobId : Text
  time : Text
  nonce : Text
  soln : Text

/-- `request[0]` to `request[4]`. -/
def SubmitRequest.ofArray : List Text → Except Exn SubmitRequest
  | miner :: jobId :: time :: nonce :: soln :: _ => return ⟨miner, jobId, time, nonce, soln⟩
  | _ => throw .indexOutOfRange

/-- The result of `SubmitShareAsync`, the manager after it, and the blocks submitted. -/
structure SubmitResult where
  result : Except Exn (Mining.Share Double)
  manager : AionJobManager
  submissions : List BlockSubmission

namespace AionJobManager

/-- `SubmitBlockAsync`. -/
def submitBlockAsync (env : Environment) (submission : BlockSubmission) : Except Exn Bool := do
  let response ← env.submitWork submission
  return response.error.isNone

/-- `SubmitShareAsync` once the job is found and has processed the share. -/
def finishShare (env : Environment) (m : AionJobManager) (processed : ProcessedShare) :
    SubmitResult :=
  let share := { processed.share with
    poolId := m.poolId
    source := m.clusterName
    created := env.now }
  if share.isBlockCandidate then
    let submission := ⟨processed.nonce, processed.solution, processed.headerHash⟩
    { result := do
        let accepted ← submitBlockAsync env submission
        return { share with isBlockCandidate := accepted }
      manager := m
      submissions := [submission] }
  else ⟨.ok share, m, []⟩

/-- `SubmitShareAsync`. -/
def submitShareAsync (env : Environment) (m : AionJobManager) (worker : StratumClient)
    (request : List Text) : SubmitResult :=
  match SubmitRequest.ofArray request with
  | .error e => ⟨.error e, m, []⟩
  | .ok r =>
    match m.validJobs r.jobId with
    | none => ⟨.error (.stratum .minusOne "stale share"), m, []⟩
    | some job =>
      let (processed, job) :=
        job.processShareAsync env.toAlgorithms worker r.nonce r.time r.soln
      let m := { m with validJobs := Function.update m.validJobs r.jobId (some job) }
      match processed with
      | .error e => ⟨.error e, m, []⟩
      | .ok processed => m.finishShare env processed

/-- **What is submitted** for a submission that gets past `RegisterNonce`: the block, when the job
makes it a candidate. -/
theorem submissions_submitShareAsync {env : Environment} {m : AionJobManager}
    {worker : StratumClient} {request : List Text} {r : SubmitRequest} {job job' : AionJob}
    {nonce solution : Text} (hr : SubmitRequest.ofArray request = .ok r)
    (hjob : m.validJobs r.jobId = some job)
    (hacc : job.acceptShare env.toAlgorithms worker r.nonce r.time r.soln =
      .ok (nonce, solution, job')) :
    (m.submitShareAsync env worker request).submissions =
      match job.processShareInternal env.toAlgorithms worker nonce r.time solution with
      | .error _ => []
      | .ok p =>
        if p.share.isBlockCandidate then [⟨p.nonce, p.solution, p.headerHash⟩] else [] := by
  unfold submitShareAsync
  rw [hr]
  dsimp only
  rw [hjob]
  unfold AionJob.processShareAsync
  dsimp only
  rw [hacc]
  dsimp only
  rw [AionJob.processShareInternal_of_acceptShare hacc]
  cases job.processShareInternal env.toAlgorithms worker nonce r.time solution with
  | error e => rfl
  | ok p =>
    unfold finishShare
    dsimp only
    split
    · rfl
    · rfl

end AionJobManager

end AionPool.Aion
