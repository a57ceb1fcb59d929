import AionPool.Aion.Utils
import AionPool.Mining.ShareRecorder
import Mathlib.Logic.Function.Basic

/-!
# `AionJob`

The shares of a block template: the checks of a submission, the nonces each worker has used, and the
two targets its hash is compared with. The Equihash verifier, the header hash and the culture are
parameters.

Models `AionJob.cs:28-186`. Out of scope: the daemon client of a job, which is asked for the network
difficulty only when the job is made.
-/

namespace AionPool.Aion

open AionPool.Extensions AionPool.Lib.Bytes
open AionPool.Lib.Binary64 (Double)

/-! ## Data -/

/-- Thirty-two bytes: a hash, or a `uint256` with its least significant byte first. -/
abbrev Bytes32 := { bs : List UInt8 // bs.length = 32 }

/-- `new uint256(byte[])`. -/
def uint256 (bytes : List UInt8) : Except Exn Bytes32 :=
  if h : bytes.length = 32 then return ⟨bytes, h⟩ else throw .format

/-- `AionBlockTemplate`. -/
structure AionBlockTemplate where
  height : UInt64
  headerHash : Text
  target : Text

/-- `AionWorkerContext`. -/
structure AionWorkerContext where
  minerName : String
  workerName : Option String
  userAgent : Option String
  extraNonce1 : Option Text
  difficulty : Double
  deriving DecidableEq

/-- `StratumClient`; its connection id stands for the object. -/
structure StratumClient where
  connectionId : String
  remoteEndpoint : Option String
  context : AionWorkerContext
  deriving DecidableEq

/-- What a job calls: `equihash.Verify`, `headerHasher.Digest`, and the current culture. -/
structure Algorithms where
  verify : List UInt8 → List UInt8 → Bool
  digest : List UInt8 → Bytes32
  culture : Culture

/-- `AionJob`; `workerNonces` has a set of nonces for each worker that submitted one. -/
structure AionJob where
  id : Text
  blockTemplate : AionBlockTemplate
  difficulty : Double
  blockTarget : Bytes32
  workerNonces : String → Option (List Text)

/-- The constructor, with the network difficulty the daemon answers. -/
def AionJob.create (id : Text) (blockTemplate : AionBlockTemplate) (difficulty : Int32) :
    Except Exn AionJob := do
  let blockTarget ← uint256 (hexToReverseByteArray (skip0x blockTemplate.target))
  return ⟨id, blockTemplate, .fin difficulty.toInt, blockTarget, fun _ => none⟩

/-- The result of `ProcessShareAsync`. -/
structure ProcessedShare where
  share : Mining.Share Double
  nonce : Text
  solution : Text
  headerHash : Text
  nTime : Text

namespace AionJob

/-! ## Duplicates -/

/-- `RegisterNonce`. -/
def registerNonce (alg : Algorithms) (job : AionJob) (worker : StratumClient) (nonce : Text) :
    Except Exn AionJob :=
  let nonceLower := alg.culture.toLower nonce
  match job.workerNonces worker.connectionId with
  | none => return { job with
      workerNonces := Function.update job.workerNonces worker.connectionId (some [nonceLower]) }
  | some nonces =>
    if nonceLower ∈ nonces then throw (.stratum .minusOne "duplicate share")
    else return { job with
      workerNonces :=
        Function.update job.workerNonces worker.connectionId (some (nonceLower :: nonces)) }

/-- The checks of `ProcessShareAsync` before the nonce is registered: the nonce and the solution
that are processed. -/
def checkShare (worker : StratumClient) (extraNonce2 nTime solution : Text) :
    Except Exn (Text × Text) :=
  let nonce := worker.context.extraNonce1.getD [] ++ extraNonce2
  if extraNonce2 = [] ∨ nTime = [] ∨ solution = [] then throw .argument
  else if nTime.length ≠ 16 then throw (.stratum .other "incorrect size of ntime")
  else if nonce.length ≠ 64 then throw (.stratum .other "incorrect size of extraNonce2")
  -- the solution may come with a length of three bytes in front
  else if solution.length = 2822 then return (nonce, solution.drop 6)
  else if solution.length ≠ 2816 then throw (.stratum .other "incorrect size of solution")
  else return (nonce, solution)

/-- What gets past the checks, and what is processed of it. -/
theorem checkShare_eq_ok_iff {worker : StratumClient} {extraNonce2 nTime solution nonce
    solution' : Text} : checkShare worker extraNonce2 nTime solution = .ok (nonce, solution') ↔
      (extraNonce2 ≠ [] ∧ nTime.length = 16 ∧
        (worker.context.extraNonce1.getD [] ++ extraNonce2).length = 64 ∧
        (solution.length = 2816 ∨ solution.length = 2822)) ∧
      nonce = worker.context.extraNonce1.getD [] ++ extraNonce2 ∧
      solution' = if solution.length = 2822 then solution.drop 6 else solution := by
  have hempty : ∀ xs : Text, xs = [] → xs.length = 0 := fun xs h => congrArg List.length h
  unfold checkShare
  dsimp only
  split
  · rename_i h
    refine iff_of_false nofun fun hright => ?_
    obtain ⟨⟨hne, htime, -, hsolution⟩, -⟩ := hright
    rcases h with h | h | h
    · exact hne h
    · have := hempty _ h
      omega
    · have := hempty _ h
      omega
  rename_i hne
  split
  · rename_i htime
    exact iff_of_false nofun fun hright => htime hright.1.2.1
  rename_i htime
  split
  · rename_i hnonce
    exact iff_of_false nofun fun hright => hnonce hright.1.2.2.1
  rename_i hnonce
  have hsizes : extraNonce2 ≠ [] ∧ nTime.length = 16 ∧
      (worker.context.extraNonce1.getD [] ++ extraNonce2).length = 64 :=
    ⟨fun h => hne (.inl h), not_not.mp htime, not_not.mp hnonce⟩
  split
  · rename_i hlong
    constructor
    · intro h
      obtain ⟨rfl, rfl⟩ := Prod.mk.inj (Except.ok.inj h)
      exact ⟨⟨hsizes.1, hsizes.2.1, hsizes.2.2, .inr hlong⟩, rfl, rfl⟩
    · rintro ⟨-, rfl, rfl⟩
      rfl
  rename_i hlong
  split
  · rename_i hshort
    exact iff_of_false nofun fun hright => hright.1.2.2.2.elim hshort hlong
  · rename_i hshort
    constructor
    · intro h
      obtain ⟨rfl, rfl⟩ := Prod.mk.inj (Except.ok.inj h)
      exact ⟨⟨hsizes.1, hsizes.2.1, hsizes.2.2, .inl (not_not.mp hshort)⟩, rfl, rfl⟩
    · rintro ⟨-, rfl, rfl⟩
      rfl

/-- What gets past the checks has a nonce of 64 characters. -/
theorem checkShare_ok {worker : StratumClient} {extraNonce2 nTime solution : Text}
    {r : Text × Text} (h : checkShare worker extraNonce2 nTime solution = .ok r) :
    r.1 = worker.context.extraNonce1.getD [] ++ extraNonce2 ∧ r.1.length = 64 := by
  obtain ⟨⟨-, -, hlength, -⟩, hnonce, -⟩ := checkShare_eq_ok_iff.mp h
  exact ⟨hnonce, hnonce ▸ hlength⟩

/-- A submission of the right lengths gets past the checks. -/
theorem checkShare_of_length (worker : StratumClient) (extraNonce2 nTime solution : Text)
    (hnonce : (worker.context.extraNonce1.getD [] ++ extraNonce2).length = 64)
    (hextra : extraNonce2 ≠ []) (htime : nTime.length = 16) (hsolution : solution.length = 2816) :
    checkShare worker extraNonce2 nTime solution =
      .ok (worker.context.extraNonce1.getD [] ++ extraNonce2, solution) :=
  checkShare_eq_ok_iff.mpr
    ⟨⟨hextra, htime, hnonce, .inl hsolution⟩, rfl, (if_neg (by omega)).symm⟩

/-- Only the set of the worker changes: it has the lower case of the nonce, which is new. -/
theorem registerNonce_ok {alg : Algorithms} {job job' : AionJob} {worker : StratumClient}
    {nonce : Text} (h : job.registerNonce alg worker nonce = .ok job') :
    (∀ nonces, job.workerNonces worker.connectionId = some nonces →
      alg.culture.toLower nonce ∉ nonces) ∧
    job' = { job with
      workerNonces := Function.update job.workerNonces worker.connectionId
        (some (alg.culture.toLower nonce ::
          (job.workerNonces worker.connectionId).getD [])) } := by
  unfold registerNonce at h
  dsimp only at h
  split at h
  · rename_i hnone
    obtain rfl := Except.ok.inj h
    refine ⟨fun nonces hs => absurd (hnone.symm.trans hs) (by simp), ?_⟩
    rw [hnone]
    rfl
  · rename_i nonces hsome
    split at h
    · exact nomatch h
    · rename_i hnew
      obtain rfl := Except.ok.inj h
      rw [hsome]
      refine ⟨fun nonces' hs => ?_, rfl⟩
      obtain rfl := Option.some.inj hs
      exact hnew

/-- A submission that gets past `RegisterNonce`: its nonce and its solution, and the job. -/
def acceptShare (alg : Algorithms) (job : AionJob) (worker : StratumClient)
    (extraNonce2 nTime solution : Text) : Except Exn (Text × Text × AionJob) := do
  let (nonce, solution) ← checkShare worker extraNonce2 nTime solution
  let job ← job.registerNonce alg worker nonce
  return (nonce, solution, job)

theorem acceptShare_ok {alg : Algorithms} {job job' : AionJob} {worker : StratumClient}
    {extraNonce2 nTime solution nonce solution' : Text}
    (h : job.acceptShare alg worker extraNonce2 nTime solution = .ok (nonce, solution', job')) :
    checkShare worker extraNonce2 nTime solution = .ok (nonce, solution') ∧
      job.registerNonce alg worker nonce = .ok job' := by
  unfold acceptShare at h
  obtain ⟨r, hr, h⟩ := bind_eq_ok.mp h
  obtain ⟨j, hj, h⟩ := bind_eq_ok.mp h
  obtain ⟨rfl, hrest⟩ := Prod.mk.inj (Except.ok.inj h)
  obtain ⟨rfl, rfl⟩ := Prod.mk.inj hrest
  exact ⟨hr, hj⟩

/-- What the checks ask of a submission: the lengths of its fields, and a nonce that the worker has
not sent for the job, in upper or lower case. -/
structure Admits (alg : Algorithms) (job : AionJob) (worker : StratumClient)
    (extraNonce2 nTime solution : Text) : Prop where
  extraNonce2_ne : extraNonce2 ≠ []
  length_nTime : nTime.length = 16
  length_nonce : (worker.context.extraNonce1.getD [] ++ extraNonce2).length = 64
  length_solution : solution.length = 2816 ∨ solution.length = 2822
  new : ∀ nonces, job.workerNonces worker.connectionId = some nonces →
    alg.culture.toLower (worker.context.extraNonce1.getD [] ++ extraNonce2) ∉ nonces

theorem exists_registerNonce_iff {alg : Algorithms} {job : AionJob} {worker : StratumClient}
    {nonce : Text} : (∃ job', job.registerNonce alg worker nonce = .ok job') ↔
      ∀ nonces, job.workerNonces worker.connectionId = some nonces →
        alg.culture.toLower nonce ∉ nonces := by
  constructor
  · rintro ⟨job', h⟩
    exact (registerNonce_ok h).1
  · intro hnew
    unfold registerNonce
    dsimp only
    split
    · exact ⟨_, rfl⟩
    · rename_i nonces hsome
      rw [if_neg (hnew nonces hsome)]
      exact ⟨_, rfl⟩

/-- **The checks are passed** by what they ask for, and by nothing else. -/
theorem exists_acceptShare_iff {alg : Algorithms} {job : AionJob} {worker : StratumClient}
    {extraNonce2 nTime solution nonce solution' : Text} :
    (∃ job', job.acceptShare alg worker extraNonce2 nTime solution =
      .ok (nonce, solution', job')) ↔
    job.Admits alg worker extraNonce2 nTime solution ∧
      nonce = worker.context.extraNonce1.getD [] ++ extraNonce2 ∧
      solution' = if solution.length = 2822 then solution.drop 6 else solution := by
  constructor
  · rintro ⟨job', h⟩
    obtain ⟨hcheck, hregister⟩ := acceptShare_ok h
    obtain ⟨⟨hne, htime, hlength, hsolution⟩, rfl, rfl⟩ := checkShare_eq_ok_iff.mp hcheck
    exact ⟨⟨hne, htime, hlength, hsolution, (registerNonce_ok hregister).1⟩, rfl, rfl⟩
  · rintro ⟨⟨hne, htime, hlength, hsolution, hnew⟩, rfl, rfl⟩
    obtain ⟨job', hregister⟩ := exists_registerNonce_iff.mpr hnew
    refine ⟨job', bind_eq_ok.mpr ⟨_, checkShare_eq_ok_iff.mpr
      ⟨⟨hne, htime, hlength, hsolution⟩, rfl, rfl⟩, ?_⟩⟩
    exact bind_eq_ok.mpr ⟨job', hregister, rfl⟩

/-! ## Shares -/

/-- `SerializeHeader`. -/
def serializeHeader (job : AionJob) (nonce : Text) : List UInt8 :=
  hexToByteArray (job.blockTemplate.headerHash ++ nonce)

/-- `ToHexString`. -/
def toHexString (bs : List UInt8) : String :=
  String.ofList (bs.flatMap fun b => [(b.toNat / 16).digitChar, (b.toNat % 16).digitChar])

/-- The target a share of the worker has to be below, read as `BigInteger` reads it. -/
def sentTarget (difficulty : Double) : Except Exn ℤ := do
  let target ← diffToTarget difficulty
  let sentTargetInt ← uint256 (hexToReverseByteArray target)
  return signed sentTargetInt.1

/-- The number a header hash stands for. -/
def headerValue (headerHash : Bytes32) : ℕ := unsigned headerHash.1.reverse

/-- `ProcessShareInternal`. The pool, its cluster and the time are not known to the job. -/
def processShareInternal (alg : Algorithms) (job : AionJob) (worker : StratumClient)
    (nonce nTime solution : Text) : Except Exn ProcessedShare := do
  let context := worker.context
  let solutionBytes := hexToByteArray solution
  let headerBytes := job.serializeHeader nonce
  if alg.verify headerBytes solutionBytes = false then
    throw (.stratum .other "invalid solution")
  else
  let headerHash := alg.digest (headerBytes ++ solutionBytes)
  let isBlockCandidate : Bool := (headerValue headerHash : ℤ) < signed job.blockTarget.1
  let stratumDifficulty :=
    if job.difficulty.lt context.difficulty then job.difficulty else context.difficulty
  let sentTarget ← sentTarget context.difficulty
  if sentTarget ≤ headerValue headerHash then
    throw (.stratum .lowDifficultyShare
      ("low difficulty share (" ++ alg.culture.formatDouble stratumDifficulty ++ ")"))
  else return {
    share :=
      { poolId := ""
        miner := context.minerName
        worker := context.workerName
        ipAddress := worker.remoteEndpoint
        userAgent := context.userAgent
        source := none
        difficulty := stratumDifficulty
        blockHeight := job.blockTemplate.height.toInt64
        blockReward := 0
        blockHash := if isBlockCandidate then some (toHexString headerHash.1.reverse) else none
        isBlockCandidate := isBlockCandidate
        transactionConfirmationData := toHexString headerHash.1
        networkDifficulty := job.difficulty
        created := 0 }
    nonce := nonce
    solution := solution
    headerHash := job.blockTemplate.headerHash
    nTime := nTime }

/-- Processing a share does not read the nonces registered. -/
theorem processShareInternal_of_acceptShare {alg : Algorithms} {job job' : AionJob}
    {worker : StratumClient} {extraNonce2 nTime solution nonce solution' : Text}
    (h : job.acceptShare alg worker extraNonce2 nTime solution = .ok (nonce, solution', job')) :
    job'.processShareInternal alg worker nonce nTime solution' =
      job.processShareInternal alg worker nonce nTime solution' := by
  obtain ⟨-, rfl⟩ := registerNonce_ok (acceptShare_ok h).2
  rfl

/-- `ProcessShareAsync`. The nonce stays registered when the share is rejected afterwards. -/
def processShareAsync (alg : Algorithms) (job : AionJob) (worker : StratumClient)
    (extraNonce2 nTime solution : Text) : Except Exn ProcessedShare × AionJob :=
  match job.acceptShare alg worker extraNonce2 nTime solution with
  | .error e => (.error e, job)
  | .ok (nonce, solution, job) =>
    (job.processShareInternal alg worker nonce nTime solution, job)

end AionJob

/-! ## A job -/

/-- A culture that lowers the letters `A` to `Z`. -/
def sampleCulture : Culture where
  toLower := List.map fun c => if 65 ≤ c.toNat ∧ c.toNat ≤ 90 then c + 32 else c
  toLower_hex := fun t ht => List.map_congr_left fun c hc => by
    have h := of_decide_eq_true (ht c hc)
    unfold lowerHex
    split_ifs
    all_goals first | rfl | omega
  formatDouble := fun _ => "4"

/-- A verifier that accepts every solution, and a hash that is all zeros. -/
def sampleAlgorithms : Algorithms where
  verify := fun _ _ => true
  digest := fun _ => ⟨List.replicate 32 0, List.length_replicate⟩
  culture := sampleCulture

/-- A worker with an extra nonce of two zero bytes. -/
def sampleWorker (difficulty : Double) : StratumClient where
  connectionId := "c1"
  remoteEndpoint := none
  context :=
    { minerName := "0xa0miner"
      workerName := none
      userAgent := none
      extraNonce1 := some (List.replicate 4 48)
      difficulty := difficulty }

/-- A job with the target `2 ^ 254`. -/
def sampleJob : AionJob where
  id := ascii "00000001"
  blockTemplate :=
    { height := 7
      headerHash := List.replicate 64 48
      target := ascii "40" ++ List.replicate 62 48 }
  difficulty := .fin 4
  blockTarget := ⟨List.replicate 31 0 ++ [64], rfl⟩
  workerNonces := fun _ => none

end AionPool.Aion
