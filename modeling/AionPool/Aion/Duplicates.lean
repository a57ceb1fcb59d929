import AionPool.Aion.Job
import AionPool.Lib.Run

/-!
# Duplicate shares

Duplicates are found by the lower case of the nonce text, shares are verified on the bytes it
decodes to. The two agree on hexadecimal text; another character is decoded like some digit, and
spells the same proof of work in a text that was not registered.

* `Inv`: the nonces a worker registered are known in lower case, and no two are the same.
* `serializeHeader_injective`: nonces of hexadecimal digits with one header have one lower case.
* **`accepted_headers_ne`**: for a header hash of even length, in a run of hexadecimal nonces no
  two submissions of a worker that get past `RegisterNonce` have the same header.

About `AionJob.cs:58-113` and `:174-179`.
-/

namespace AionPool.Aion.Duplicates

open AionPool.Extensions AionPool.Lib.Run AionJob

/-! ## The system -/

/-- A call of `ProcessShareAsync`. -/
structure Call where
  worker : StratumClient
  extraNonce2 : Text
  nTime : Text
  solution : Text

/-- The nonce of a submission. -/
def Call.nonce (c : Call) : Text := c.worker.context.extraNonce1.getD [] ++ c.extraNonce2

/-- The job, and the worker and the nonce of every call that got past `RegisterNonce`. -/
structure State where
  job : AionJob
  accepted : List (String × Text)

variable (alg : Algorithms)

/-- A call is made. -/
def step (s : State) (c : Call) : Option State :=
  some {
    job := (s.job.processShareAsync alg c.worker c.extraNonce2 c.nTime c.solution).2
    accepted :=
      match s.job.acceptShare alg c.worker c.extraNonce2 c.nTime c.solution with
      | .ok (nonce, _, _) => s.accepted ++ [(c.worker.connectionId, nonce)]
      | .error _ => s.accepted }

/-- The nonce of a call is hexadecimal. -/
def HexNonce (_ : State) (c : Call) : Prop := ∀ x ∈ c.nonce, isHexDigit x = true

instance (s : State) (c : Call) : Decidable (HexNonce s c) :=
  decidable_of_iff (c.nonce.all isHexDigit = true) List.all_eq_true

/-! ## The registered nonces -/

/-- What holds of the job and of the calls that got past `RegisterNonce`. -/
structure Inv (job : AionJob) (s : State) : Prop where
  template : s.job.blockTemplate = job.blockTemplate
  hexNonce : ∀ a ∈ s.accepted, a.2.length = 64 ∧ ∀ x ∈ a.2, isHexDigit x = true
  registered : ∀ a ∈ s.accepted, ∃ nonces, s.job.workerNonces a.1 = some nonces ∧
    alg.culture.toLower a.2 ∈ nonces
  distinct : s.accepted.Pairwise fun a b =>
    a.1 = b.1 → alg.culture.toLower a.2 ≠ alg.culture.toLower b.2

variable {alg}

/-- A set of nonces only grows. -/
theorem registered_of_registerNonce {job job' : AionJob} {worker : StratumClient} {nonce : Text}
    (h : job.registerNonce alg worker nonce = .ok job') {id : String} {nonces : List Text}
    (hid : job.workerNonces id = some nonces) :
    ∃ nonces', job'.workerNonces id = some nonces' ∧ ∀ t ∈ nonces, t ∈ nonces' := by
  obtain ⟨-, rfl⟩ := registerNonce_ok h
  by_cases hw : id = worker.connectionId
  · subst hw
    refine ⟨_, Function.update_self _ _ _, fun t ht => ?_⟩
    rw [hid]
    exact List.mem_cons_of_mem _ ht
  · exact ⟨nonces, (Function.update_of_ne hw _ _).trans hid, fun t ht => ht⟩

theorem inv_step {job : AionJob} (s : State) (c : Call) (s' : State)
    (hI : Inv alg job s) (hG : HexNonce s c) (h : step alg s c = some s') :
    Inv alg job s' := by
  obtain rfl := Option.some.inj h
  unfold AionJob.processShareAsync
  cases hacc : s.job.acceptShare alg c.worker c.extraNonce2 c.nTime c.solution with
  | error e => exact hI
  | ok r =>
    obtain ⟨nonce, solution, job'⟩ := r
    obtain ⟨hcheck, hreg⟩ := acceptShare_ok hacc
    obtain ⟨rfl, hlen⟩ := checkShare_ok hcheck
    obtain ⟨hnew, hjob'⟩ := registerNonce_ok hreg
    dsimp only at hlen hnew hjob' ⊢
    refine ⟨?_, ?_, ?_, ?_⟩
    · rw [hjob']
      exact hI.template
    · intro a ha
      rcases List.mem_append.mp ha with ha | ha
      · exact hI.hexNonce a ha
      · obtain rfl := List.mem_singleton.mp ha
        exact ⟨hlen, hG⟩
    · intro a ha
      rcases List.mem_append.mp ha with ha | ha
      · obtain ⟨nonces, hnonces, hmem⟩ := hI.registered a ha
        obtain ⟨nonces', hnonces', hsub⟩ := registered_of_registerNonce hreg hnonces
        exact ⟨nonces', hnonces', hsub _ hmem⟩
      · obtain rfl := List.mem_singleton.mp ha
        rw [hjob']
        exact ⟨_, Function.update_self _ _ _, List.mem_cons_self⟩
    · rw [List.pairwise_append]
      refine ⟨hI.distinct, List.pairwise_singleton _ _, fun a ha b hb => ?_⟩
      obtain rfl := List.mem_singleton.mp hb
      intro hworker hlower
      obtain ⟨nonces, hnonces, hmem⟩ := hI.registered a ha
      rw [hworker] at hnonces
      rw [hlower] at hmem
      exact hnew nonces hnonces hmem

/-! ## Headers -/

theorem skip0x_append {s t : Text} (hs : s.length ≠ 1) (ht : ∀ x ∈ t, isHexDigit x = true) :
    skip0x (s ++ t) = skip0x s ++ t := by
  match s, hs with
  | [], _ => exact skip0x_of_digits ht
  | a :: b :: s, _ =>
    have htake : (a :: b :: s ++ t).take 2 = (a :: b :: s).take 2 := rfl
    unfold skip0x
    rw [htake]
    split
    · rfl
    · rfl

theorem length_skip0x (s : Text) : (skip0x s).length % 2 = s.length % 2 := by
  unfold skip0x
  split
  · rename_i h
    have hlen := congrArg List.length h
    rw [List.length_take, show (ascii "0x").length = 2 from rfl] at hlen
    rw [List.length_drop]
    omega
  · rfl

/-- **Hexadecimal nonces with one header have one lower case.** -/
theorem serializeHeader_injective {job : AionJob}
    (heven : job.blockTemplate.headerHash.length % 2 = 0) {s t : Text} (hlen : s.length = t.length)
    (hlens : s.length % 2 = 0) (hs : ∀ x ∈ s, isHexDigit x = true)
    (ht : ∀ x ∈ t, isHexDigit x = true) (h : job.serializeHeader s = job.serializeHeader t) :
    alg.culture.toLower s = alg.culture.toLower t := by
  have hne : job.blockTemplate.headerHash.length ≠ 1 := by omega
  have hskip : (skip0x job.blockTemplate.headerHash).length % 2 = 0 := by
    rw [length_skip0x, heven]
  unfold AionJob.serializeHeader hexToByteArray at h
  rw [skip0x_append hne hs, skip0x_append hne ht, hexPairs_append hskip,
    hexPairs_append hskip] at h
  have hpairs := List.append_cancel_left h
  rw [alg.culture.toLower_hex s hs, alg.culture.toLower_hex t ht]
  exact lower_eq_of_hexPairs_eq hlen hlens hs ht hpairs

/-! ## Whole runs -/

/-- **No proof of work is accepted twice**: the submissions of a worker that get past
`RegisterNonce` have different headers, when the header hash has even length and the nonces are
hexadecimal. -/
theorem accepted_headers_ne {job : AionJob}
    (heven : job.blockTemplate.headerHash.length % 2 = 0) {calls : List Call} {s : State}
    (hG : Along (step alg) HexNonce ⟨job, []⟩ calls)
    (hrun : run (step alg) ⟨job, []⟩ calls = some s) :
    s.accepted.Pairwise fun a b =>
      a.1 = b.1 → job.serializeHeader a.2 ≠ job.serializeHeader b.2 := by
  have hinit : Inv alg job ⟨job, []⟩ :=
    ⟨rfl, fun _ ha => absurd ha (by simp), fun _ ha => absurd ha (by simp), List.Pairwise.nil⟩
  have hI : Inv alg job s := run_invariant inv_step hinit hG hrun
  refine hI.distinct.imp_of_mem fun {a b} ha hb hdistinct hworker hheader => ?_
  obtain ⟨hla, hda⟩ := hI.hexNonce a ha
  obtain ⟨hlb, hdb⟩ := hI.hexNonce b hb
  exact hdistinct hworker
    (serializeHeader_injective heven (hla.trans hlb.symm) (by rw [hla]) hda hdb hheader)

/-- A submission whose nonce ends with `last`. -/
def sampleCall (last : String) : Call where
  worker := sampleWorker (.fin 8)
  extraNonce2 := List.replicate 59 48 ++ ascii last
  nTime := List.replicate 16 48
  solution := List.replicate 2816 48

/-- Three nonces, one of them twice with other letters. -/
theorem accepted_headers_ne_sample :
    ∃ s, run (step sampleAlgorithms) ⟨sampleJob, []⟩
        [sampleCall "a", sampleCall "A", sampleCall "b"] = some s ∧ s.accepted.length = 2 ∧
      s.accepted.Pairwise fun a b =>
        a.1 = b.1 → sampleJob.serializeHeader a.2 ≠ sampleJob.serializeHeader b.2 := by
  obtain ⟨s, hs⟩ : ∃ s, run (step sampleAlgorithms) ⟨sampleJob, []⟩
      [sampleCall "a", sampleCall "A", sampleCall "b"] = some s :=
    Option.isSome_iff_exists.mp (by decide +kernel)
  refine ⟨s, hs, ?_, accepted_headers_ne (by decide +kernel) (by decide +kernel) hs⟩
  have h : (run (step sampleAlgorithms) ⟨sampleJob, []⟩
      [sampleCall "a", sampleCall "A", sampleCall "b"]).map (fun s => s.accepted.length) =
      some 2 := by
    decide +kernel
  rw [hs] at h
  exact Option.some.inj h

/-- A colon is decoded like the digit 3: both nonces are accepted, with the same header. -/
theorem colon_spells_three :
    ∃ calls s w n n', run (step sampleAlgorithms) ⟨sampleJob, []⟩ calls = some s ∧
      s.accepted = [(w, n), (w, n')] ∧
      sampleJob.serializeHeader n = sampleJob.serializeHeader n' := by
  obtain ⟨s, hs⟩ : ∃ s, run (step sampleAlgorithms) ⟨sampleJob, []⟩
      [sampleCall "3", sampleCall ":"] = some s :=
    Option.isSome_iff_exists.mp (by decide +kernel)
  have h : (run (step sampleAlgorithms) ⟨sampleJob, []⟩
      [sampleCall "3", sampleCall ":"]).map State.accepted =
      some [("c1", (sampleCall "3").nonce), ("c1", (sampleCall ":").nonce)] := by
    decide +kernel
  rw [hs] at h
  exact ⟨_, s, _, _, _, hs, Option.some.inj h, by decide +kernel⟩

end AionPool.Aion.Duplicates
