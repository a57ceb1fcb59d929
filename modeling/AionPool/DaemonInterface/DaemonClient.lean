import AionPool.Runtime
import Mathlib.Data.List.Perm.Basic

/-!
# The fail-over of `DaemonClient`

`ExecuteCmdAnyAsync` and `ExecuteBatchAnyAsync` send one request to every endpoint and take the task
that `Task.WhenAny` returns: the first that has completed, however it completed.

* `Completion`: how the task of a request ends; `mapDaemonResponse` and
  `mapDaemonBatchResponse` turn it into what the caller gets.
* `FailsOver`: what "returns the first successful response" promises of a result.
* **`failsOver_executeAny_iff`**: when both paths keep it, by what completes first. A failure that
  is first hides every answer after it, and the batch path throws the faults it means to report.

Models `DaemonClient.cs:181-224`, `:284-295` and `:447-507`. Out of scope: the requests themselves.
-/

namespace AionPool.DaemonInterface

variable {E J α β δ ρ : Type}

/-! ## Requests and responses -/

/-- `JsonRpcException`. -/
structure JsonRpcException where
  code : ℤ
  message : String
  deriving DecidableEq

/-- `JsonRpcResponse<T>`; a field that is missing is `null`. -/
structure JsonRpcResponse (J : Type) where
  result : Option J
  error : Option JsonRpcException

/-- `DaemonResponse<T>`. -/
structure DaemonResponse (E α : Type) where
  inst : E
  response : Option α
  error : Option JsonRpcException

/-- How a task ends: with its result, with the exception it threw, or canceled. -/
inductive Completion (ρ : Type) where
  | ran (result : ρ)
  | faulted (inner : String)
  | canceled

/-- `Task<T>.Result`. -/
def Completion.result : Completion ρ → Except Exn ρ
  | .ran r => .ok r
  | .faulted _ => .error .aggregate
  | .canceled => .error .aggregate

/-- `Message` of the `AggregateException` around one exception. -/
def aggregateMessage (inner : String) : String := "One or more errors occurred. (" ++ inner ++ ")"

/-- `endPoints[i]`. -/
def endPointAt (endPoints : List E) (i : ℕ) : Except Exn E :=
  match endPoints[i]? with
  | some endPoint => .ok endPoint
  | none => .error .indexOutOfRange

/-- `Task.WhenAny`, of tasks that complete in this order. -/
def whenAny (outcome : E → Completion ρ) : List E → Except Exn (Completion ρ)
  | [] => .error .argument
  | first :: _ => .ok (outcome first)

/-- The token of a result as the `TResponse` of the caller; no token is `null`. -/
def readResponse (readResult : J → Except Exn α) : Option J → Except Exn (Option α)
  | none => .ok none
  | some token => (readResult token).map some

/-- `MapDaemonResponse`; `readResult` is `ToObject<TResponse>`, or the cast. -/
def mapDaemonResponse (readResult : J → Except Exn α) (endPoints : List E) (i : ℕ)
    (x : Completion (Option (JsonRpcResponse J))) (throwOnError : Bool) :
    Except Exn (DaemonResponse E α) := do
  let inst ← endPointAt endPoints i
  match x with
  | .faulted inner =>
    if throwOnError then .error (.exception inner)
    else .ok ⟨inst, none, some ⟨-500, aggregateMessage inner⟩⟩
  | .canceled => .ok ⟨inst, none, some ⟨-500, "Cancelled"⟩⟩
  | .ran result =>
    let response ← readResponse readResult (result.bind JsonRpcResponse.result)
    .ok ⟨inst, response, result.bind JsonRpcResponse.error⟩

/-- One entry of a batch; `null` has no fields to read. -/
def mapBatchEntry (endPoints : List E) (i : ℕ) :
    Option (JsonRpcResponse J) → Except Exn (DaemonResponse E J)
  | none => .error .nullReference
  | some y => do
    let inst ← endPointAt endPoints i
    .ok ⟨inst, y.result, y.error⟩

/-- The entry that a fault is meant to give for each request of the batch. -/
def mapFaultEntry (endPoints : List E) (i : ℕ) (inner : String) :
    Except Exn (DaemonResponse E J) := do
  let inst ← endPointAt endPoints i
  .ok ⟨inst, none, some ⟨-500, aggregateMessage inner⟩⟩

/-- `MapDaemonBatchResponse`. -/
def mapDaemonBatchResponse (endPoints : List E) (i : ℕ)
    (x : Completion (Option (List (Option (JsonRpcResponse J))))) :
    Except Exn (Option (List (DaemonResponse E J))) :=
  match x with
  | .faulted inner => do
    -- `x.Result` of a faulted task throws, before any entry gets the error
    let result ← x.result
    match result with
    | none => .ok none
    | some ys => (ys.mapM fun _ => mapFaultEntry endPoints i inner).map some
  | _ => do
    let result ← x.result
    match result with
    | none => .ok none
    | some ys => (ys.mapM (mapBatchEntry endPoints i)).map some

/-- `ExecuteCmdAnyAsync`, of requests that end as `outcome` says and in this order. -/
def executeCmdAnyAsync (readResult : J → Except Exn α) (endPoints : List E)
    (outcome : E → Completion (Option (JsonRpcResponse J))) (order : List E) (method : String)
    (throwOnError : Bool) : Except Exn (DaemonResponse E α) :=
  if method = "" then .error .argument
  else do
    let taskFirstCompleted ← whenAny outcome order
    mapDaemonResponse readResult endPoints 0 taskFirstCompleted throwOnError

/-- `ExecuteBatchAnyAsync`, of requests that end as `outcome` says and in this order. -/
def executeBatchAnyAsync (endPoints : List E)
    (outcome : E → Completion (Option (List (Option (JsonRpcResponse J))))) (order : List E) :
    Except Exn (Option (List (DaemonResponse E J))) := do
  let taskFirstCompleted ← whenAny outcome order
  mapDaemonBatchResponse endPoints 0 taskFirstCompleted

/-! ## Fail-over -/

/-- What fail-over promises: with an answer from some endpoint the result carries one, and without
any it says that it failed. -/
def FailsOver (answer : Completion ρ → Option β) (carries : δ → β → Prop) (failed : δ → Prop)
    (endPoints : List E) (outcome : E → Completion ρ) (result : Except Exn δ) : Prop :=
  ((∃ e ∈ endPoints, (answer (outcome e)).isSome) →
    ∃ e ∈ endPoints, ∃ v r, answer (outcome e) = some v ∧ result = .ok r ∧ carries r v) ∧
  ((∀ e ∈ endPoints, answer (outcome e) = none) → ∃ r, result = .ok r ∧ failed r)

/-- A result that is mapped from the first completion fails over if that is an answer, or if there
is no answer and the mapping reports the failure it got. -/
theorem failsOver_iff_first {answer : Completion ρ → Option β} {carries : δ → β → Prop}
    {failed : δ → Prop} {reports : Completion ρ → Bool} (map : Completion ρ → Except Exn δ)
    (hgood : ∀ x v, answer x = some v → ∃ r, map x = .ok r ∧ carries r v)
    (hcarries : ∀ x r v, map x = .ok r → carries r v → (answer x).isSome)
    (hfailed : ∀ x, answer x = none → ((∃ r, map x = .ok r ∧ failed r) ↔ reports x = true))
    {endPoints rest : List E} {first : E} (hp : (first :: rest).Perm endPoints)
    (outcome : E → Completion ρ) :
    FailsOver answer carries failed endPoints outcome (map (outcome first)) ↔
      (answer (outcome first)).isSome ∨
        (∀ e ∈ endPoints, answer (outcome e) = none) ∧ reports (outcome first) := by
  have hmem : first ∈ endPoints := hp.mem_iff.mp List.mem_cons_self
  constructor
  · rintro ⟨hsome, hnone⟩
    by_cases hall : ∀ e ∈ endPoints, answer (outcome e) = none
    · exact .inr ⟨hall, (hfailed _ (hall first hmem)).mp (hnone hall)⟩
    · obtain ⟨e, he, ha⟩ := not_forall₂.mp hall
      obtain ⟨_, _, v, r, _, hr, hv⟩ := hsome ⟨e, he, Option.isSome_iff_ne_none.mpr ha⟩
      exact .inl (hcarries _ r v hr hv)
  · rintro (hfirst | ⟨hall, hrep⟩)
    · obtain ⟨v, hv⟩ := Option.isSome_iff_exists.mp hfirst
      obtain ⟨r, hr, hc⟩ := hgood _ v hv
      refine ⟨fun _ => ⟨first, hmem, v, r, hv, hr, hc⟩, fun hall => ?_⟩
      rw [hall first hmem] at hv
      exact nomatch hv
    · refine ⟨fun ⟨e, he, ha⟩ => ?_, fun _ => (hfailed _ (hall first hmem)).mpr hrep⟩
      rw [hall e he] at ha
      exact nomatch ha

/-! ## One request -/

/-- The answer of a request that succeeded: no error, and a result that can be read. -/
def answer (readResult : J → Except Exn α) :
    Completion (Option (JsonRpcResponse J)) → Option (Option α)
  | .ran result =>
    match result.bind JsonRpcResponse.error with
    | some _ => none
    | none => (readResponse readResult (result.bind JsonRpcResponse.result)).toOption
  | .faulted _ => none
  | .canceled => none

/-- The failures that are reported: a fault, a cancellation, and an error whose result can be
read. -/
def reports (readResult : J → Except Exn α) : Completion (Option (JsonRpcResponse J)) → Bool
  | .ran result =>
    (result.bind JsonRpcResponse.error).isSome &&
      (readResponse readResult (result.bind JsonRpcResponse.result)).toOption.isSome
  | .faulted _ => true
  | .canceled => true

/-- A response without error that carries `v`. -/
def Carries (r : DaemonResponse E α) (v : Option α) : Prop := r.error = none ∧ r.response = v

/-- A response with `Error` set. -/
def Failed (r : DaemonResponse E α) : Prop := r.error ≠ none

/-- What the caller gets of a task that ran to its end. -/
theorem mapDaemonResponse_ran {readResult : J → Except Exn α} {e : E} {endPoints : List E}
    {result : Option (JsonRpcResponse J)} {r : DaemonResponse E α} :
    mapDaemonResponse readResult (e :: endPoints) 0 (.ran result) false = .ok r ↔
      readResponse readResult (result.bind JsonRpcResponse.result) = .ok r.response ∧
        r.inst = e ∧ r.error = result.bind JsonRpcResponse.error := by
  have hi : endPointAt (e :: endPoints) 0 = .ok e := rfl
  simp only [mapDaemonResponse, hi, ok_bind]
  rw [bind_eq_ok]
  constructor
  · rintro ⟨response, hread, hr⟩
    cases hr
    exact ⟨hread, rfl, rfl⟩
  · rintro ⟨hread, hinst, herr⟩
    refine ⟨r.response, hread, ?_⟩
    rw [← hinst, ← herr]

/-- An answer is returned as it is. -/
theorem mapDaemonResponse_answer {readResult : J → Except Exn α} {e : E} {endPoints : List E}
    {x : Completion (Option (JsonRpcResponse J))} {v : Option α}
    (h : answer readResult x = some v) :
    ∃ r, mapDaemonResponse readResult (e :: endPoints) 0 x false = .ok r ∧ Carries r v := by
  cases x with
  | faulted => exact nomatch h
  | canceled => exact nomatch h
  | ran result =>
    simp only [answer] at h
    split at h
    · exact nomatch h
    · rename_i herr
      cases hread : readResponse readResult (result.bind JsonRpcResponse.result) with
      | error ex => rw [hread] at h; exact nomatch h
      | ok w =>
        rw [hread] at h
        cases h
        exact ⟨⟨e, v, none⟩, mapDaemonResponse_ran.mpr ⟨hread, rfl, herr.symm⟩, rfl, rfl⟩

/-- A response without error is the answer that completed. -/
theorem answer_of_carries {readResult : J → Except Exn α} {e : E} {endPoints : List E}
    {x : Completion (Option (JsonRpcResponse J))} {r : DaemonResponse E α} {v : Option α}
    (hr : mapDaemonResponse readResult (e :: endPoints) 0 x false = .ok r) (hc : Carries r v) :
    (answer readResult x).isSome := by
  cases x with
  | faulted => cases hr; exact nomatch hc.1
  | canceled => cases hr; exact nomatch hc.1
  | ran result =>
    obtain ⟨hread, _, herr⟩ := mapDaemonResponse_ran.mp hr
    simp only [answer, ← herr, hc.1, hread, Except.toOption, Option.isSome_some]

/-- A completion without answer is reported, or it throws. -/
theorem mapDaemonResponse_failed {readResult : J → Except Exn α} {e : E} {endPoints : List E}
    {x : Completion (Option (JsonRpcResponse J))} (h : answer readResult x = none) :
    (∃ r, mapDaemonResponse readResult (e :: endPoints) 0 x false = .ok r ∧ Failed r) ↔
      reports readResult x = true := by
  cases x with
  | faulted => exact iff_of_true ⟨_, rfl, nofun⟩ rfl
  | canceled => exact iff_of_true ⟨_, rfl, nofun⟩ rfl
  | ran result =>
    simp only [mapDaemonResponse_ran, reports, Bool.and_eq_true, Failed]
    constructor
    · rintro ⟨r, ⟨hread, _, herr⟩, hf⟩
      rw [← herr, hread]
      exact ⟨Option.isSome_iff_ne_none.mpr hf, rfl⟩
    · rintro ⟨herr, hread⟩
      cases hr : readResponse readResult (result.bind JsonRpcResponse.result) with
      | error ex => rw [hr] at hread; exact nomatch hread
      | ok w => exact ⟨⟨e, w, _⟩, ⟨rfl, rfl, rfl⟩, Option.isSome_iff_ne_none.mp herr⟩

/-! ## A batch of requests -/

/-- The answer in an entry of a batch without error. -/
def entryAnswer : Option (JsonRpcResponse J) → Option (Option J)
  | none => none
  | some y =>
    match y.error with
    | some _ => none
    | none => some y.result

/-- The answers of a batch that succeeded: an array whose entries all have one. -/
def batchAnswer :
    Completion (Option (List (Option (JsonRpcResponse J)))) → Option (List (Option J))
  | .ran (some ys) => ys.mapM entryAnswer
  | .ran none => none
  | .faulted _ => none
  | .canceled => none

/-- The failures of a batch that are reported: an array with an error, and without `null`. -/
def batchReports : Completion (Option (List (Option (JsonRpcResponse J)))) → Bool
  | .ran (some ys) => ys.all Option.isSome && ys.any fun y => (y.bind JsonRpcResponse.error).isSome
  | .ran none => false
  | .faulted _ => false
  | .canceled => false

/-- Responses without errors that carry `vs`. -/
def BatchCarries (r : Option (List (DaemonResponse E J))) (vs : List (Option J)) : Prop :=
  ∃ rs, r = some rs ∧ rs.map DaemonResponse.response = vs ∧ ∀ x ∈ rs, x.error = none

/-- Responses of which one has `Error` set. -/
def BatchFailed (r : Option (List (DaemonResponse E J))) : Prop :=
  ∃ rs, r = some rs ∧ ∃ x ∈ rs, x.error ≠ none

/-- The response of an entry. -/
def entryResponse (e : E) (y : JsonRpcResponse J) : DaemonResponse E J := ⟨e, y.result, y.error⟩

/-- A batch whose entries are mapped has no `null` among them. -/
theorem mapM_mapBatchEntry {e : E} {endPoints : List E} :
    ∀ {ys : List (Option (JsonRpcResponse J))} {rs : List (DaemonResponse E J)},
      ys.mapM (mapBatchEntry (e :: endPoints) 0) = .ok rs ↔
        ∃ zs : List (JsonRpcResponse J), ys = zs.map some ∧ rs = zs.map (entryResponse e) := by
  intro ys
  induction ys with
  | nil =>
    intro rs
    constructor
    · intro h
      cases h
      exact ⟨[], rfl, rfl⟩
    · rintro ⟨zs, hz, rfl⟩
      rw [List.map_eq_nil_iff.mp hz.symm]
      rfl
  | cons y ys ih =>
    intro rs
    rw [List.mapM_cons]
    cases y with
    | none =>
      refine iff_of_false (fun h => nomatch h) fun ⟨zs, hz, _⟩ => ?_
      cases zs with
      | nil => exact nomatch hz
      | cons z zs => exact nomatch (List.cons.inj hz).1
    | some y =>
      have hy : mapBatchEntry (e :: endPoints) 0 (some y) = .ok (entryResponse e y) := rfl
      rw [hy, ok_bind, bind_eq_ok]
      constructor
      · rintro ⟨rs', hrs', hr⟩
        obtain ⟨zs, rfl, rfl⟩ := ih.mp hrs'
        cases hr
        exact ⟨y :: zs, rfl, rfl⟩
      · rintro ⟨zs, hz, rfl⟩
        cases zs with
        | nil => exact nomatch hz
        | cons z zs =>
          obtain ⟨hyz, hys⟩ := List.cons.inj hz
          cases hyz
          exact ⟨zs.map (entryResponse e), ih.mpr ⟨zs, hys, rfl⟩, rfl⟩

/-- The answers of a batch are the results of its entries, which have no error. -/
theorem mapM_entryAnswer :
    ∀ {ys : List (Option (JsonRpcResponse J))} {vs : List (Option J)},
      ys.mapM entryAnswer = some vs ↔ ∃ zs : List (JsonRpcResponse J), ys = zs.map some ∧
        (∀ z ∈ zs, z.error = none) ∧ vs = zs.map JsonRpcResponse.result := by
  intro ys
  induction ys with
  | nil =>
    intro vs
    constructor
    · intro h
      cases h
      exact ⟨[], rfl, nofun, rfl⟩
    · rintro ⟨zs, hz, _, rfl⟩
      rw [List.map_eq_nil_iff.mp hz.symm]
      rfl
  | cons y ys ih =>
    intro vs
    rw [List.mapM_cons, Option.bind_eq_bind, Option.bind_eq_some_iff]
    constructor
    · rintro ⟨v, hv, hvs⟩
      obtain ⟨vs', hvs', hr⟩ := Option.bind_eq_some_iff.mp hvs
      obtain ⟨zs, rfl, hzs, rfl⟩ := ih.mp hvs'
      cases hr
      cases y with
      | none => exact nomatch hv
      | some y =>
        simp only [entryAnswer] at hv
        split at hv
        · exact nomatch hv
        · rename_i hy
          cases hv
          exact ⟨y :: zs, rfl, List.forall_mem_cons.mpr ⟨hy, hzs⟩, rfl⟩
    · rintro ⟨zs, hz, hzs, rfl⟩
      cases zs with
      | nil => exact nomatch hz
      | cons z zs =>
        obtain ⟨rfl, hys⟩ := List.cons.inj hz
        have hz := hzs z List.mem_cons_self
        have hall : ∀ z ∈ zs, z.error = none := fun w hw => hzs w (List.mem_cons_of_mem _ hw)
        refine ⟨z.result, by simp only [entryAnswer, hz], ?_⟩
        rw [Option.bind_eq_bind, ih.mpr ⟨zs, hys, hall, rfl⟩]
        rfl

/-- Responses are returned only of a batch that ran to its end, entry by entry. -/
theorem mapDaemonBatchResponse_eq_some {e : E} {endPoints : List E}
    {x : Completion (Option (List (Option (JsonRpcResponse J))))}
    {rs : List (DaemonResponse E J)} :
    mapDaemonBatchResponse (e :: endPoints) 0 x = .ok (some rs) ↔
      ∃ zs : List (JsonRpcResponse J),
        x = .ran (some (zs.map some)) ∧ rs = zs.map (entryResponse e) := by
  cases x with
  | faulted => exact iff_of_false nofun nofun
  | canceled => exact iff_of_false nofun nofun
  | ran result =>
    cases result with
    | none => exact iff_of_false nofun nofun
    | some ys =>
      have hmap : mapDaemonBatchResponse (e :: endPoints) 0 (.ran (some ys)) =
          (ys.mapM (mapBatchEntry (e :: endPoints) 0)).map some := rfl
      rw [hmap]
      constructor
      · intro h
        cases hm : ys.mapM (mapBatchEntry (e :: endPoints) 0) with
        | error ex => rw [hm] at h; exact nomatch h
        | ok rs' =>
          rw [hm] at h
          cases h
          obtain ⟨zs, rfl, rfl⟩ := mapM_mapBatchEntry.mp hm
          exact ⟨zs, rfl, rfl⟩
      · rintro ⟨zs, hx, rfl⟩
        cases hx
        rw [mapM_mapBatchEntry.mpr ⟨zs, rfl, rfl⟩]
        rfl

/-- An answered batch is one that ran to its end without an error in its entries. -/
theorem batchAnswer_eq_some {x : Completion (Option (List (Option (JsonRpcResponse J))))}
    {vs : List (Option J)} :
    batchAnswer x = some vs ↔ ∃ zs : List (JsonRpcResponse J),
      x = .ran (some (zs.map some)) ∧ (∀ z ∈ zs, z.error = none) ∧
        vs = zs.map JsonRpcResponse.result := by
  cases x with
  | faulted => exact iff_of_false nofun nofun
  | canceled => exact iff_of_false nofun nofun
  | ran result =>
    cases result with
    | none => exact iff_of_false nofun nofun
    | some ys =>
      simp only [batchAnswer, mapM_entryAnswer, Completion.ran.injEq, Option.some.injEq]

/-- An answered batch is returned as it is. -/
theorem mapDaemonBatchResponse_answer {e : E} {endPoints : List E}
    {x : Completion (Option (List (Option (JsonRpcResponse J))))} {vs : List (Option J)}
    (h : batchAnswer x = some vs) :
    ∃ r, mapDaemonBatchResponse (e :: endPoints) 0 x = .ok r ∧ BatchCarries r vs := by
  obtain ⟨zs, rfl, hzs, rfl⟩ := batchAnswer_eq_some.mp h
  refine ⟨some (zs.map (entryResponse e)), mapDaemonBatchResponse_eq_some.mpr ⟨zs, rfl, rfl⟩,
    zs.map (entryResponse e), rfl, ?_, ?_⟩
  · rw [List.map_map]
    rfl
  · intro r hr
    obtain ⟨z, hz, rfl⟩ := List.mem_map.mp hr
    exact hzs z hz

/-- Responses without errors are the answers of the batch that completed. -/
theorem batchAnswer_of_carries {e : E} {endPoints : List E}
    {x : Completion (Option (List (Option (JsonRpcResponse J))))}
    {r : Option (List (DaemonResponse E J))} {vs : List (Option J)}
    (hr : mapDaemonBatchResponse (e :: endPoints) 0 x = .ok r) (hc : BatchCarries r vs) :
    (batchAnswer x).isSome := by
  obtain ⟨rs, rfl, rfl, hrs⟩ := hc
  obtain ⟨zs, rfl, rfl⟩ := mapDaemonBatchResponse_eq_some.mp hr
  have hzs : ∀ z ∈ zs, z.error = none := fun z hz =>
    hrs (entryResponse e z) (List.mem_map_of_mem hz)
  rw [batchAnswer_eq_some.mpr ⟨zs, rfl, hzs, rfl⟩]
  rfl

/-- A batch is reported as failed if it ran to its end, with an error in some entry. -/
theorem mapDaemonBatchResponse_failed {e : E} {endPoints : List E}
    {x : Completion (Option (List (Option (JsonRpcResponse J))))} :
    (∃ r, mapDaemonBatchResponse (e :: endPoints) 0 x = .ok r ∧ BatchFailed r) ↔
      batchReports x = true := by
  constructor
  · rintro ⟨_, hr, rs, rfl, y, hy, herr⟩
    obtain ⟨zs, rfl, rfl⟩ := mapDaemonBatchResponse_eq_some.mp hr
    obtain ⟨z, hz, rfl⟩ := List.mem_map.mp hy
    simp only [batchReports, Bool.and_eq_true, List.all_eq_true, List.any_eq_true]
    refine ⟨fun w hw => ?_, some z, List.mem_map_of_mem hz, Option.isSome_iff_ne_none.mpr herr⟩
    obtain ⟨_, _, rfl⟩ := List.mem_map.mp hw
    rfl
  · intro h
    cases x with
    | faulted => exact nomatch h
    | canceled => exact nomatch h
    | ran result =>
      cases result with
      | none => exact nomatch h
      | some ys =>
        simp only [batchReports, Bool.and_eq_true, List.all_eq_true, List.any_eq_true] at h
        obtain ⟨hall, y, hy, herr⟩ := h
        obtain ⟨zs, rfl⟩ : ∃ zs : List (JsonRpcResponse J), ys = zs.map some :=
          ⟨ys.attach.map fun y => y.1.get (hall y.1 y.2), by simp⟩
        obtain ⟨z, hz, rfl⟩ := List.mem_map.mp hy
        exact ⟨_, mapDaemonBatchResponse_eq_some.mpr ⟨zs, rfl, rfl⟩, _, rfl, entryResponse e z,
          List.mem_map_of_mem hz, Option.isSome_iff_ne_none.mp herr⟩

/-! ## The first that completes -/

/-- **Fail-over follows the first completion.** One request fails over exactly if the endpoint that
completes first answers, or none does and the first failure is reported; a batch likewise, except
that a fault and a cancellation are not reported but thrown. -/
theorem failsOver_executeAny_iff (readResult : J → Except Exn α) {endPoints rest : List E}
    {first : E} (hp : (first :: rest).Perm endPoints)
    (outcome : E → Completion (Option (JsonRpcResponse J)))
    (batchOutcome : E → Completion (Option (List (Option (JsonRpcResponse J)))))
    {method : String} (hm : method ≠ "") :
    (FailsOver (answer readResult) Carries Failed endPoints outcome
        (executeCmdAnyAsync readResult endPoints outcome (first :: rest) method false) ↔
      (answer readResult (outcome first)).isSome ∨
        (∀ e ∈ endPoints, answer readResult (outcome e) = none) ∧
          reports readResult (outcome first)) ∧
    (FailsOver batchAnswer BatchCarries BatchFailed endPoints batchOutcome
        (executeBatchAnyAsync endPoints batchOutcome (first :: rest)) ↔
      (batchAnswer (batchOutcome first)).isSome ∨
        (∀ e ∈ endPoints, batchAnswer (batchOutcome e) = none) ∧
          batchReports (batchOutcome first)) := by
  obtain ⟨e, es, rfl⟩ : ∃ e es, endPoints = e :: es :=
    List.exists_cons_of_ne_nil fun h => nomatch (h ▸ hp).eq_nil
  constructor
  · have hrun : executeCmdAnyAsync readResult (e :: es) outcome (first :: rest) method false =
        mapDaemonResponse readResult (e :: es) 0 (outcome first) false := by
      rw [executeCmdAnyAsync, if_neg hm, whenAny, ok_bind]
    rw [hrun]
    exact failsOver_iff_first (fun x => mapDaemonResponse readResult (e :: es) 0 x false)
      (fun _ _ h => mapDaemonResponse_answer h) (fun _ _ _ hr hc => answer_of_carries hr hc)
      (fun _ h => mapDaemonResponse_failed h) hp outcome
  · have hrun : executeBatchAnyAsync (e :: es) batchOutcome (first :: rest) =
        mapDaemonBatchResponse (e :: es) 0 (batchOutcome first) := by
      rw [executeBatchAnyAsync, whenAny, ok_bind]
    rw [hrun]
    exact failsOver_iff_first (mapDaemonBatchResponse (e :: es) 0)
      (fun _ _ h => mapDaemonBatchResponse_answer h)
      (fun _ _ _ hr hc => batchAnswer_of_carries hr hc)
      (fun _ _ => mapDaemonBatchResponse_failed) hp batchOutcome

/-- Of two daemons the second answers, and the request to the first ends as `other`. -/
def secondAnswers (value : ρ) (other : Completion ρ) (endPoint : String) : Completion ρ :=
  if endPoint = "daemon2" then .ran value else other

theorem failsOver_executeAny_two :
    FailsOver (answer (fun n : ℕ => Except.ok n)) Carries Failed ["daemon1", "daemon2"]
        (secondAnswers (some ⟨some 7, none⟩) .canceled)
        (executeCmdAnyAsync (fun n : ℕ => Except.ok n) ["daemon1", "daemon2"]
          (secondAnswers (some ⟨some 7, none⟩) .canceled) ["daemon2", "daemon1"]
          "eth_syncing" false) ∧
      FailsOver batchAnswer BatchCarries BatchFailed ["daemon1", "daemon2"]
        (secondAnswers (some [some ⟨some 7, none⟩]) (.faulted "refused"))
        (executeBatchAnyAsync (J := ℕ) ["daemon1", "daemon2"]
          (secondAnswers (some [some ⟨some 7, none⟩]) (.faulted "refused"))
          ["daemon2", "daemon1"]) :=
  have h := failsOver_executeAny_iff (fun n : ℕ => Except.ok n)
    (List.Perm.swap "daemon1" "daemon2" []) (secondAnswers (some ⟨some 7, none⟩) .canceled)
    (secondAnswers (some [some ⟨some 7, none⟩]) (.faulted "refused"))
    (show "eth_syncing" ≠ "" by decide)
  ⟨h.1.mpr (.inl rfl), h.2.mpr (.inl rfl)⟩

/-- A request and a batch that the second daemon answers, and that fail at the first before that:
the request gets the failure, and the batch throws it, as it does when no other daemon is there. -/
theorem failsOver_executeAny_fails :
    ¬ FailsOver (answer (fun n : ℕ => Except.ok n)) Carries Failed ["daemon1", "daemon2"]
        (secondAnswers (some ⟨some 7, none⟩) (.faulted "refused"))
        (executeCmdAnyAsync (fun n : ℕ => Except.ok n) ["daemon1", "daemon2"]
          (secondAnswers (some ⟨some 7, none⟩) (.faulted "refused")) ["daemon1", "daemon2"]
          "eth_syncing" false) ∧
      ¬ FailsOver batchAnswer BatchCarries BatchFailed ["daemon1", "daemon2"]
        (secondAnswers (some [some ⟨some 7, none⟩]) (.faulted "refused"))
        (executeBatchAnyAsync (J := ℕ) ["daemon1", "daemon2"]
          (secondAnswers (some [some ⟨some 7, none⟩]) (.faulted "refused"))
          ["daemon1", "daemon2"]) ∧
      ¬ FailsOver batchAnswer BatchCarries BatchFailed ["daemon1"] (fun _ => .faulted "refused")
        (executeBatchAnyAsync (J := ℕ) ["daemon1"] (fun _ => .faulted "refused") ["daemon1"]) := by
  refine ⟨fun ⟨h, _⟩ => ?_, fun ⟨h, _⟩ => ?_, fun ⟨_, h⟩ => ?_⟩
  · obtain ⟨_, _, _, _, _, hr, herr, _⟩ := h ⟨"daemon2", by decide, rfl⟩
    cases hr
    exact nomatch herr
  · obtain ⟨_, _, _, _, _, hr, _⟩ := h ⟨"daemon2", by decide, rfl⟩
    exact nomatch hr
  · obtain ⟨_, hr, _⟩ := h fun _ _ => rfl
    exact nomatch hr

end AionPool.DaemonInterface
