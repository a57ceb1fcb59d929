import AionPool.Lib.Effects

/-!
# Resilience policies

A policy runs a program that may throw: it repeats it, does not run it for a while, or runs another
one in its place. A wrap of policies is their composition, the outermost one first.

* `retry`, `fallback`, `CircuitBreaker.policy`: what each policy makes of a program.
* `Atomic view F E`: a program that has its effect when it returns, and none when it throws. Every
  policy has a rule, so a wrap is read off from the outside to the inside: **`atomic_retry`**,
  **`atomic_circuitBreaker`**, **`atomic_fallback`**.
-/

namespace AionPool.Lib.Resilience

open AionPool.Lib.Effects

variable {ε σ τ : Type}

/-! ## Policies -/

/-- What a policy makes of a program. -/
abbrev Policy (ε σ : Type) := EStateM ε σ Unit → EStateM ε σ Unit

/-- After an exception that is handled the program is run again, `retryCount` times at most. -/
def retry (handles : ε → Bool) : ℕ → Policy ε σ
  | 0, x => x
  | retryCount + 1, x =>
    tryCatch x fun e => if handles e then retry handles retryCount x else throw e

/-- After an exception that is handled the other program is run. -/
def fallback (handles : ε → Bool) (fallbackAction : EStateM ε σ Unit) : Policy ε σ := fun x =>
  tryCatch x fun e => if handles e then fallbackAction else throw e

/-- The state of a circuit; times are in ticks. -/
inductive Circuit where
  | closed (consecutiveFailures : ℕ)
  | opened (blockedTill : ℕ)
  /-- One call has been let through; the next may follow at `blockedTill`. -/
  | halfOpen (blockedTill : ℕ)
  deriving DecidableEq

/-- A circuit breaker that counts consecutive failures, with the clock it reads and the place its
circuit is kept in. -/
structure CircuitBreaker (ε σ : Type) where
  handles : ε → Bool
  exceptionsAllowedBeforeBreaking : ℕ
  durationOfBreak : ℕ
  brokenCircuit : ε
  now : EStateM ε σ ℕ
  circuit : σ → Circuit
  setCircuit : Circuit → σ → σ

namespace CircuitBreaker

variable (breaker : CircuitBreaker ε σ)

/-- The circuit as a call finds it, unless the call is not let through. -/
def enter (now : ℕ) : Circuit → Option Circuit
  | .closed failures => some (.closed failures)
  | .opened blockedTill | .halfOpen blockedTill =>
    if now < blockedTill then none else some (.halfOpen (now + breaker.durationOfBreak))

def succeed : Circuit → Circuit
  | .closed _ | .halfOpen _ => .closed 0
  | .opened blockedTill => .opened blockedTill

def fail (now : ℕ) : Circuit → Circuit
  | .closed failures =>
    if breaker.exceptionsAllowedBeforeBreaking ≤ failures + 1 then
      .opened (now + breaker.durationOfBreak)
    else .closed (failures + 1)
  | .halfOpen _ => .opened (now + breaker.durationOfBreak)
  | .opened blockedTill => .opened blockedTill

/-- The program is run, and its end counted, unless the circuit is open. -/
def policy : Policy ε σ := fun x => do
  let now ← breaker.now
  let s ← get
  match breaker.enter now (breaker.circuit s) with
  | none => throw breaker.brokenCircuit
  | some circuit =>
    modify (breaker.setCircuit circuit)
    tryCatch
      (do
        x
        modify fun s => breaker.setCircuit (succeed (breaker.circuit s)) s)
      fun e => do
        if breaker.handles e then
          let now ← breaker.now
          modify fun s => breaker.setCircuit (breaker.fail now (breaker.circuit s)) s
        throw e

/-- The clock and the circuit are no part of the view. -/
structure Apart (view : σ → τ) : Prop where
  setCircuit : ∀ circuit s, view (breaker.setCircuit circuit s) = view s
  now : Keeps (fun s s' => view s' = view s) (fun _ => False) breaker.now

end CircuitBreaker

/-! ## Effects that are taken once or not at all -/

/-- When `x` returns, the view has changed by `F`; when it throws, it has not, and the exception is
in `E`. -/
def Atomic (view : σ → τ) (F : τ → τ → Prop) (E : ε → Prop) (x : EStateM ε σ Unit) : Prop :=
  ∀ s, match x.run s with
    | .ok _ s' => F (view s) (view s')
    | .error e s' => view s' = view s ∧ E e

section Rules

variable {view : σ → τ} {F F' : τ → τ → Prop} {E E' : ε → Prop} {x y : EStateM ε σ Unit}

theorem Atomic.of_ok (h : Atomic view F E x) {s s' : σ} {u : Unit} (hrun : x.run s = .ok u s') :
    F (view s) (view s') := by
  have hs := h s
  rw [hrun] at hs
  exact hs

theorem Atomic.of_error (h : Atomic view F E x) {s s' : σ} {e : ε}
    (hrun : x.run s = .error e s') : view s' = view s ∧ E e := by
  have hs := h s
  rw [hrun] at hs
  exact hs

theorem Atomic.mono (h : Atomic view F E x) (hF : ∀ t t', F t t' → F' t t')
    (hE : ∀ e, E e → E' e) : Atomic view F' E' x := by
  intro s
  cases hrun : x.run s with
  | ok u s' => exact hF _ _ (h.of_ok hrun)
  | error e s' =>
    obtain ⟨hview, he⟩ := h.of_error hrun
    exact ⟨hview, hE e he⟩

/-- A program that throws nothing returns. -/
theorem Atomic.returns (h : Atomic view F (fun _ => False) x) (s : σ) :
    ∃ s', x.run s = .ok () s' ∧ F (view s) (view s') := by
  cases hrun : x.run s with
  | ok u s' => exact ⟨s', rfl, h.of_ok hrun⟩
  | error e s' => exact (h.of_error hrun).2.elim

/-- What is run after an exception finds the view as it was before. -/
theorem atomic_tryCatch {handle : ε → EStateM ε σ Unit} (hx : Atomic view F E x)
    (hhandle : ∀ e, E e → Atomic view F' E' (handle e)) :
    Atomic view (fun t t' => F t t' ∨ F' t t') E' (tryCatch x handle) := by
  intro s
  cases hrun : x.run s with
  | ok u s' =>
    rw [run_tryCatch_ok hrun]
    exact Or.inl (hx.of_ok hrun)
  | error e t =>
    obtain ⟨hview, he⟩ := hx.of_error hrun
    rw [run_tryCatch_error hrun]
    cases hrun' : (handle e).run t with
    | ok u s' => exact Or.inr (hview ▸ (hhandle e he).of_ok hrun')
    | error e' s' =>
      obtain ⟨hview', he'⟩ := (hhandle e he).of_error hrun'
      exact ⟨hview'.trans hview, he'⟩

theorem atomic_throw {e : ε} (he : E e) : Atomic view F E (throw e : EStateM ε σ Unit) :=
  fun _ => ⟨rfl, he⟩

/-- **Retries** do not repeat an effect. -/
theorem atomic_retry (handles : ε → Bool) (h : Atomic view F E x) :
    ∀ retryCount, Atomic view F E (retry handles retryCount x)
  | 0 => h
  | retryCount + 1 => by
    refine (atomic_tryCatch h fun e he => ?_).mono (fun t t' hF => hF.elim id id) fun _ => id
    split
    · exact atomic_retry handles h retryCount
    · exact atomic_throw he

/-- **A fallback** has its effect where the program has none. -/
theorem atomic_fallback (handles : ε → Bool) (hx : Atomic view F E x)
    (hy : Atomic view F' E' y) :
    Atomic view (fun t t' => F t t' ∨ F' t t') (fun e => (E e ∧ handles e = false) ∨ E' e)
      (fallback handles y x) := by
  refine atomic_tryCatch hx fun e he => ?_
  split
  · exact hy.mono (fun _ _ => id) fun _ => Or.inr
  · rename_i hnot
    exact atomic_throw (Or.inl ⟨he, by simpa using hnot⟩)

/-- What changes nothing in the view may come first. -/
theorem atomic_bind_silent {α : Type} {m : EStateM ε σ α} {f : α → EStateM ε σ Unit}
    (hm : Keeps (fun s s' => view s' = view s) E m) (hf : ∀ a, Atomic view F E (f a)) :
    Atomic view F E (m >>= f) := by
  intro s
  cases hrun : m.run s with
  | ok a t =>
    have hview : view t = view s := hm.of_ok hrun
    rw [run_bind_ok hrun, ← hview]
    exact hf a t
  | error e t =>
    rw [run_bind_error hrun]
    exact hm.of_error hrun

/-- What changes nothing in the view, and throws nothing, may follow. -/
theorem atomic_silent_bind {m : EStateM ε σ Unit} (hx : Atomic view F E x)
    (hm : Keeps (fun s s' => view s' = view s) (fun _ => False) m) :
    Atomic view F E (do x; m) := by
  intro s
  cases hrun : x.run s with
  | error e t =>
    rw [run_bind_error hrun]
    exact hx.of_error hrun
  | ok u t =>
    rw [run_bind_ok hrun]
    cases hrun' : m.run t with
    | ok u' s' =>
      have hview : view s' = view t := hm.of_ok hrun'
      change F (view s) (view s')
      rw [hview]
      exact hx.of_ok hrun
    | error e s' => exact (hm.of_error hrun').2.elim

/-- **A circuit breaker** runs the program once, or not at all. -/
theorem atomic_circuitBreaker (breaker : CircuitBreaker ε σ) (hapart : breaker.Apart view)
    (hx : Atomic view F E x) :
    Atomic view F (fun e => E e ∨ e = breaker.brokenCircuit) (breaker.policy x) := by
  have hset : ∀ (f : σ → Circuit) (E : ε → Prop), Keeps (fun s s' => view s' = view s) E
      (modify fun s => breaker.setCircuit (f s) s) :=
    fun f E => keeps_modify fun s => hapart.setCircuit (f s) s
  have hnow : ∀ E : ε → Prop, Keeps (fun s s' => view s' = view s) E breaker.now :=
    fun E => hapart.now.mono (fun _ _ => id) fun _ => False.elim
  unfold CircuitBreaker.policy
  refine atomic_bind_silent (hnow _) fun now => ?_
  refine atomic_bind_silent (m := get) (fun _ => rfl) fun s => ?_
  cases breaker.enter now (breaker.circuit s) with
  | none => exact atomic_throw (Or.inr rfl)
  | some circuit =>
    refine atomic_bind_silent (hset (fun _ => circuit) _) fun _ => ?_
    have hx' := atomic_silent_bind hx
      (hset (fun s => CircuitBreaker.succeed (breaker.circuit s)) fun _ => False)
    refine (atomic_tryCatch hx' fun e he =>
      (?_ : Atomic view F (fun e => E e ∨ e = breaker.brokenCircuit) _)).mono
        (fun t t' hF => hF.elim id id) fun _ => id
    split
    · refine atomic_bind_silent (hnow _) fun now => ?_
      exact atomic_bind_silent (hset _ _) fun _ => atomic_throw (Or.inl he)
    · exact atomic_throw (Or.inl he)

end Rules

end AionPool.Lib.Resilience
