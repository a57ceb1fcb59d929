import Mathlib.Data.List.Basic
import Mathlib.Order.Defs.Unbundled

/-!
# Programs with a state and exceptions

`EStateM ε σ` keeps the state a program has reached when it throws.

* The rules that run a program step by step.
* `Keeps R E`: a program that relates the state before and after it by `R`, and throws only
  exceptions in `E`. Its rules follow the program's syntax, for a relation that is a preorder.
* `after`: the state a program leaves, however it ends. The `leaves_*` rules follow the program from
  the one state it starts in.
-/

namespace AionPool.Lib.Effects

variable {ε σ α β : Type}

theorem run_bind_ok {x : EStateM ε σ α} {f : α → EStateM ε σ β} {s s' : σ} {a : α}
    (h : x.run s = .ok a s') : (x >>= f).run s = (f a).run s' := by
  rw [EStateM.run_bind, h]

theorem run_bind_error {x : EStateM ε σ α} {f : α → EStateM ε σ β} {s s' : σ} {e : ε}
    (h : x.run s = .error e s') : (x >>= f).run s = .error e s' := by
  rw [EStateM.run_bind, h]

theorem run_ofExcept_ok {x : Except ε α} {a : α} (h : x = .ok a) (s : σ) :
    (MonadExcept.ofExcept x : EStateM ε σ α).run s = .ok a s := by
  subst h
  rfl

theorem run_ofExcept_error {x : Except ε α} {e : ε} (h : x = .error e) (s : σ) :
    (MonadExcept.ofExcept x : EStateM ε σ α).run s = .error e s := by
  subst h
  rfl

theorem run_tryCatch_ok {x : EStateM ε σ α} {handle : ε → EStateM ε σ α} {s s' : σ} {a : α}
    (h : x.run s = .ok a s') : (tryCatch x handle).run s = .ok a s' := by
  have hrun : (tryCatch x handle).run s = EStateM.tryCatch x handle s := rfl
  rw [hrun]
  unfold EStateM.tryCatch
  rw [show x s = .ok a s' from h]

/-- What a program has changed before it throws is kept. -/
theorem run_tryCatch_error {x : EStateM ε σ α} {handle : ε → EStateM ε σ α} {s s' : σ} {e : ε}
    (h : x.run s = .error e s') : (tryCatch x handle).run s = (handle e).run s' := by
  have hrun : (tryCatch x handle).run s = EStateM.tryCatch x handle s := rfl
  rw [hrun]
  unfold EStateM.tryCatch
  rw [show x s = .error e s' from h]
  rfl

/-! ## What a program keeps -/

/-- However `x` ends, the states before and after it are related by `R`; what it throws is in
`E`. -/
def Keeps (R : σ → σ → Prop) (E : ε → Prop) (x : EStateM ε σ α) : Prop :=
  ∀ s, match x.run s with
    | .ok _ s' => R s s'
    | .error e s' => R s s' ∧ E e

variable {R : σ → σ → Prop} {E : ε → Prop}

theorem Keeps.of_ok {x : EStateM ε σ α} (h : Keeps R E x) {s s' : σ} {a : α}
    (hrun : x.run s = .ok a s') : R s s' := by
  have hs := h s
  rw [hrun] at hs
  exact hs

theorem Keeps.of_error {x : EStateM ε σ α} (h : Keeps R E x) {s s' : σ} {e : ε}
    (hrun : x.run s = .error e s') : R s s' ∧ E e := by
  have hs := h s
  rw [hrun] at hs
  exact hs

theorem Keeps.mono {R' : σ → σ → Prop} {E' : ε → Prop} {x : EStateM ε σ α} (h : Keeps R E x)
    (hR : ∀ s s', R s s' → R' s s') (hE : ∀ e, E e → E' e) : Keeps R' E' x := by
  intro s
  have hs := h s
  cases hrun : x.run s with
  | ok a s' =>
    rw [hrun] at hs
    exact hR s s' hs
  | error e s' =>
    rw [hrun] at hs
    exact ⟨hR s s' hs.1, hE e hs.2⟩

theorem keeps_modify {f : σ → σ} (h : ∀ s, R s (f s)) :
    Keeps R E (modify f : EStateM ε σ Unit) := h

section Preorder

variable [IsPreorder σ R]

theorem keeps_pure (a : α) : Keeps R E (pure a : EStateM ε σ α) := fun s => refl_of R s

theorem keeps_get : Keeps R E (get : EStateM ε σ σ) := fun s => refl_of R s

theorem keeps_throw {e : ε} (he : E e) : Keeps R E (throw e : EStateM ε σ α) :=
  fun s => ⟨refl_of R s, he⟩

theorem keeps_ofExcept {x : Except ε α} (h : ∀ e, x = .error e → E e) :
    Keeps R E (MonadExcept.ofExcept x : EStateM ε σ α) := by
  intro s
  cases x with
  | ok a => exact refl_of R s
  | error e => exact ⟨refl_of R s, h e rfl⟩

theorem keeps_bind {x : EStateM ε σ α} {f : α → EStateM ε σ β} (hx : Keeps R E x)
    (hf : ∀ a, Keeps R E (f a)) : Keeps R E (x >>= f) := by
  intro s
  cases hrun : x.run s with
  | ok a t =>
    have ht := hx.of_ok hrun
    rw [run_bind_ok hrun]
    cases hrest : (f a).run t with
    | ok b u => exact trans_of R ht ((hf a).of_ok hrest)
    | error e u =>
      obtain ⟨hu, he⟩ := (hf a).of_error hrest
      exact ⟨trans_of R ht hu, he⟩
  | error e t =>
    rw [run_bind_error hrun]
    exact hx.of_error hrun

theorem keeps_tryCatch {E' : ε → Prop} {x : EStateM ε σ α} {handle : ε → EStateM ε σ α}
    (hx : Keeps R E' x) (hhandle : ∀ e, Keeps R E (handle e)) : Keeps R E (tryCatch x handle) := by
  intro s
  cases hrun : x.run s with
  | ok a t =>
    rw [run_tryCatch_ok hrun]
    exact hx.of_ok hrun
  | error e t =>
    have ht := (hx.of_error hrun).1
    rw [run_tryCatch_error hrun]
    cases hrest : (handle e).run t with
    | ok b u => exact trans_of R ht ((hhandle e).of_ok hrest)
    | error e' u =>
      obtain ⟨hu, he⟩ := (hhandle e).of_error hrest
      exact ⟨trans_of R ht hu, he⟩

end Preorder

/-! ## The state a program leaves -/

/-- The state `x` leaves, however it ends. -/
def after (x : EStateM ε σ α) (s : σ) : σ :=
  match x.run s with
  | .ok _ s' => s'
  | .error _ s' => s'

theorem after_ok {x : EStateM ε σ α} {s s' : σ} {a : α} (h : x.run s = .ok a s') :
    after x s = s' := by
  unfold after
  rw [h]

theorem after_error {x : EStateM ε σ α} {s s' : σ} {e : ε} (h : x.run s = .error e s') :
    after x s = s' := by
  unfold after
  rw [h]

theorem Keeps.after {x : EStateM ε σ α} (h : Keeps R E x) (s : σ) : R s (after x s) := by
  cases hrun : x.run s with
  | ok a s' =>
    rw [after_ok hrun]
    exact h.of_ok hrun
  | error e s' =>
    rw [after_error hrun]
    exact (h.of_error hrun).1

theorem after_bind_ok {x : EStateM ε σ α} {f : α → EStateM ε σ β} {s s' : σ} {a : α}
    (h : x.run s = .ok a s') : after (x >>= f) s = after (f a) s' := by
  unfold after
  rw [run_bind_ok h]

theorem after_bind_error {x : EStateM ε σ α} {f : α → EStateM ε σ β} {s s' : σ} {e : ε}
    (h : x.run s = .error e s') : after (x >>= f) s = s' := after_error (run_bind_error h)

variable {Q : σ → Prop} {s : σ}

theorem leaves_bind {x : EStateM ε σ α} {f : α → EStateM ε σ β}
    (herror : ∀ e t, x.run s = .error e t → Q t)
    (hok : ∀ a t, x.run s = .ok a t → Q (after (f a) t)) : Q (after (x >>= f) s) := by
  cases hrun : x.run s with
  | ok a t =>
    rw [after_bind_ok hrun]
    exact hok a t hrun
  | error e t =>
    rw [after_bind_error hrun]
    exact herror e t hrun

theorem leaves_bind_ofExcept {x : Except ε α} {f : α → EStateM ε σ β}
    (herror : ∀ e, x = .error e → Q s) (hok : ∀ a, x = .ok a → Q (after (f a) s)) :
    Q (after ((MonadExcept.ofExcept x : EStateM ε σ α) >>= f) s) := by
  cases x with
  | ok a => exact hok a rfl
  | error e => exact herror e rfl

/-- A handler sees the state the exception was thrown in. -/
theorem leaves_tryCatch {x : EStateM ε σ α} {handle : ε → EStateM ε σ α} (hx : Q (after x s))
    (hhandle : ∀ e t, Q t → Q (after (handle e) t)) : Q (after (tryCatch x handle) s) := by
  cases hrun : x.run s with
  | ok a t =>
    rw [after_ok hrun] at hx
    rw [after_ok (run_tryCatch_ok hrun)]
    exact hx
  | error e t =>
    rw [after_error hrun] at hx
    have hhandled := hhandle e t hx
    unfold after at hhandled ⊢
    rw [run_tryCatch_error hrun]
    exact hhandled

end AionPool.Lib.Effects
