import Mathlib.Data.String.Basic

/-!
# What the code takes from its runtime

`DateTime` in ticks, and the exceptions the modelled functions throw. An operation that can throw
returns in `Except Exn`. A database transaction is atomic, but its outcome is not always known.
-/

namespace AionPool

/-- `System.DateTime`, in ticks. -/
abbrev DateTime := ℕ

/-- `StratumError`. -/
inductive StratumError where
  | other
  | jobNotFound
  | duplicateShare
  | lowDifficultyShare
  | unauthorizedWorker
  | notSubscribed
  | minusOne
  deriving DecidableEq, Repr

/-- The exceptions of the modelled code, by their .NET classes. -/
inductive Exn where
  | nullReference
  | argument
  | argumentNull
  | argumentOutOfRange
  | indexOutOfRange
  | keyNotFound
  | invalidOperation
  | invalidCast
  | notSupported
  | jsonReader
  | jsonSerialization
  | format
  | divideByZero
  | overflow (message : String)
  | aggregate
  | stratum (code : StratumError) (message : String)
  | exception (message : String)
  deriving DecidableEq, Repr

/-- How a database transaction ends. One whose acknowledgement is lost has committed, and throws. -/
inductive TxOutcome where
  | committed
  | ackLost
  | rolledBack
  deriving DecidableEq

theorem ok_bind {α β : Type} (a : α) (f : α → Except Exn β) : (Except.ok a >>= f) = f a := rfl

theorem bind_eq_ok {α β : Type} {x : Except Exn α} {f : α → Except Exn β} {b : β} :
    (x >>= f) = .ok b ↔ ∃ a, x = .ok a ∧ f a = .ok b := by
  cases x <;> simp [Bind.bind, Except.bind]

end AionPool
