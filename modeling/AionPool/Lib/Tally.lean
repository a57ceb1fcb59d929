import Mathlib.Data.List.Nodup
import Mathlib.Algebra.BigOperators.Group.List.Basic

/-!
# Tallies: dictionaries that accumulate

A `Tally K V` is a dictionary from `K` to amounts of `V`: a list of entries with distinct keys, in
the order the keys were first written. `add` writes the amount of a new key and adds to the amount
of a key that is there.

* `get_add`, `total_add`: an addition changes one key's amount, and the total, by what is added.
* `forall_add`: what holds of every entry still does after an addition that keeps it.
-/

namespace AionPool.Lib

/-- A dictionary of amounts, one entry a key. -/
structure Tally (K V : Type*) where
  entries : List (K × V)
  nodup : (entries.map Prod.fst).Nodup
  deriving DecidableEq

namespace Tally

variable {K V : Type*} [DecidableEq K]

/-- The empty dictionary. -/
def empty : Tally K V := ⟨[], List.nodup_nil⟩

instance : Inhabited (Tally K V) := ⟨empty⟩

/-- The entries after adding `v` to the amount of `k`. -/
def addEntry [Add V] (k : K) (v : V) : List (K × V) → List (K × V)
  | [] => [(k, v)]
  | (k', v') :: es => if k = k' then (k', v' + v) :: es else (k', v') :: addEntry k v es

theorem keys_addEntry [Add V] (k : K) (v : V) (es : List (K × V)) :
    (addEntry k v es).map Prod.fst =
      if k ∈ es.map Prod.fst then es.map Prod.fst else es.map Prod.fst ++ [k] := by
  induction es with
  | nil => rfl
  | cons e es ih =>
    obtain ⟨k', v'⟩ := e
    simp only [addEntry]
    by_cases h : k = k'
    · subst h
      simp
    · rw [if_neg h]
      simp only [List.map_cons, ih, List.mem_cons, h, false_or]
      split <;> simp

/-- Add `v` to the amount of `k`, writing `v` when the key is new. -/
def add [Add V] (t : Tally K V) (k : K) (v : V) : Tally K V where
  entries := addEntry k v t.entries
  nodup := by
    rw [keys_addEntry]
    split
    · exact t.nodup
    · rename_i h
      rw [List.nodup_append]
      refine ⟨t.nodup, List.nodup_singleton k, ?_⟩
      intro a ha b hb
      rw [List.mem_singleton.mp hb]
      exact fun e => h (e ▸ ha)

/-- What holds of the amounts keeps holding of them. -/
theorem forall_add [Add V] {t : Tally K V} {k : K} {v : V} {P : V → Prop}
    (ht : ∀ e ∈ t.entries, P e.2) (hv : P v) (hadd : ∀ v', P v' → P (v' + v)) :
    ∀ e ∈ (t.add k v).entries, P e.2 := by
  unfold add
  simp only
  revert ht
  induction t.entries with
  | nil =>
    intro _ e he
    rw [List.mem_singleton.mp he]
    exact hv
  | cons a es ih =>
    intro ht e he
    have ha := ht a List.mem_cons_self
    have hes := fun e he => ht e (List.mem_cons_of_mem a he)
    rw [addEntry] at he
    split at he
    · rcases List.mem_cons.mp he with rfl | he
      · exact hadd a.2 ha
      · exact hes e he
    · rcases List.mem_cons.mp he with rfl | he
      · exact ha
      · exact ih hes e he

section Amounts

variable [AddMonoid V]

/-- The amount of `k`, zero for a key without an entry. -/
def get (t : Tally K V) (k : K) : V :=
  match t.entries.find? (fun e => e.1 = k) with
  | some e => e.2
  | none => 0

/-- The sum of all amounts. -/
def total (t : Tally K V) : V := (t.entries.map Prod.snd).sum

@[simp] theorem get_empty (k : K) : (empty : Tally K V).get k = 0 := rfl

omit [DecidableEq K] in
@[simp] theorem total_empty : (empty : Tally K V).total = 0 := rfl

theorem get_add (t : Tally K V) (k k' : K) (v : V) :
    (t.add k v).get k' = if k = k' then t.get k' + v else t.get k' := by
  unfold get add
  simp only
  induction t.entries with
  | nil => by_cases h : k = k' <;> simp [addEntry, List.find?, h]
  | cons e es ih =>
    obtain ⟨a, w⟩ := e
    simp only [addEntry]
    by_cases ha : k = a
    · subst ha
      by_cases h : k = k' <;> simp [List.find?, h]
    · rw [if_neg ha]
      by_cases h' : a = k'
      · subst h'
        simp [List.find?, ha]
      · simpa [List.find?, h'] using ih

end Amounts

theorem total_add [AddCommMonoid V] (t : Tally K V) (k : K) (v : V) :
    (t.add k v).total = t.total + v := by
  unfold total add
  simp only
  induction t.entries with
  | nil => simp [addEntry]
  | cons e es ih =>
    obtain ⟨a, w⟩ := e
    simp only [addEntry]
    split
    · simp only [List.map_cons, List.sum_cons]
      rw [add_right_comm]
    · simp only [List.map_cons, List.sum_cons, ih]
      rw [add_assoc]

end Tally

end AionPool.Lib
