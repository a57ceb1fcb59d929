import AionPool.Lib.Blocks
import Mathlib.Data.List.GetD

/-!
# Buffers with bounds

An access that leaves its buffer has no result.

* `load_append`, `store_append`: an access to a part of a buffer, told by what is before and behind
  it.
* **`mapM_load_flatMap`**: the elements of an array that lies in a buffer.
-/

namespace AionPool.Lib.Buffer

variable {α : Type}

/-- `len` elements from `off` on. -/
def load (buf : List α) (off len : ℕ) : Option (List α) :=
  if off + len ≤ buf.length then some ((buf.drop off).take len) else none

/-- The buffer after elements were written from `off` on. -/
def store (buf : List α) (off : ℕ) (xs : List α) : Option (List α) :=
  if off + xs.length ≤ buf.length then some (buf.take off ++ xs ++ buf.drop (off + xs.length))
  else none

theorem load_append (xs ys zs : List α) {off len : ℕ} (hoff : off = xs.length)
    (hlen : len = ys.length) : load (xs ++ (ys ++ zs)) off len = some ys := by
  subst hoff hlen
  unfold load
  rw [if_pos (by rw [List.length_append, List.length_append]; omega), List.drop_left,
    List.take_left]

theorem load_append_zero (ys zs : List α) {len : ℕ} (hlen : len = ys.length) :
    load (ys ++ zs) 0 len = some ys := load_append [] ys zs rfl hlen

theorem store_append (xs ys zs : List α) {off : ℕ} {ys' : List α} (hoff : off = xs.length)
    (hlen : ys'.length = ys.length) :
    store (xs ++ (ys ++ zs)) off ys' = some (xs ++ (ys' ++ zs)) := by
  subst hoff
  have hdrop : (xs ++ (ys ++ zs)).drop (xs.length + ys'.length) = zs := by
    rw [hlen, ← List.length_append, ← List.append_assoc, List.drop_left]
  unfold store
  rw [if_pos (by rw [List.length_append, List.length_append]; omega), List.take_left, hdrop,
    List.append_assoc]

/-- What is behind a buffer's first elements is overwritten. -/
theorem store_behind (xs zs : List α) {off : ℕ} {ys : List α} (hoff : off = xs.length)
    (h : ys.length ≤ zs.length) :
    store (xs ++ zs) off ys = some (xs ++ (ys ++ zs.drop ys.length)) := by
  have := store_append xs (zs.take ys.length) (zs.drop ys.length) hoff
    (List.length_take_of_le h).symm
  rwa [List.take_append_drop] at this

theorem store_zero {buf xs : List α} (h : xs.length ≤ buf.length) :
    store buf 0 xs = some (xs ++ buf.drop xs.length) := store_behind [] buf rfl h

theorem length_store {buf buf' xs : List α} {off : ℕ} (h : store buf off xs = some buf') :
    buf'.length = buf.length := by
  unfold store at h
  split at h
  · obtain rfl := Option.some.inj h
    rw [List.length_append, List.length_append, List.length_take, List.length_drop]
    omega
  · exact nomatch h

/-- Accesses that all have a result. -/
theorem mapM_of_forall {β γ : Type} {f : β → Option γ} {g : β → γ} {xs : List β}
    (h : ∀ a ∈ xs, f a = some (g a)) : xs.mapM f = some (xs.map g) := by
  induction xs with
  | nil => rfl
  | cons a xs ih =>
    rw [List.mapM_cons, h a List.mem_cons_self, ih fun b hb => h b (List.mem_cons_of_mem a hb)]
    rfl

/-- Reading elements of one length, in a part of the buffer. -/
theorem mapM_load_flatMap {β : Type} {f : β → List α} {k : ℕ} (hf : ∀ b, (f b).length = k)
    (pre : List α) (bs : List β) (rest : List α) :
    (List.range bs.length).mapM (fun i =>
      load (pre ++ (bs.flatMap f ++ rest)) (pre.length + k * i) k) = some (bs.map f) := by
  have hload : ∀ i, (hi : i < bs.length) →
      load (pre ++ (bs.flatMap f ++ rest)) (pre.length + k * i) k = some (f bs[i]) := by
    intro i hi
    have hsplit : bs.flatMap f =
        (bs.take i).flatMap f ++ (f bs[i] ++ (bs.drop (i + 1)).flatMap f) := by
      rw [← List.flatMap_cons, ← List.drop_eq_getElem_cons hi, ← List.flatMap_append,
        List.take_append_drop]
    have hoff : pre.length + k * i = (pre ++ (bs.take i).flatMap f).length := by
      rw [List.length_append, Blocks.length_flatMap hf, List.length_take_of_le hi.le]
    rw [hsplit, List.append_assoc, List.append_assoc, ← List.append_assoc pre]
    exact load_append _ _ _ hoff (hf _).symm
  have hback : (List.range bs.length).map (fun i => (bs.map f).getD i []) = bs.map f := by
    refine List.ext_getElem (by simp) fun i _ hi => ?_
    rw [List.getElem_map, List.getElem_range, List.getD_eq_getElem _ _ hi]
  rw [← hback]
  refine mapM_of_forall fun i hi => ?_
  have hi := List.mem_range.mp hi
  rw [hload i hi, List.getD_eq_getElem _ _ (by rwa [List.length_map]), List.getElem_map]

end AionPool.Lib.Buffer
