import Mathlib.Data.List.TakeDrop
import Mathlib.Tactic.Ring

/-!
# Absorbing a stream block by block

A state absorbs a message in blocks of `n` elements. Whether a block is the last one is known only
when the message ends, so a full buffer waits until another element comes.

* `push` takes one element; `absorb` takes a piece as a loop does that fills the buffer at once.
* **`absorb_eq_foldl_push`**: they agree.
* `after m` is what a message `m` leaves, in closed form: `chain` over the blocks that are known not
  to be the last one, and the rest in the buffer. **`absorb_after`**: absorbing a piece is adding it
  to the message, however the message is cut.
* `take_drop_flatMap`: the blocks of a list that was put together from blocks.
-/

namespace AionPool.Lib.Blocks

variable {σ α : Type}

/-- A state, how many elements it has absorbed, and the elements that wait. -/
structure Absorber (σ α : Type) where
  state : σ
  count : ℕ
  buf : List α

variable (n : ℕ) (compress : σ → ℕ → List α → σ)

/-- A buffer that turned out not to be the last one is compressed, with the elements counted up to
its end. -/
def Absorber.flush (s : Absorber σ α) (block : List α) : Absorber σ α where
  state := compress s.state (s.count + n) block
  count := s.count + n
  buf := []

/-- One element. -/
def push (s : Absorber σ α) (a : α) : Absorber σ α :=
  if s.buf.length = n then { s.flush n compress s.buf with buf := [a] }
  else { s with buf := s.buf ++ [a] }

/-- A piece: as long as it is more than the buffer has room for, the buffer is filled. -/
def absorb (hn : 0 < n) (s : Absorber σ α) (piece : List α) : Absorber σ α :=
  if n - s.buf.length < piece.length then
    absorb hn (s.flush n compress (s.buf ++ piece.take (n - s.buf.length)))
      (piece.drop (n - s.buf.length))
  else { s with buf := s.buf ++ piece }
termination_by piece.length + s.buf.length
decreasing_by
  rw [List.length_drop]
  change _ + 0 < _
  omega

variable {n compress}

/-! ## One element and many -/

/-- Elements the buffer has room for are appended to it. -/
theorem foldl_push_of_fits (s : Absorber σ α) (piece : List α)
    (h : s.buf.length + piece.length ≤ n) :
    piece.foldl (push n compress) s = { s with buf := s.buf ++ piece } := by
  induction piece generalizing s with
  | nil => rw [List.foldl_nil, List.append_nil]
  | cons a piece ih =>
    rw [List.length_cons] at h
    have hroom : ¬ s.buf.length = n := by omega
    have hfits : (s.buf ++ [a]).length + piece.length ≤ n := by
      rw [List.length_append, List.length_singleton]
      omega
    rw [List.foldl_cons, push, if_neg hroom, ih _ hfits, List.append_assoc]
    rfl

/-- Before another element comes, it makes no difference whether a full buffer is compressed. -/
theorem push_flush {s : Absorber σ α} (hn : 0 < n) (hs : s.buf.length = n) (a : α) :
    push n compress (s.flush n compress s.buf) a = push n compress s a := by
  have hempty : ¬ (s.flush n compress s.buf).buf.length = n := hn.ne
  rw [push, if_neg hempty, push, if_pos hs]
  rfl

/-- **A piece is taken as its elements are**, one after the other. -/
theorem absorb_eq_foldl_push (hn : 0 < n) (s : Absorber σ α) (hs : s.buf.length ≤ n)
    (piece : List α) : absorb n compress hn s piece = piece.foldl (push n compress) s := by
  induction s, piece using absorb.induct n compress hn with
  | case1 s piece hlt ih =>
    rw [absorb, if_pos hlt, ih (Nat.zero_le n)]
    set room := n - s.buf.length
    have hfull : (s.buf ++ piece.take room).length = n := by
      rw [List.length_append, List.length_take]
      omega
    have hfits : s.buf.length + (piece.take room).length ≤ n := by
      rw [← List.length_append, hfull]
    -- the piece is longer than the room, so another element comes
    obtain ⟨a, rest, hrest⟩ : ∃ a rest, piece.drop room = a :: rest :=
      List.exists_cons_of_ne_nil (List.drop_eq_nil_iff.not.mpr hlt.not_ge)
    have hfilled := @push_flush _ _ n compress { s with buf := s.buf ++ piece.take room } hn
      hfull a
    conv_rhs => rw [← List.take_append_drop room piece]
    rw [List.foldl_append, foldl_push_of_fits s _ hfits, hrest, List.foldl_cons, List.foldl_cons,
      ← hfilled]
    rfl
  | case2 s piece hle =>
    rw [absorb, if_neg hle, foldl_push_of_fits s piece (by omega)]

/-! ## What a message leaves -/

variable (n compress)

/-- How many blocks of a message are known not to be its last one. -/
def fullBlocks (m : List α) : ℕ := (m.length - 1) / n

/-- The state after the first `k` blocks of a message. -/
def chain (s : σ) (m : List α) : ℕ → σ
  | 0 => s
  | k + 1 => compress (chain s m k) ((k + 1) * n) ((m.drop (k * n)).take n)

/-- What a message leaves of a fresh state. -/
def after (s : σ) (m : List α) : Absorber σ α where
  state := chain n compress s m (fullBlocks n m)
  count := fullBlocks n m * n
  buf := m.drop (fullBlocks n m * n)

variable {n compress}

theorem after_nil (s : σ) : after n compress s [] = ⟨s, 0, []⟩ := by
  have h : fullBlocks n ([] : List α) = 0 := Nat.zero_div n
  unfold after
  rw [h, Nat.zero_mul]
  rfl

theorem length_after_le (hn : 0 < n) (s : σ) (m : List α) :
    (after n compress s m).buf.length ≤ n := by
  have hlt := Nat.lt_div_mul_add hn (a := m.length - 1)
  change (m.drop ((m.length - 1) / n * n)).length ≤ n
  rw [List.length_drop]
  omega

/-- The state after some blocks does not depend on what follows them. -/
theorem chain_append (s : σ) (m m' : List α) {k : ℕ} (hk : k * n ≤ m.length) :
    chain n compress s (m ++ m') k = chain n compress s m k := by
  induction k with
  | zero => rfl
  | succ k ih =>
    rw [Nat.succ_mul] at hk
    have hblock : ((m ++ m').drop (k * n)).take n = (m.drop (k * n)).take n := by
      rw [List.drop_append_of_le_length (by omega),
        List.take_append_of_le_length (by rw [List.length_drop]; omega)]
    rw [chain, chain, hblock, ih (by omega)]

/-- The step lemma: one more element. -/
theorem push_after (hn : 0 < n) (s : σ) (m : List α) (a : α) :
    push n compress (after n compress s m) a = after n compress s (m ++ [a]) := by
  have hlen : (m ++ [a]).length - 1 = m.length := by simp
  by_cases hfull : (after n compress s m).buf.length = n
  · -- the buffer holds a whole block: the message ends with it
    have hbuf : m.length - fullBlocks n m * n = n := by
      rw [← List.length_drop]
      exact hfull
    have hm : m.length = (fullBlocks n m + 1) * n := by
      rw [Nat.succ_mul]
      omega
    have hblocks : fullBlocks n (m ++ [a]) = fullBlocks n m + 1 := by
      unfold fullBlocks at hm ⊢
      rw [hlen]
      exact Nat.div_eq_of_eq_mul_left hn hm
    have hdrop : (m ++ [a]).drop ((fullBlocks n m + 1) * n) = [a] := by
      rw [← hm, List.drop_left]
    have hlast : (m.drop (fullBlocks n m * n)).take n = m.drop (fullBlocks n m * n) :=
      List.take_of_length_le (by rw [List.length_drop]; exact hbuf.le)
    unfold push
    rw [if_pos hfull]
    unfold after
    rw [hblocks, hdrop, chain_append s m [a] hm.ge, chain, hlast, Nat.succ_mul]
    rfl
  · have hbuf : ¬ m.length - fullBlocks n m * n = n := by
      rw [← List.length_drop]
      exact hfull
    have hblocks : fullBlocks n (m ++ [a]) = fullBlocks n m := by
      unfold fullBlocks at hbuf ⊢
      rw [hlen]
      have hlow := Nat.div_mul_le_self (m.length - 1) n
      have hhigh := Nat.lt_div_mul_add hn (a := m.length - 1)
      refine Nat.div_eq_of_lt_le (by omega) ?_
      rw [Nat.succ_mul]
      omega
    have hle : fullBlocks n m * n ≤ m.length :=
      (Nat.div_mul_le_self _ _).trans (Nat.sub_le _ _)
    unfold push
    rw [if_neg hfull]
    unfold after
    rw [hblocks, chain_append s m [a] hle, List.drop_append_of_le_length hle]

/-- **However a message is cut**, absorbing a piece is adding it to the message. -/
theorem absorb_after (hn : 0 < n) (s : σ) (m piece : List α) :
    absorb n compress hn (after n compress s m) piece = after n compress s (m ++ piece) := by
  rw [absorb_eq_foldl_push hn _ (length_after_le hn s m)]
  induction piece generalizing m with
  | nil => rw [List.foldl_nil, List.append_nil]
  | cons a piece ih => rw [List.foldl_cons, push_after hn, ih, List.append_assoc]; rfl

theorem foldl_absorb_after (hn : 0 < n) (s : σ) (m : List α) (pieces : List (List α)) :
    pieces.foldl (absorb n compress hn) (after n compress s m) =
      after n compress s (m ++ pieces.flatten) := by
  induction pieces generalizing m with
  | nil => rw [List.foldl_nil, List.flatten_nil, List.append_nil]
  | cons piece pieces ih =>
    rw [List.foldl_cons, absorb_after hn, ih, List.flatten_cons, List.append_assoc]

/-- The states of two machines that compress alike up to a count are related. -/
theorem chain_congr {compress' : σ → ℕ → List α → σ} (s : σ) (m : List α) {k : ℕ}
    (h : ∀ t c block, c ≤ k * n → compress t c block = compress' t c block) :
    chain n compress s m k = chain n compress' s m k := by
  induction k with
  | zero => rfl
  | succ k ih =>
    have hle : k * n ≤ (k + 1) * n := Nat.mul_le_mul_right n (Nat.le_succ k)
    rw [chain, chain, h _ _ _ le_rfl, ih fun t c block hc => h t c block (hc.trans hle)]

/-! ## Blocks of a flattened list -/

theorem length_flatMap {β : Type} {f : α → List β} {k : ℕ} (hf : ∀ a, (f a).length = k)
    (l : List α) : (l.flatMap f).length = k * l.length := by
  induction l with
  | nil => rfl
  | cons a l ih =>
    rw [List.flatMap_cons, List.length_append, hf, ih, List.length_cons, Nat.mul_succ, Nat.add_comm]

/-- A block of what is flattened out of blocks of one length. -/
theorem take_drop_flatMap {β : Type} {f : α → List β} {k : ℕ} (hf : ∀ a, (f a).length = k)
    (l : List α) (i : ℕ) (hi : i < l.length) : ((l.flatMap f).drop (k * i)).take k = f l[i] := by
  induction l generalizing i with
  | nil => exact absurd hi (Nat.not_lt_zero i)
  | cons a l ih =>
    rw [List.flatMap_cons]
    match i, hi with
    | 0, _ => rw [Nat.mul_zero, List.drop_zero, List.take_left' (hf a), List.getElem_cons_zero]
    | i + 1, hi =>
      have hdrop : k * (i + 1) = (f a).length + k * i := by
        rw [hf, Nat.mul_succ, Nat.add_comm]
      rw [hdrop, List.drop_append, List.drop_eq_nil_of_le (Nat.le_add_right _ _), List.nil_append,
        Nat.add_sub_cancel_left, List.getElem_cons_succ]
      exact ih i (Nat.lt_of_succ_lt_succ hi)

end AionPool.Lib.Blocks
