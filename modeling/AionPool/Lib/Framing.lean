import Mathlib.Data.List.Basic

/-!
# Cutting a stream at a delimiter

A stream that arrives in chunks is cut at the delimiter `d`: the pieces a delimiter ends are its
frames, and what comes after the last delimiter waits for the next chunk.

* `frames`, `rest`: the two parts of `List.splitOn`.
* **`frames_append`**, **`rest_append`**: a stream is cut as its first part is cut, followed by what
  waited together with its second part.
* `lines_append`: the same of the frames that are not empty.
-/

namespace AionPool.Lib.Framing

variable {α : Type*} [DecidableEq α] (d : α)

/-- The pieces of the stream that a delimiter ends. -/
def frames (s : List α) : List (List α) := (s.splitOn d).dropLast

/-- What comes after the last delimiter. -/
def rest (s : List α) : List α := (s.splitOn d).getLastD []

/-- The frames that are not empty. -/
def lines (s : List α) : List (List α) := (frames d s).filter fun l => !l.isEmpty

variable {d}

theorem frames_of_notMem {s : List α} (h : d ∉ s) : frames d s = [] := by
  unfold frames
  rw [List.splitOn_eq_singleton h]
  rfl

theorem rest_of_notMem {s : List α} (h : d ∉ s) : rest d s = s := by
  unfold rest
  rw [List.splitOn_eq_singleton h]
  rfl

/-- The first delimiter ends the first frame. -/
theorem frames_append_cons {u : List α} (h : d ∉ u) (t : List α) :
    frames d (u ++ d :: t) = u :: frames d t := by
  unfold frames
  rw [List.splitOn_append_cons_self_of_not_mem h,
    List.dropLast_cons_of_ne_nil (List.splitOn_ne_nil d t)]

theorem rest_append_cons {u : List α} (h : d ∉ u) (t : List α) :
    rest d (u ++ d :: t) = rest d t := by
  unfold rest
  rw [List.splitOn_append_cons_self_of_not_mem h, List.getLastD_eq_getLast?,
    List.getLastD_eq_getLast?, List.getLast?_cons_of_ne_nil (List.splitOn_ne_nil d t)]

/-- Frame by frame: what holds of a stream without a delimiter, and of `u ++ d :: t` when it holds
of `t`, holds of every stream. -/
theorem frame_induction {P : List α → Prop} (pending : ∀ s, d ∉ s → P s)
    (frame : ∀ u t, d ∉ u → P t → P (u ++ d :: t)) (s : List α) : P s := by
  induction hn : s.length using Nat.strongRecOn generalizing s with
  | _ n ih =>
    by_cases hd : d ∈ s
    · obtain ⟨u, t, rfl, hu⟩ := List.eq_append_cons_of_mem hd
      have hlt : t.length < n := by
        simp only [List.length_append, List.length_cons] at hn
        omega
      exact frame u t hu (ih t.length hlt t rfl)
    · exact pending s hd

/-- **The frames of a stream** are the frames of its first part, and those of its second part
behind what waited. -/
theorem frames_append (s t : List α) :
    frames d (s ++ t) = frames d s ++ frames d (rest d s ++ t) := by
  induction s using frame_induction (d := d) with
  | pending s hs => rw [frames_of_notMem hs, rest_of_notMem hs, List.nil_append]
  | frame u s hu ih =>
    rw [List.append_assoc, List.cons_append, frames_append_cons hu, frames_append_cons hu,
      rest_append_cons hu, ih, List.cons_append]

/-- **What waits after a stream** is what waits after its second part behind what waited. -/
theorem rest_append (s t : List α) : rest d (s ++ t) = rest d (rest d s ++ t) := by
  induction s using frame_induction (d := d) with
  | pending s hs => rw [rest_of_notMem hs]
  | frame u s hu ih =>
    rw [List.append_assoc, List.cons_append, rest_append_cons hu, rest_append_cons hu, ih]

theorem lines_append (s t : List α) :
    lines d (s ++ t) = lines d s ++ lines d (rest d s ++ t) := by
  unfold lines
  rw [frames_append, List.filter_append]

theorem lines_of_notMem {s : List α} (h : d ∉ s) : lines d s = [] := by
  unfold lines
  rw [frames_of_notMem h]
  rfl

theorem lines_append_cons {u : List α} (h : d ∉ u) (t : List α) :
    lines d (u ++ d :: t) = (if u.isEmpty then [] else [u]) ++ lines d t := by
  unfold lines
  rw [frames_append_cons h, List.filter_cons]
  cases u with
  | nil => rfl
  | cons x u => rfl

end AionPool.Lib.Framing
