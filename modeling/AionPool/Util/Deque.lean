import AionPool.Util.CircularBuffer
import Mathlib.Data.List.GetD

/-!
# The circular buffer as a deque

The operations of `CircularBuffer<T>` at both ends, and what it holds after any of them.

* `Keeps b xs`: the buffer keeps `xs`, in the slots from `start` on; the other slots are empty.
* **`keeps_pushBack`**: pushes keep the last elements, as many as there is room for.
* **`keeps_applyAll`**: in every run the buffer keeps what a list of bounded length would.
* **`observed_of_run`**: what the accessors return. `Back` looks in the wrong slot when the last
  element is at the end of the array and the buffer is not full; an empty buffer enumerates all its
  slots, and `ToArray` throws.

Models `CircularBuffer.cs:113-269` and `:288-312`.
-/

namespace AionPool.Util.CircularBuffer

variable {T : Type} [Inhabited T]

/-! ## Operations -/

/-- `Decrement`. -/
def decrement (b : CircularBuffer T) (index : ℕ) : ℕ :=
  if index = 0 then b.capacity - 1 else index - 1

def isEmpty (b : CircularBuffer T) : Bool := b.size = 0

def pushFront (b : CircularBuffer T) (item : T) : CircularBuffer T :=
  let start := b.decrement b.start
  if b.isFull then { b with buffer := b.buffer.set start item, start := start, stop := start }
  else { b with buffer := b.buffer.set start item, start := start, size := b.size + 1 }

def popBack (b : CircularBuffer T) : Except Exn (CircularBuffer T) :=
  if b.isEmpty then throw .invalidOperation
  else
    let stop := b.decrement b.stop
    return { b with buffer := b.buffer.set stop default, stop := stop, size := b.size - 1 }

def popFront (b : CircularBuffer T) : Except Exn (CircularBuffer T) :=
  if b.isEmpty then throw .invalidOperation
  else return { b with
    buffer := b.buffer.set b.start default
    start := b.increment b.start
    size := b.size - 1 }

/-- `buffer[index]`. -/
def cell (b : CircularBuffer T) (index : ℤ) : Except Exn T :=
  if index < 0 then throw .indexOutOfRange
  else match b.buffer[index.toNat]? with
    | some x => return x
    | none => throw .indexOutOfRange

def front (b : CircularBuffer T) : Except Exn T :=
  if b.isEmpty then throw .invalidOperation else b.cell b.start

def back (b : CircularBuffer T) : Except Exn T :=
  if b.isEmpty then throw .invalidOperation
  else b.cell ((if b.stop ≠ 0 then b.stop else b.size : ℕ) - 1)

/-- `InternalIndex`. -/
def internalIndex (b : CircularBuffer T) (index : ℤ) : ℤ :=
  b.start + if index < b.capacity - b.start then index else index - b.capacity

/-- The indexer; an index below zero is not checked. -/
def get (b : CircularBuffer T) (index : ℤ) : Except Exn T :=
  if b.isEmpty then throw .indexOutOfRange
  else if b.size ≤ index then throw .indexOutOfRange
  else b.cell (b.internalIndex index)

def set (b : CircularBuffer T) (index : ℤ) (value : T) : Except Exn (CircularBuffer T) :=
  if b.isEmpty then throw .indexOutOfRange
  else if b.size ≤ index then throw .indexOutOfRange
  else
    let actualIndex := b.internalIndex index
    if 0 ≤ actualIndex ∧ actualIndex < b.capacity then
      return { b with buffer := b.buffer.set actualIndex.toNat value }
    else throw .indexOutOfRange

/-- `ToArray`: the segments are copied to an array of `Size` elements. -/
def toArray (b : CircularBuffer T) : Except Exn (List T) :=
  let segments := b.arrayOne ++ b.arrayTwo
  if b.size < segments.length then throw .argument
  else return segments ++ List.replicate (b.size - segments.length) default

/-! ## Slots -/

/-- The slot of the element `i` in a ring of `n` slots that begins at `start`. -/
def slot (n start i : ℕ) : ℕ := if start + i < n then start + i else start + i - n

theorem slot_inj {n start i j : ℕ} (hi : i < n) (hj : j < n) :
    slot n start i = slot n start j ↔ i = j := by
  unfold slot
  split_ifs <;> omega

theorem slot_lt {n start i : ℕ} (hs : start < n) (hi : i < n) : slot n start i < n := by
  unfold slot
  split_ifs <;> omega

/-- The slots of a ring that begins at `start` hold what `f` says. -/
def Cells (cells : List T) (start : ℕ) (f : ℕ → T) : Prop :=
  ∀ i < cells.length, cells[slot cells.length start i]? = some (f i)

variable {cells : List T} {start : ℕ} {f g : ℕ → T}

omit [Inhabited T] in
theorem Cells.congr (h : Cells cells start f) (hfg : ∀ i < cells.length, f i = g i) :
    Cells cells start g := fun i hi => (h i hi).trans (congrArg some (hfg i hi))

omit [Inhabited T] in
theorem Cells.set (h : Cells cells start f) (hs : start < cells.length) {k : ℕ}
    (hk : k < cells.length) (x : T) :
    Cells (cells.set (slot cells.length start k) x) start (Function.update f k x) := by
  intro i hi
  rw [List.length_set] at hi ⊢
  by_cases hik : i = k
  · subst hik
    rw [List.getElem?_set_self (slot_lt hs hi), Function.update_self]
  · have hne : slot cells.length start k ≠ slot cells.length start i := fun heq =>
      hik ((slot_inj hk hi).mp heq).symm
    rw [List.getElem?_set_ne hne, Function.update_of_ne hik]
    exact h i hi

theorem slot_next {n start i : ℕ} (hs : start < n) (hi : i < n) :
    slot n (if start + 1 = n then 0 else start + 1) i =
      if i + 1 < n then slot n start (i + 1) else slot n start 0 := by
  unfold slot
  split_ifs <;> omega

theorem slot_prev {n start i : ℕ} (hs : start < n) (hi : i < n) :
    slot n (if start = 0 then n - 1 else start - 1) i =
      if i = 0 then slot n start (n - 1) else slot n start (i - 1) := by
  unfold slot
  split_ifs <;> omega

omit [Inhabited T] in
/-- The ring begins one slot further on. -/
theorem Cells.next (h : Cells cells start f) (hs : start < cells.length) :
    Cells cells (if start + 1 = cells.length then 0 else start + 1)
      fun i => if i + 1 < cells.length then f (i + 1) else f 0 := by
  intro i hi
  rw [slot_next hs hi]
  dsimp only
  split
  · exact h _ ‹_›
  · exact h 0 (by omega)

omit [Inhabited T] in
/-- The ring begins one slot earlier. -/
theorem Cells.prev (h : Cells cells start f) (hs : start < cells.length) :
    Cells cells (if start = 0 then cells.length - 1 else start - 1)
      fun i => if i = 0 then f (cells.length - 1) else f (i - 1) := by
  intro i hi
  rw [slot_prev hs hi]
  dsimp only
  split
  · exact h _ (by omega)
  · exact h _ (by omega)

/-! ## What a buffer keeps -/

/-- Behind the elements the slots are empty. -/
structure Keeps (b : CircularBuffer T) (xs : List T) : Prop where
  start_lt : b.start < b.buffer.length
  size_eq : b.size = xs.length
  size_le : xs.length ≤ b.buffer.length
  stop_eq : b.stop = slot b.buffer.length b.start xs.length
  cells : Cells b.buffer b.start fun i => xs.getD i default

variable {b : CircularBuffer T} {xs : List T}

theorem Keeps.isFull_iff (h : b.Keeps xs) : b.isFull = true ↔ xs.length = b.buffer.length := by
  unfold isFull capacity
  rw [decide_eq_true_iff, h.size_eq]

theorem Keeps.isEmpty_iff (h : b.Keeps xs) : b.isEmpty = true ↔ xs = [] := by
  unfold isEmpty
  rw [decide_eq_true_iff, h.size_eq, List.length_eq_zero_iff]

/-- A new buffer keeps the items it was given. -/
theorem keeps_create {capacity : ℕ} {items : List T} (h : create capacity items = .ok b) :
    b.Keeps items ∧ b.buffer.length = capacity := by
  unfold create at h
  split at h
  · exact nomatch h
  rename_i hpos
  split at h
  · exact nomatch h
  rename_i hroom
  obtain rfl := Except.ok.inj h
  have hlen : (items ++ List.replicate (capacity - items.length) (default : T)).length =
      capacity := by
    rw [List.length_append, List.length_replicate]
    omega
  refine ⟨⟨?_, rfl, ?_, ?_, ?_⟩, hlen⟩
  · dsimp only
    omega
  · dsimp only
    omega
  · dsimp only
    rw [hlen]
    unfold slot
    split_ifs <;> omega
  · intro i hi
    dsimp only at hi ⊢
    rw [hlen] at hi ⊢
    rw [slot, if_pos (by omega), Nat.zero_add]
    by_cases hitem : i < items.length
    · rw [List.getElem?_append_left hitem, List.getElem?_eq_getElem hitem,
        List.getD_eq_getElem _ _ hitem]
    · have hi' : i - items.length < capacity - items.length := by omega
      rw [List.getElem?_append_right (by omega), List.getElem?_replicate_of_lt hi',
        List.getD_eq_default _ _ (by omega)]

theorem slot_length (n start : ℕ) : slot n start n = start := by
  unfold slot
  split_ifs <;> omega

theorem slot_zero {n start : ℕ} (hs : start < n) : slot n start 0 = start := if_pos hs

/-- Pushed back to a buffer with room, an element is the last. -/
theorem keeps_pushBack_room (h : b.Keeps xs) (hroom : xs.length < b.buffer.length) (x : T) :
    (b.pushBack x).Keeps (xs ++ [x]) := by
  have hset := h.cells.set h.start_lt hroom x
  rw [← h.stop_eq] at hset
  have hfull : ¬ b.isFull = true := h.isFull_iff.not.mpr hroom.ne
  unfold pushBack increment capacity
  rw [if_neg hfull]
  refine ⟨?_, ?_, ?_, ?_, hset.congr fun i hi => ?_⟩
  · dsimp only
    rw [List.length_set]
    exact h.start_lt
  · rw [List.length_append, ← h.size_eq]
    rfl
  · dsimp only
    rw [List.length_set, List.length_append]
    exact hroom
  · have hstart := h.start_lt
    dsimp only
    rw [List.length_set, List.length_append, h.stop_eq]
    unfold slot
    rw [List.length_singleton]
    split_ifs <;> omega
  · by_cases hlast : i = xs.length
    · subst hlast
      rw [Function.update_self, List.getD_append_right _ _ _ _ le_rfl, Nat.sub_self]
      rfl
    · rw [Function.update_of_ne hlast]
      by_cases hlt : i < xs.length
      · rw [List.getD_append _ _ _ _ hlt]
      · rw [List.getD_eq_default _ _ (by omega), List.getD_eq_default _ _ (by
          rw [List.length_append, List.length_singleton]
          omega)]

omit [Inhabited T] in
theorem getD_tail (xs : List T) (i : ℕ) (d : T) : xs.tail.getD i d = xs.getD (i + 1) d := by
  cases xs <;> rfl

omit [Inhabited T] in
theorem getD_take {xs : List T} {n i : ℕ} (hi : i < n) (d : T) :
    (xs.take n).getD i d = xs.getD i d := by
  rw [List.getD_eq_getElem?_getD, List.getD_eq_getElem?_getD, List.getElem?_take_of_lt hi]

/-- Pushed back to a full buffer, it takes the slot of the first. -/
theorem keeps_pushBack_full (h : b.Keeps xs) (hfull : xs.length = b.buffer.length) (x : T) :
    (b.pushBack x).Keeps (xs.tail ++ [x]) := by
  have hstart := h.start_lt
  have hpos : 0 < b.buffer.length := Nat.zero_lt_of_lt hstart
  have hstop : b.stop = b.start := by rw [h.stop_eq, hfull, slot_length]
  have hlen : (xs.tail ++ [x]).length = b.buffer.length := by
    rw [List.length_append, List.length_tail, List.length_singleton]
    omega
  have hset := h.cells.set hstart hpos x
  rw [slot_zero hstart] at hset
  have hnext := hset.next (by rwa [List.length_set])
  rw [List.length_set] at hnext
  unfold pushBack increment capacity
  rw [if_pos (h.isFull_iff.mpr hfull), hstop]
  refine ⟨?_, ?_, ?_, ?_, hnext.congr fun i hi => ?_⟩
  · dsimp only
    rw [List.length_set]
    split_ifs <;> omega
  · rw [hlen, ← hfull, ← h.size_eq]
  · dsimp only
    rw [List.length_set]
    exact hlen.le
  · dsimp only
    rw [List.length_set, hlen, slot_length]
  · rw [List.length_set] at hi
    by_cases hlt : i + 1 < b.buffer.length
    · rw [if_pos hlt, Function.update_of_ne (Nat.succ_ne_zero i),
        List.getD_append _ _ _ _ (by rw [List.length_tail]; omega), getD_tail]
    · have hlast : i = xs.tail.length := by
        rw [List.length_tail]
        omega
      rw [if_neg hlt, Function.update_self, hlast, List.getD_append_right _ _ _ _ le_rfl,
        Nat.sub_self]
      rfl

/-- **Pushed back, an element is the last**; a full buffer loses the first one. -/
theorem keeps_pushBack (h : b.Keeps xs) (x : T) :
    (b.pushBack x).Keeps ((xs ++ [x]).rtake b.capacity) := by
  have hle := h.size_le
  unfold capacity
  by_cases hfull : xs.length = b.buffer.length
  · have hlast : (xs ++ [x]).rtake b.buffer.length = xs.tail ++ [x] := by
      have hpos := h.start_lt
      rw [List.rtake, List.length_append, List.length_singleton, hfull, Nat.add_sub_cancel_left,
        List.drop_append_of_le_length (by omega), List.drop_one]
    rw [hlast]
    exact keeps_pushBack_full h hfull x
  · have hall : (xs ++ [x]).rtake b.buffer.length = xs ++ [x] := by
      rw [List.rtake, List.length_append, List.length_singleton,
        Nat.sub_eq_zero_of_le (by omega), List.drop_zero]
    rw [hall]
    exact keeps_pushBack_room h (by omega) x

theorem keeps_pushAll (h : b.Keeps (xs.rtake b.capacity)) (items : List T) :
    (b.pushAll items).Keeps ((xs ++ items).rtake b.capacity) := by
  unfold pushAll
  induction items generalizing b xs with
  | nil => rwa [List.append_nil]
  | cons x items ih =>
    have hpush := keeps_pushBack h x
    rw [rtake_rtake_concat, ← capacity_pushBack x] at hpush
    have hrest := ih hpush
    rwa [capacity_pushBack, List.append_assoc] at hrest

/-- **After any number of pushes** a new buffer keeps the last of them. -/
theorem keeps_of_pushes {capacity : ℕ} (h : 0 < capacity) (items : List T) :
    ∃ b : CircularBuffer T, create capacity [] = .ok b ∧
      (b.pushAll items).Keeps (items.rtake capacity) := by
  have hcreate : create capacity ([] : List T) = .ok
      ⟨[] ++ List.replicate (capacity - 0) default, 0, if 0 = capacity then 0 else 0, 0⟩ := by
    unfold create
    rw [if_neg (by omega), if_neg (by simp)]
    rfl
  obtain ⟨hkept, hlen⟩ := keeps_create hcreate
  refine ⟨_, hcreate, ?_⟩
  have hrest := @keeps_pushAll T _ _ [] (by rwa [List.rtake_nil]) items
  unfold CircularBuffer.capacity at hrest
  rwa [hlen] at hrest

/-- Pushed to the front, an element is the first; a full buffer loses the last one. -/
theorem keeps_pushFront (h : b.Keeps xs) (x : T) :
    (b.pushFront x).Keeps ((x :: xs).take b.buffer.length) := by
  have hstart := h.start_lt
  have hle := h.size_le
  have hprev : (if b.start = 0 then b.buffer.length - 1 else b.start - 1) < b.buffer.length := by
    split_ifs <;> omega
  have hset := (h.cells.prev hstart).set hprev (Nat.zero_lt_of_lt hstart) x
  rw [slot_zero hprev] at hset
  have hcells := @Cells.congr _ _ _ _
    (fun i => ((x :: xs).take b.buffer.length).getD i default) hset (by
    intro i hi
    rw [List.length_set] at hi
    rw [getD_take hi]
    cases i with
    | zero => rw [Function.update_self, List.getD_cons_zero]
    | succ i => rw [Function.update_of_ne (Nat.succ_ne_zero i), List.getD_cons_succ,
        if_neg (Nat.succ_ne_zero i), Nat.succ_sub_one])
  unfold pushFront decrement capacity
  by_cases hfull : xs.length = b.buffer.length
  · rw [if_pos (h.isFull_iff.mpr hfull)]
    have hlen : ((x :: xs).take b.buffer.length).length = b.buffer.length := by
      rw [List.length_take, List.length_cons]
      omega
    refine ⟨by rwa [List.length_set], ?_, ?_, ?_, hcells⟩
    · rw [hlen, ← hfull, ← h.size_eq]
    · rw [List.length_set, hlen]
    · rw [List.length_set, hlen, slot_length]
  · rw [if_neg (h.isFull_iff.not.mpr hfull)]
    have hlen : ((x :: xs).take b.buffer.length).length = xs.length + 1 := by
      rw [List.length_take, List.length_cons]
      omega
    refine ⟨by rwa [List.length_set], ?_, ?_, ?_, hcells⟩
    · rw [hlen, ← h.size_eq]
    · rw [List.length_set, hlen]
      omega
    · dsimp only
      rw [List.length_set, hlen, h.stop_eq]
      unfold slot
      split_ifs <;> omega

/-- Popped at the back. -/
theorem keeps_popBack (h : b.Keeps xs) (hne : xs ≠ []) :
    ∃ b', b.popBack = .ok b' ∧ b'.Keeps xs.dropLast := by
  have hstart := h.start_lt
  have hle := h.size_le
  have hpos := List.length_pos_iff.mpr hne
  have hstop : (if b.stop = 0 then b.buffer.length - 1 else b.stop - 1) =
      slot b.buffer.length b.start (xs.length - 1) := by
    rw [h.stop_eq]
    unfold slot
    split_ifs <;> omega
  have hset := @Cells.set _ _ _ _ h.cells hstart (xs.length - 1) (by omega) default
  refine ⟨_, by
    unfold popBack decrement capacity
    rw [if_neg (h.isEmpty_iff.not.mpr hne), hstop]
    rfl, ?_⟩
  refine ⟨?_, ?_, ?_, ?_, hset.congr fun i hi => ?_⟩
  · rwa [List.length_set]
  · rw [List.length_dropLast, ← h.size_eq]
  · rw [List.length_set, List.length_dropLast]
    omega
  · rw [List.length_set, List.length_dropLast]
  · by_cases hlast : i = xs.length - 1
    · subst hlast
      rw [Function.update_self, List.getD_eq_default _ _ (by rw [List.length_dropLast])]
    · rw [Function.update_of_ne hlast]
      rw [List.dropLast_eq_take]
      by_cases hlt : i < xs.length - 1
      · rw [getD_take hlt]
      · rw [List.getD_eq_default _ _ (by omega), List.getD_eq_default _ _ (by
          rw [List.length_take]
          omega)]

/-- Popped at the front. -/
theorem keeps_popFront (h : b.Keeps xs) (hne : xs ≠ []) :
    ∃ b', b.popFront = .ok b' ∧ b'.Keeps xs.tail := by
  have hstart := h.start_lt
  have hle := h.size_le
  have hpos := List.length_pos_iff.mpr hne
  have hset := h.cells.set hstart (Nat.zero_lt_of_lt hstart) default
  rw [slot_zero hstart] at hset
  have hnext := hset.next (by rwa [List.length_set])
  rw [List.length_set] at hnext
  refine ⟨_, by
    unfold popFront increment capacity
    rw [if_neg (h.isEmpty_iff.not.mpr hne)]
    rfl, ?_⟩
  refine ⟨?_, ?_, ?_, ?_, hnext.congr fun i hi => ?_⟩
  · dsimp only
    rw [List.length_set]
    split_ifs <;> omega
  · rw [List.length_tail, ← h.size_eq]
  · rw [List.length_set, List.length_tail]
    omega
  · dsimp only
    rw [List.length_set, List.length_tail, h.stop_eq]
    unfold slot
    split_ifs <;> omega
  · rw [List.length_set] at hi
    rw [getD_tail]
    by_cases hlt : i + 1 < b.buffer.length
    · rw [if_pos hlt, Function.update_of_ne (Nat.succ_ne_zero i)]
    · rw [if_neg hlt, Function.update_self, List.getD_eq_default _ _ (by omega)]

/-! ## What is observed -/

theorem Keeps.cell_slot (h : b.Keeps xs) {i : ℕ} (hi : i < b.buffer.length) :
    b.cell (slot b.buffer.length b.start i : ℕ) = .ok (xs.getD i default) := by
  unfold cell
  rw [if_neg (by omega), Int.toNat_natCast, h.cells i hi]
  rfl

theorem Keeps.get_eq (h : b.Keeps xs) (i : ℕ) :
    b.get i = if i < xs.length then .ok (xs.getD i default) else .error .indexOutOfRange := by
  have hstart := h.start_lt
  have hle := h.size_le
  unfold get
  by_cases hlt : i < xs.length
  · have hne : xs ≠ [] := List.ne_nil_of_length_pos (Nat.zero_lt_of_lt hlt)
    have hslot : b.internalIndex i = slot b.buffer.length b.start i := by
      unfold internalIndex slot capacity
      split_ifs <;> omega
    rw [if_neg (h.isEmpty_iff.not.mpr hne), if_neg (by rw [h.size_eq]; omega), hslot,
      h.cell_slot (by omega), if_pos hlt]
  · rw [if_neg hlt]
    by_cases hne : xs = []
    · rw [if_pos (h.isEmpty_iff.mpr hne)]
      rfl
    · rw [if_neg (h.isEmpty_iff.not.mpr hne), if_pos (by rw [h.size_eq]; omega)]
      rfl

theorem Keeps.front_eq (h : b.Keeps xs) :
    b.front = if xs = [] then .error .invalidOperation else .ok (xs.getD 0 default) := by
  unfold front
  by_cases hne : xs = []
  · rw [if_pos (h.isEmpty_iff.mpr hne), if_pos hne]
    rfl
  · have hcell := h.cell_slot (Nat.zero_lt_of_lt h.start_lt)
    rw [slot_zero h.start_lt] at hcell
    rw [if_neg (h.isEmpty_iff.not.mpr hne), if_neg hne, hcell]

/-- When the next element is to be written to the first slot, `Back` takes the size for the
capacity, and looks as many slots further on as are empty. -/
theorem Keeps.back_eq (h : b.Keeps xs) :
    b.back = if xs = [] then .error .invalidOperation
      else if b.stop = 0 then .ok (xs.getD ((2 * xs.length - 1) % b.buffer.length) default)
      else .ok (xs.getD (xs.length - 1) default) := by
  have hstart := h.start_lt
  have hle := h.size_le
  have hstop := h.stop_eq
  unfold back
  by_cases hne : xs = []
  · rw [if_pos (h.isEmpty_iff.mpr hne), if_pos hne]
    rfl
  have hpos := List.length_pos_iff.mpr hne
  rw [if_neg (h.isEmpty_iff.not.mpr hne), if_neg hne, h.size_eq]
  by_cases hzero : b.stop = 0
  · have hmod : (2 * xs.length - 1) % b.buffer.length =
        if 2 * xs.length - 1 < b.buffer.length then 2 * xs.length - 1
        else 2 * xs.length - 1 - b.buffer.length := by
      split_ifs with hlt
      · exact Nat.mod_eq_of_lt hlt
      · rw [Nat.mod_eq_sub_mod (Nat.not_lt.mp hlt), Nat.mod_eq_of_lt (by omega)]
    have hslot : slot b.buffer.length b.start ((2 * xs.length - 1) % b.buffer.length) =
        xs.length - 1 := by
      rw [hzero] at hstop
      rw [hmod]
      unfold slot at hstop ⊢
      split_ifs at hstop ⊢ <;> omega
    have hcell := h.cell_slot (Nat.mod_lt (2 * xs.length - 1) (by omega : 0 < b.buffer.length))
    rw [hslot] at hcell
    rw [if_neg (not_not.mpr hzero), if_pos hzero, ← hcell]
    congr 1
    omega
  · have hslot : slot b.buffer.length b.start (xs.length - 1) = b.stop - 1 := by
      unfold slot at hstop ⊢
      split_ifs at hstop ⊢ <;> omega
    have hcell := h.cell_slot (by omega : xs.length - 1 < b.buffer.length)
    rw [hslot] at hcell
    rw [if_pos hzero, if_neg hzero, ← hcell]
    congr 1
    omega

/-- The elements stand in one segment. -/
theorem Keeps.enumerate_of_lt (h : b.Keeps xs) (hlt : b.start < b.stop) :
    xs ≠ [] ∧ b.enumerate = (List.range xs.length).map fun i => xs.getD i default := by
  have hle := h.size_le
  have hstop := h.stop_eq
  obtain ⟨hcount, hroom⟩ : b.stop = b.start + xs.length ∧
      b.start + xs.length < b.buffer.length := by
    unfold slot at hstop
    split_ifs at hstop <;> omega
  refine ⟨List.ne_nil_of_length_pos (by omega), ?_⟩
  unfold enumerate arrayOne arrayTwo
  rw [if_pos hlt, if_pos hlt, List.append_nil]
  refine List.ext_getElem? fun i => ?_
  rw [List.getElem?_map]
  by_cases hi : i < xs.length
  · have hcell := h.cells i (by omega)
    rw [slot, if_pos (by omega)] at hcell
    rw [List.getElem?_take_of_lt (by omega), List.getElem?_drop, hcell, List.getElem?_range hi]
    rfl
  · rw [List.getElem?_eq_none (by rw [List.length_take]; omega),
      List.getElem?_eq_none (by rw [List.length_range]; omega)]
    rfl

/-- They stand in two segments, which are the whole array when there are none. -/
theorem Keeps.enumerate_of_le (h : b.Keeps xs) (hlow : b.stop ≤ b.start) :
    b.enumerate = (List.range (if xs = [] then b.buffer.length else xs.length)).map
      fun i => xs.getD i default := by
  have hstart := h.start_lt
  have hle := h.size_le
  have hstop := h.stop_eq
  have hcount : b.buffer.length - b.start + b.stop =
      if xs = [] then b.buffer.length else xs.length := by
    split_ifs with hne
    · subst hne
      rw [List.length_nil, slot_zero hstart] at hstop
      omega
    · have hpos := List.length_pos_iff.mpr hne
      unfold slot at hstop
      split_ifs at hstop <;> omega
  unfold enumerate arrayOne arrayTwo
  rw [if_neg (Nat.not_lt.mpr hlow), if_neg (Nat.not_lt.mpr hlow), ← hcount]
  refine List.ext_getElem? fun i => ?_
  rw [List.getElem?_map]
  by_cases hi : i < b.buffer.length - b.start + b.stop
  · have hcell := h.cells i (by omega)
    rw [List.getElem?_range hi, Option.map_some]
    by_cases hfirst : i < b.buffer.length - b.start
    · rw [slot, if_pos (by omega)] at hcell
      rw [List.getElem?_append_left (by rw [List.length_drop]; exact hfirst),
        List.getElem?_drop, hcell]
    · rw [slot, if_neg (by omega)] at hcell
      have hsecond : i - (b.buffer.length - b.start) = b.start + i - b.buffer.length := by omega
      rw [List.getElem?_append_right (by rw [List.length_drop]; omega), List.length_drop,
        List.getElem?_take_of_lt (by omega), hsecond, hcell]
  · rw [List.getElem?_eq_none (by
        rw [List.length_append, List.length_drop, List.length_take]
        omega), List.getElem?_eq_none (by rw [List.length_range]; omega)]
    rfl

/-- The segments hold the elements; those of an empty buffer are all its slots. -/
theorem Keeps.enumerate_eq (h : b.Keeps xs) :
    b.enumerate = if xs = [] then List.replicate b.buffer.length default else xs := by
  have hwalk : b.enumerate = (List.range (if xs = [] then b.buffer.length else xs.length)).map
      fun i => xs.getD i default := by
    rcases Nat.lt_or_ge b.start b.stop with hlt | hlow
    · obtain ⟨hne, hwalk⟩ := h.enumerate_of_lt hlt
      rw [hwalk, if_neg hne]
    · exact h.enumerate_of_le hlow
  rw [hwalk]
  split_ifs with hne
  · subst hne
    rw [List.eq_replicate_iff]
    refine ⟨by rw [List.length_map, List.length_range], fun x hx => ?_⟩
    obtain ⟨i, -, rfl⟩ := List.mem_map.mp hx
    rfl
  · refine List.ext_getElem (by rw [List.length_map, List.length_range]) fun i _ hi => ?_
    rw [List.getElem_map, List.getElem_range, List.getD_eq_getElem _ _ hi]

theorem Keeps.toArray_eq (h : b.Keeps xs) :
    b.toArray = if xs = [] then .error .argument else .ok xs := by
  have hwalk := h.enumerate_eq
  have hstart := h.start_lt
  have hle := h.size_le
  unfold enumerate at hwalk
  unfold toArray
  dsimp only
  rw [hwalk]
  split_ifs with hne hless hless
  · rfl
  · rw [List.length_replicate, h.size_eq, hne, List.length_nil] at hless
    omega
  · rw [h.size_eq] at hless
    exact absurd hless (lt_irrefl _)
  · rw [h.size_eq, Nat.sub_self, List.replicate_zero, List.append_nil]
    rfl

theorem keeps_set (h : b.Keeps xs) {i : ℕ} (hi : i < xs.length) (x : T) :
    ∃ b', b.set i x = .ok b' ∧ b'.Keeps (xs.set i x) := by
  have hstart := h.start_lt
  have hle := h.size_le
  have hne : xs ≠ [] := List.ne_nil_of_length_pos (Nat.zero_lt_of_lt hi)
  have hslot : b.internalIndex i = slot b.buffer.length b.start i := by
    unfold internalIndex slot capacity
    split_ifs <;> omega
  have hlt : slot b.buffer.length b.start i < b.buffer.length := slot_lt hstart (by omega)
  have hset := h.cells.set hstart (by omega : i < b.buffer.length) x
  refine ⟨_, by
    unfold set capacity
    rw [if_neg (h.isEmpty_iff.not.mpr hne), if_neg (by rw [h.size_eq]; omega), hslot]
    dsimp only
    rw [if_pos (by omega), Int.toNat_natCast]
    rfl, ?_⟩
  refine ⟨?_, ?_, ?_, ?_, hset.congr fun j hj => ?_⟩
  · rwa [List.length_set]
  · rw [List.length_set, ← h.size_eq]
  · rwa [List.length_set, List.length_set]
  · rw [List.length_set, List.length_set]
    exact h.stop_eq
  · by_cases hji : j = i
    · subst hji
      rw [Function.update_self, List.getD_eq_getElem _ _ (by rwa [List.length_set]),
        List.getElem_set_self]
    · rw [Function.update_of_ne hji, List.getD_eq_getElem?_getD, List.getD_eq_getElem?_getD,
        List.getElem?_set_ne (Ne.symm hji)]

/-! ## Runs -/

/-- What changes a buffer. -/
inductive Op (T : Type) where
  | pushBack (item : T)
  | pushFront (item : T)
  | popBack
  | popFront
  | set (index : ℕ) (value : T)

/-- An operation; one that throws leaves the buffer as it is. -/
def apply (b : CircularBuffer T) : Op T → Except Exn (CircularBuffer T)
  | .pushBack item => .ok (b.pushBack item)
  | .pushFront item => .ok (b.pushFront item)
  | .popBack => b.popBack
  | .popFront => b.popFront
  | .set index value => b.set index value

/-- The operation on a list of at most `n` elements: those too many are dropped at the other end. -/
def applyList (n : ℕ) (xs : List T) : Op T → Except Exn (List T)
  | .pushBack item => .ok ((xs ++ [item]).rtake n)
  | .pushFront item => .ok ((item :: xs).take n)
  | .popBack => if xs = [] then .error .invalidOperation else .ok xs.dropLast
  | .popFront => if xs = [] then .error .invalidOperation else .ok xs.tail
  | .set index value =>
    if index < xs.length then .ok (xs.set index value) else .error .indexOutOfRange

/-- Operations that are done one after the other, some of which may throw. -/
def applyAll {σ : Type} (f : σ → Op T → Except Exn σ) (s : σ) (ops : List (Op T)) : σ :=
  ops.foldl (fun s op => (f s op).toOption.getD s) s

/-- The step lemma: the buffer and the list do the same, or throw the same. -/
theorem apply_spec (h : b.Keeps xs) (op : Op T) :
    (∃ b' xs', b.apply op = .ok b' ∧ applyList b.buffer.length xs op = .ok xs' ∧ b'.Keeps xs' ∧
      b'.buffer.length = b.buffer.length) ∨
    ∃ e, b.apply op = .error e ∧ applyList b.buffer.length xs op = .error e := by
  cases op with
  | pushBack x =>
    exact .inl ⟨_, _, rfl, rfl, keeps_pushBack h x, capacity_pushBack x⟩
  | pushFront x =>
    refine .inl ⟨_, _, rfl, rfl, keeps_pushFront h x, ?_⟩
    unfold pushFront
    split <;> exact List.length_set
  | popBack =>
    by_cases hne : xs = []
    · refine .inr ⟨.invalidOperation, ?_, if_pos hne⟩
      change b.popBack = _
      unfold popBack
      rw [if_pos (h.isEmpty_iff.mpr hne)]
      rfl
    · obtain ⟨b', hpop, hkept⟩ := keeps_popBack h hne
      refine .inl ⟨b', _, hpop, if_neg hne, hkept, ?_⟩
      unfold popBack at hpop
      rw [if_neg (h.isEmpty_iff.not.mpr hne)] at hpop
      obtain rfl := Except.ok.inj hpop
      exact List.length_set
  | popFront =>
    by_cases hne : xs = []
    · refine .inr ⟨.invalidOperation, ?_, if_pos hne⟩
      change b.popFront = _
      unfold popFront
      rw [if_pos (h.isEmpty_iff.mpr hne)]
      rfl
    · obtain ⟨b', hpop, hkept⟩ := keeps_popFront h hne
      refine .inl ⟨b', _, hpop, if_neg hne, hkept, ?_⟩
      unfold popFront at hpop
      rw [if_neg (h.isEmpty_iff.not.mpr hne)] at hpop
      obtain rfl := Except.ok.inj hpop
      exact List.length_set
  | set i x =>
    by_cases hi : i < xs.length
    · obtain ⟨b', hset, hkept⟩ := keeps_set h hi x
      refine .inl ⟨b', _, hset, if_pos hi, hkept, ?_⟩
      unfold set at hset
      dsimp only at hset
      split_ifs at hset
      obtain rfl := Except.ok.inj hset
      exact List.length_set
    · refine .inr ⟨.indexOutOfRange, ?_, if_neg hi⟩
      change b.set i x = _
      unfold set
      by_cases hne : xs = []
      · rw [if_pos (h.isEmpty_iff.mpr hne)]
        rfl
      · rw [if_neg (h.isEmpty_iff.not.mpr hne), if_pos (by rw [h.size_eq]; omega)]
        rfl

/-- **The run lemma**: the buffer keeps what the list is. -/
theorem keeps_applyAll (h : b.Keeps xs) (ops : List (Op T)) :
    (applyAll apply b ops).Keeps (applyAll (applyList b.buffer.length) xs ops) ∧
      (applyAll apply b ops).buffer.length = b.buffer.length := by
  unfold applyAll
  induction ops generalizing b xs with
  | nil => exact ⟨h, rfl⟩
  | cons op ops ih =>
    rw [List.foldl_cons, List.foldl_cons]
    rcases apply_spec h op with ⟨b', xs', hb, hxs, hkept, hlen⟩ | ⟨e, hb, hxs⟩
    · have hrest := ih hkept
      rw [hlen] at hrest
      rw [hb, hxs]
      exact hrest
    · rw [hb, hxs]
      exact ih h

/-- **What is observed** after any operations on a new buffer: the elements, by their index, at the
front and in order. `Back` is the last of them unless the next slot is the first one and the buffer
is not full; an empty buffer enumerates all its slots, and cannot be copied. -/
theorem observed_of_run {capacity : ℕ} {items : List T} (hcreate : create capacity items = .ok b)
    (ops : List (Op T)) :
    let b' := applyAll apply b ops
    let xs := applyAll (applyList capacity) items ops
    b'.size = xs.length ∧
    (∀ i : ℕ, b'.get i =
      if i < xs.length then .ok (xs.getD i default) else .error .indexOutOfRange) ∧
    b'.front = (if xs = [] then .error .invalidOperation else .ok (xs.getD 0 default)) ∧
    b'.back = (if xs = [] then .error .invalidOperation
      else if b'.stop = 0 then .ok (xs.getD ((2 * xs.length - 1) % capacity) default)
      else .ok (xs.getD (xs.length - 1) default)) ∧
    b'.enumerate = (if xs = [] then List.replicate capacity default else xs) ∧
    b'.toArray = if xs = [] then .error .argument else .ok xs := by
  obtain ⟨hkeeps, hlen⟩ := keeps_create hcreate
  obtain ⟨hkept, hlen'⟩ := keeps_applyAll hkeeps ops
  rw [hlen] at hkept hlen'
  have hback := hkept.back_eq
  have henumerate := hkept.enumerate_eq
  rw [hlen'] at hback henumerate
  exact ⟨hkept.size_eq, hkept.get_eq, hkept.front_eq, hback, henumerate, hkept.toArray_eq⟩

/-- Three slots, filled and emptied at the front: the last element is at the end of the array, and
`Back` looks in the second slot. -/
theorem observed_back_three :
    let b' := applyAll apply (⟨[0, 0, 0], 0, 0, 0⟩ : CircularBuffer ℕ)
      [.pushBack 1, .pushBack 2, .pushBack 3, .popFront, .popFront]
    b'.enumerate = [3] ∧ b'.back = .ok 0 := by
  have hrun := @observed_of_run ℕ _ ⟨[0, 0, 0], 0, 0, 0⟩ 3 [] rfl
    [.pushBack 1, .pushBack 2, .pushBack 3, .popFront, .popFront]
  exact ⟨hrun.2.2.2.2.1, hrun.2.2.2.1⟩

end AionPool.Util.CircularBuffer
