import AionPool.Runtime
import Mathlib.Data.List.DropRight

/-!
# The circular buffer

`CircularBuffer<T>`: an array with the index of the first element, the index after the last one and
the number of elements. `PushBack` on a full buffer overwrites the oldest element.

* `enumerate`: the two segments of the array that the enumerator walks.
* `pushAll`: elements are pushed back one after the other.
* `rtake_rtake_concat`: the last elements of a list that grows at its end.

Models `CircularBuffer.cs:46-148`, `:188-202` and `:282-336`.
-/

namespace AionPool.Util

/-- `CircularBuffer<T>`; `stop` is the field `end`. -/
structure CircularBuffer (T : Type) where
  buffer : List T
  start : ℕ
  stop : ℕ
  size : ℕ

namespace CircularBuffer

variable {T : Type} [Inhabited T]

def capacity (b : CircularBuffer T) : ℕ := b.buffer.length

def isFull (b : CircularBuffer T) : Bool := b.size = b.capacity

/-- The constructor; the items are copied to the front of the array. -/
def create (capacity : ℕ) (items : List T) : Except Exn (CircularBuffer T) :=
  if capacity < 1 then .error .argument
  else if capacity < items.length then .error .argument
  else .ok {
    buffer := items ++ List.replicate (capacity - items.length) default
    start := 0
    stop := if items.length = capacity then 0 else items.length
    size := items.length }

/-- `Increment`. -/
def increment (b : CircularBuffer T) (index : ℕ) : ℕ :=
  if index + 1 = b.capacity then 0 else index + 1

def pushBack (b : CircularBuffer T) (item : T) : CircularBuffer T :=
  if b.isFull then
    { b with
      buffer := b.buffer.set b.stop item
      start := b.increment b.stop
      stop := b.increment b.stop }
  else
    { b with
      buffer := b.buffer.set b.stop item
      stop := b.increment b.stop
      size := b.size + 1 }

def arrayOne (b : CircularBuffer T) : List T :=
  if b.start < b.stop then (b.buffer.drop b.start).take (b.stop - b.start)
  else b.buffer.drop b.start

def arrayTwo (b : CircularBuffer T) : List T :=
  if b.start < b.stop then [] else b.buffer.take b.stop

/-- `GetEnumerator`. -/
def enumerate (b : CircularBuffer T) : List T := b.arrayOne ++ b.arrayTwo

variable {b : CircularBuffer T}

omit [Inhabited T] in
theorem capacity_pushBack (x : T) : (b.pushBack x).capacity = b.capacity := by
  unfold pushBack capacity
  split <;> exact List.length_set

/-! ## Many pushes -/

omit [Inhabited T] in
/-- Of what was dropped before, nothing comes back. -/
theorem rtake_rtake_concat (xs : List T) (x : T) (n : ℕ) :
    (xs.rtake n ++ [x]).rtake n = (xs ++ [x]).rtake n := by
  simp only [List.rtake_eq_reverse_take_reverse, List.reverse_append, List.reverse_reverse,
    List.reverse_singleton, List.singleton_append]
  cases n with
  | zero => rfl
  | succ n => rw [List.take_succ_cons, List.take_succ_cons, List.take_take, min_eq_left (by omega)]

omit [Inhabited T] in
theorem length_rtake (xs : List T) (n : ℕ) : (xs.rtake n).length = min xs.length n := by
  rw [List.rtake, List.length_drop]
  omega

/-- Elements are pushed back one after the other. -/
def pushAll (b : CircularBuffer T) (items : List T) : CircularBuffer T :=
  items.foldl pushBack b

end CircularBuffer

end AionPool.Util
