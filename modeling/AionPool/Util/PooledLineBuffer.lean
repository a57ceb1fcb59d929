import AionPool.Lib.Effects
import AionPool.Lib.Framing
import AionPool.Runtime
import Mathlib.Algebra.GroupWithZero.Nat

/-!
# `PooledLineBuffer`

`Receive` takes one chunk of a byte stream, hands every line it completes to `onNext` and keeps the
bytes behind the last newline in `recvQueue`. It works on arrays rented from a pool, which may be
longer than asked for and have other bytes left over in them. Arrays are values here: one goes back
to the pool only when no segment refers to it any more.

* `receive_spec`: what a call does, for any `onNext`.
* **`framesStream_iff`**: the lines of a run are the lines of the stream exactly when no chunk is
  tight: one that fills its array to the end and has its last newline but one byte before it.

Models `PooledLineBuffer.cs:37-156` and `ArrayExtensions.cs:153-164`. Out of scope: the pool of
arrays, but for the lengths it may rent.
-/

namespace AionPool.Util

open AionPool.Lib.Effects AionPool.Lib.Framing

/-! ## Arrays -/

/-- `ArrayPool<byte>`: the array the `i`-th call of `Rent(n)` returns. -/
structure ArrayPool where
  rent : ℕ → ℕ → List UInt8
  length_rent : ∀ i n, n ≤ (rent i n).length

/-- `PooledArraySegment<byte>`. -/
structure PooledArraySegment where
  array : List UInt8
  offset : ℕ
  size : ℕ

/-- `ToArray`. -/
def PooledArraySegment.toArray (s : PooledArraySegment) : List UInt8 :=
  (s.array.drop s.offset).take s.size

/-- `Array.Copy`. -/
def arrayCopy (source : List UInt8) (sourceIndex : ℕ) (destination : List UInt8)
    (destinationIndex length : ℕ) : Except Exn (List UInt8) :=
  if sourceIndex + length ≤ source.length ∧ destinationIndex + length ≤ destination.length then
    return destination.take destinationIndex ++ (source.drop sourceIndex).take length ++
      destination.drop (destinationIndex + length)
  else throw .argument

/-- `ArrayExtensions.IndexOf`; `none` stands for `-1`. -/
def indexOf (arr : List UInt8) (val : UInt8) (start count : ℕ) : Except Exn (Option ℕ) :=
  if (start : ℤ) < arr.length - 1 ∧ start + count ≤ arr.length then
    return (((arr.drop start).take count).findIdx? (· == val)).map (start + ·)
  else throw .argumentOutOfRange

/-! ## `Receive` -/

/-- What `Receive` calls; a segment is handed over by the bytes in it. -/
structure Callbacks (σ : Type) where
  onNext : List UInt8 → EStateM Exn σ Unit
  onError : String → EStateM Exn σ Unit

/-- A program over `recvQueue` and the state behind the callbacks. -/
abbrev Receiving (σ α : Type) := EStateM Exn (List PooledArraySegment × σ) α

variable {σ : Type}

/-- A callback does not touch the queue. -/
def callback (f : EStateM Exn σ Unit) : Receiving σ Unit := fun (queue, s) =>
  match f s with
  | .ok a s => .ok a (queue, s)
  | .error e s => .error e (queue, s)

/-- The segments are dequeued and copied into the line, one behind the other. -/
def drainQueue : List PooledArraySegment → List UInt8 → ℕ → Receiving σ (List UInt8 × ℕ)
  | [], line, offset => return (line, offset)
  | segment :: queue, line, offset => do
    modify fun s => (queue, s.2)
    let line ← MonadExcept.ofExcept (arrayCopy segment.array 0 line offset segment.size)
    drainQueue queue line (offset + segment.size)

/-- `if (segmentLength > 0) Array.Copy(buf, prevIndex, line, offset, segmentLength)`. -/
def appendSegment (buf : List UInt8) (prevIndex : ℕ) (line : List UInt8)
    (offset segmentLength : ℕ) : Except Exn (List UInt8) :=
  if 0 < segmentLength then arrayCopy buf prevIndex line offset segmentLength else return line

/-- `if (lineLength > 0) onNext(segment)`, for both places that emit a line. -/
def emitSegment (cb : Callbacks σ) (segment : PooledArraySegment) : Receiving σ Unit :=
  if 0 < segment.size then callback (cb.onNext segment.toArray) else return

/-- The line is assembled from the queue and a part of the chunk, and emitted. -/
def assembleLine (pool : ArrayPool) (cb : Callbacks σ) (rented : ℕ) (buf : List UInt8)
    (prevIndex segmentLength : ℕ) : Receiving σ Unit := do
  let (queue, _) ← get
  let queuedLength := (queue.map (·.size)).sum
  let lineLength := queuedLength + segmentLength
  let line := pool.rent rented lineLength
  let (line, offset) ← drainQueue queue line 0
  let line ← MonadExcept.ofExcept (appendSegment buf prevIndex line offset segmentLength)
  emitSegment cb ⟨line, 0, lineLength⟩

/-- The check for flooding after something was stored. -/
def checkFlooding (cb : Callbacks σ) (maxLength : Option ℕ) : Receiving σ Unit := do
  let (queue, _) ← get
  match maxLength.filter fun m => m < (queue.map (·.size)).sum with
  | some m => callback (cb.onError ("Incoming request size exceeds maximum of " ++ toString m))
  | none => return

/-- `recvQueue.Enqueue`. -/
def enqueue (segment : PooledArraySegment) : Receiving σ Unit :=
  modify fun s => (s.1 ++ [segment], s.2)

/-- The end of the chunk is stored: a copy of it, or the chunk itself when nothing was cut off. -/
def store (pool : ArrayPool) (rented : ℕ) (buf : List UInt8)
    (bufferSize prevIndex remaining : ℕ) : Receiving σ Unit :=
  if prevIndex ≠ 0 then
    let segmentLength := bufferSize - prevIndex
    if 0 < segmentLength then do
      let fragment := pool.rent rented segmentLength
      let fragment ← MonadExcept.ofExcept (arrayCopy buf prevIndex fragment 0 segmentLength)
      enqueue ⟨fragment, 0, segmentLength⟩
    else return
  else enqueue ⟨buf, 0, remaining⟩

/-- The loop, with a bound on its iterations; each one takes at least one byte off `remaining`. -/
def receiveLoop (pool : ArrayPool) (cb : Callbacks σ) (maxLength : Option ℕ) (buf : List UInt8)
    (bufferSize : ℕ) (forceNewLine : Bool) : ℕ → ℕ → ℕ → ℕ → Receiving σ Unit
  | 0, _, _, _ => return
  | n + 1, prevIndex, remaining, rented =>
    if remaining = 0 then return
    else do
      let index ← MonadExcept.ofExcept (indexOf buf 0x0a prevIndex (buf.length - prevIndex))
      match forceNewLine, index with
      | true, _ => assembleLine pool cb rented buf prevIndex (bufferSize - prevIndex)
      | false, some index =>
        let (queue, _) ← get
        if index + 1 = bufferSize ∧ queue.isEmpty then
          -- the fast path emits a part of the chunk without a copy
          emitSegment cb ⟨buf, prevIndex, index - prevIndex⟩
        else do
          let segmentLength := index - prevIndex
          assembleLine pool cb rented buf prevIndex segmentLength
          receiveLoop pool cb maxLength buf bufferSize forceNewLine n (index + 1)
            (remaining - (segmentLength + 1)) (rented + 1)
      | false, none =>
        store pool rented buf bufferSize prevIndex remaining
        checkFlooding cb maxLength

/-- `Receive` with `forceNewLine`; `buffer` has `bufferSize` bytes to read. -/
def receive (pool : ArrayPool) (cb : Callbacks σ) (maxLength : Option ℕ) (buffer : List UInt8)
    (forceNewLine : Bool) : Receiving σ Unit :=
  let bufferSize := buffer.length
  if bufferSize = 0 then return
  else
    match maxLength.filter fun m => m < bufferSize with
    | some m => callback (cb.onError ("Incoming data exceeds maximum of " ++ toString m))
    | none => do
      let buf := pool.rent 0 bufferSize
      -- what an earlier user left behind the chunk is cleared
      let buf := buf.take bufferSize ++ List.replicate (buf.length - bufferSize) 0
      let buf ← MonadExcept.ofExcept (arrayCopy buffer 0 buf 0 bufferSize)
      receiveLoop pool cb maxLength buf bufferSize forceNewLine bufferSize 0 bufferSize 1

/-! ## The queue -/

/-- The bytes that wait for their newline. -/
def pending (queue : List PooledArraySegment) : List UInt8 :=
  queue.flatMap PooledArraySegment.toArray

/-- What `Receive` leaves in the queue: segments at the start of their arrays, and no newline. -/
structure Stored (queue : List PooledArraySegment) : Prop where
  fits : ∀ s ∈ queue, s.offset = 0 ∧ s.size ≤ s.array.length
  noNewline : 0x0a ∉ pending queue

theorem stored_nil : Stored [] := ⟨fun _ h => absurd h (by simp), by simp [pending]⟩

theorem arrayCopy_ok {source destination : List UInt8} {sourceIndex destinationIndex length : ℕ}
    (hs : sourceIndex + length ≤ source.length)
    (hd : destinationIndex + length ≤ destination.length) :
    arrayCopy source sourceIndex destination destinationIndex length =
      .ok (destination.take destinationIndex ++ (source.drop sourceIndex).take length ++
        destination.drop (destinationIndex + length)) := if_pos ⟨hs, hd⟩

theorem length_toArray {s : PooledArraySegment} (ho : s.offset = 0)
    (hs : s.size ≤ s.array.length) : s.toArray.length = s.size := by
  unfold PooledArraySegment.toArray
  rw [ho, List.length_take, List.length_drop]
  omega

/-- The sizes of the segments add up to the number of bytes that wait. -/
theorem sum_size {queue : List PooledArraySegment}
    (h : ∀ s ∈ queue, s.offset = 0 ∧ s.size ≤ s.array.length) :
    (queue.map (·.size)).sum = (pending queue).length := by
  induction queue with
  | nil => rfl
  | cons s queue ih =>
    obtain ⟨ho, hs⟩ := h s List.mem_cons_self
    have ih := ih fun t ht => h t (List.mem_cons_of_mem s ht)
    unfold pending at ih ⊢
    rw [List.map_cons, List.sum_cons, List.flatMap_cons, List.length_append,
      length_toArray ho hs, ih]

/-- Draining copies the bytes that wait to where the line goes on. -/
theorem drainQueue_ok {queue : List PooledArraySegment} {line : List UInt8} {offset : ℕ} {s : σ}
    (h : ∀ s ∈ queue, s.offset = 0 ∧ s.size ≤ s.array.length)
    (hroom : offset + (pending queue).length ≤ line.length) :
    (drainQueue queue line offset).run (queue, s) =
      .ok (line.take offset ++ pending queue ++ line.drop (offset + (pending queue).length),
        offset + (pending queue).length) ([], s) := by
  induction queue generalizing line offset with
  | nil =>
    have hline :
        line.take offset ++ pending [] ++ line.drop (offset + (pending []).length) = line := by
      simp [pending]
    rw [hline]
    rfl
  | cons t queue ih =>
    obtain ⟨ho, ht⟩ := h t List.mem_cons_self
    have hlen := length_toArray ho ht
    have hpending : pending (t :: queue) = t.toArray ++ pending queue := List.flatMap_cons
    rw [hpending, List.length_append, hlen] at hroom
    have hcopy : arrayCopy t.array 0 line offset t.size =
        .ok (line.take offset ++ t.toArray ++ line.drop (offset + t.size)) := by
      rw [arrayCopy_ok (by omega) (by omega), ← ho]
      rfl
    have hfront : (line.take offset ++ t.toArray).length = offset + t.size := by
      rw [List.length_append, List.length_take, hlen]
      omega
    have hrest : offset + t.size + (pending queue).length ≤
        (line.take offset ++ t.toArray ++ line.drop (offset + t.size)).length := by
      rw [List.length_append, hfront, List.length_drop]
      omega
    have ih := ih (fun u hu => h u (List.mem_cons_of_mem t hu)) hrest
    have htake : (line.take offset ++ t.toArray ++ line.drop (offset + t.size)).take
        (offset + t.size) = line.take offset ++ t.toArray := List.take_left' hfront
    have hdrop : ∀ n, (line.take offset ++ t.toArray ++ line.drop (offset + t.size)).drop
        (offset + t.size + n) = line.drop (offset + t.size + n) := fun n => by
      rw [← List.drop_drop, List.drop_left' hfront, List.drop_drop]
    rw [htake, hdrop] at ih
    rw [drainQueue, EStateM.run_bind, EStateM.run_modify]
    dsimp only
    rw [run_bind_ok (run_ofExcept_ok hcopy _), ih, hpending, List.length_append, hlen,
      List.append_assoc _ t.toArray, Nat.add_assoc]

/-! ## One call -/

theorem run_callback (f : EStateM Exn σ Unit) (queue : List PooledArraySegment) (s : σ) :
    (callback f).run (queue, s) =
      match f.run s with
      | .ok a s => .ok a (queue, s)
      | .error e s => .error e (queue, s) := rfl

/-- A line that is not empty is emitted. -/
def emit (cb : Callbacks σ) (line : List UInt8) : EStateM Exn σ Unit :=
  if line.isEmpty then return else cb.onNext line

theorem emitSegment_eq {cb : Callbacks σ} {segment : PooledArraySegment} {line : List UInt8}
    (hline : segment.toArray = line) (hsize : segment.size = line.length) :
    emitSegment cb segment = callback (emit cb line) := by
  unfold emitSegment emit
  rw [hline, hsize]
  cases line with
  | nil => rfl
  | cons x line => rfl

theorem appendSegment_ok {pre segment tail front spare : List UInt8}
    (h : segment.length ≤ spare.length) :
    appendSegment (pre ++ segment ++ tail) pre.length (front ++ spare) front.length
        segment.length =
      .ok (front ++ segment ++ spare.drop segment.length) := by
  unfold appendSegment
  split
  · rw [arrayCopy_ok (by simp) (by simpa using h), List.append_assoc pre,
      List.drop_left, List.take_left, List.take_left, List.drop_append]
    simp
  · rename_i hlen
    obtain rfl := List.eq_nil_of_length_eq_zero (Nat.eq_zero_of_not_pos hlen)
    rw [List.append_nil, List.length_nil, List.drop_zero]
    rfl

/-- The line is what waited and the part of the chunk, and nothing waits any more. -/
theorem run_assembleLine {pool : ArrayPool} {cb : Callbacks σ} {rented : ℕ}
    {queue : List PooledArraySegment} {pre segment tail : List UInt8} {s : σ}
    (h : ∀ s ∈ queue, s.offset = 0 ∧ s.size ≤ s.array.length) :
    (assembleLine pool cb rented (pre ++ segment ++ tail) pre.length segment.length).run
        (queue, s) =
      (callback (emit cb (pending queue ++ segment))).run ([], s) := by
  have hroom := pool.length_rent rented ((pending queue).length + segment.length)
  unfold assembleLine
  rw [EStateM.run_bind, EStateM.run_get]
  dsimp only
  rw [sum_size h, run_bind_ok (drainQueue_ok h (by omega))]
  dsimp only
  rw [List.take_zero, List.nil_append, Nat.zero_add,
    run_bind_ok (run_ofExcept_ok (appendSegment_ok (by simp; omega)) _)]
  have hline : (PooledArraySegment.mk (pending queue ++ segment ++
      ((pool.rent rented ((pending queue).length + segment.length)).drop
        (pending queue).length).drop segment.length) 0
      ((pending queue).length + segment.length)).toArray = pending queue ++ segment := by
    unfold PooledArraySegment.toArray
    rw [List.drop_zero, ← List.length_append, List.take_left]
  rw [emitSegment_eq hline List.length_append.symm]

/-! ## The loop -/

/-- What `Receive` makes of a stream, the bytes that waited and those it reads: the lines go to
`onNext`, and when that takes them all the rest waits. A tight chunk ends with an exception. -/
def Frames (cb : Callbacks σ) (maxLength : Option ℕ) (tight : Prop) (stream : List UInt8) (s : σ)
    (r : EStateM.Result Exn (List PooledArraySegment × σ) Unit) : Prop :=
  match (forM (lines 0x0a stream) cb.onNext).run s with
  | .error e s' => r = .error e ([], s')
  | .ok _ s' => ∃ queue, Stored queue ∧ pending queue = rest 0x0a stream ∧
      (tight → r = .error .argumentOutOfRange (queue, s')) ∧
      (¬ tight → r = (checkFlooding cb maxLength).run (queue, s'))

/-- One byte comes behind the last newline, or there is only one byte. -/
def EndsTight (data : List UInt8) : Prop :=
  data.length = 1 ∨ data[data.length - 2]? = some 0x0a

instance (data : List UInt8) : Decidable (EndsTight data) :=
  inferInstanceAs (Decidable (_ ∨ _))

/-- The bytes of a chunk that are read, when its array is `spare` bytes longer than the chunk. -/
def readBytes (spare : ℕ) (data : List UInt8) : List UInt8 :=
  if spare = 0 ∧ EndsTight data then data.dropLast else data

theorem run_checkFlooding_nil (cb : Callbacks σ) (maxLength : Option ℕ) (s : σ) :
    (checkFlooding cb maxLength).run ([], s) = .ok () ([], s) := by
  unfold checkFlooding
  rw [EStateM.run_bind, EStateM.run_get]
  cases maxLength with
  | none => rfl
  | some m => rfl

/-- The first line of a stream goes to `onNext`; the rest is framed on its own. -/
theorem frames_cons {cb : Callbacks σ} {maxLength : Option ℕ} {tight : Prop}
    {u stream : List UInt8} {s : σ} {x : Receiving σ Unit} (hu : 0x0a ∉ u)
    (h : ∀ s', Frames cb maxLength tight stream s' (x.run ([], s'))) :
    Frames cb maxLength tight (u ++ 0x0a :: stream) s
      ((callback (emit cb u) >>= fun _ => x).run ([], s)) := by
  unfold Frames emit
  rw [lines_append_cons hu, rest_append_cons hu]
  cases u with
  | nil => exact h s
  | cons a u =>
    rw [if_neg (by simp), if_neg (by simp), List.singleton_append, List.forM_cons, EStateM.run_bind,
      EStateM.run_bind, run_callback]
    cases (cb.onNext (a :: u)).run s with
    | ok r s' => exact h s'
    | error e s' => rfl

/-- The search from the cut on looks at what comes behind it, when that is more than one byte. -/
theorem indexOf_append (pre : List UInt8) {body : List UInt8} (h : 1 < body.length) (val : UInt8) :
    indexOf (pre ++ body) val pre.length ((pre ++ body).length - pre.length) =
      .ok ((body.findIdx? (· == val)).map (pre.length + ·)) := by
  have hcount : (pre ++ body).length - pre.length = body.length := by simp
  unfold indexOf
  rw [hcount, if_pos (by rw [List.length_append]; omega), List.drop_left, List.take_length]
  rfl

theorem indexOf_append_singleton (pre : List UInt8) (x val : UInt8) :
    indexOf (pre ++ [x]) val pre.length ((pre ++ [x]).length - pre.length) =
      .error .argumentOutOfRange := by
  unfold indexOf
  rw [if_neg (by rw [List.length_append, List.length_singleton]; omega)]
  rfl

theorem findIdx?_newline {seg tail : List UInt8} (h : 0x0a ∉ seg) :
    (seg ++ 0x0a :: tail).findIdx? (· == 0x0a) = some seg.length := by
  have hnone : seg.findIdx? (· == 0x0a) = none :=
    List.findIdx?_eq_none_iff.mpr fun x hx => beq_eq_false_iff_ne.mpr fun heq => h (heq ▸ hx)
  rw [List.findIdx?_append, hnone]
  simp [List.findIdx?_cons]

theorem findIdx?_cleared {data : List UInt8} (h : 0x0a ∉ data) (k : ℕ) :
    (data ++ List.replicate k 0).findIdx? (· == 0x0a) = none := by
  refine List.findIdx?_eq_none_iff.mpr fun x hx => beq_eq_false_iff_ne.mpr fun heq => ?_
  rcases List.mem_append.mp hx with hx | hx
  · exact h (heq ▸ hx)
  · exact absurd ((List.eq_of_mem_replicate hx).symm.trans heq) (by decide)

/-- Behind a newline nothing changes, as long as something comes behind it. -/
theorem endsTight_append_cons {seg data : List UInt8} (h : data ≠ []) :
    EndsTight (seg ++ 0x0a :: data) ↔ EndsTight data := by
  obtain ⟨x, data, rfl⟩ := List.exists_cons_of_ne_nil h
  unfold EndsTight
  cases data with
  | nil => simp
  | cons y data =>
    have hlen : (seg ++ 0x0a :: x :: y :: data).length - 2 = seg.length + (data.length + 1) := by
      simp only [List.length_append, List.length_cons]
      omega
    rw [hlen, List.getElem?_append_right (by omega), Nat.add_sub_cancel_left,
      List.getElem?_cons_succ]
    refine or_congr ⟨fun h => ?_, fun h => ?_⟩ Iff.rfl
    · simp only [List.length_append, List.length_cons] at h
      omega
    · simp only [List.length_cons] at h
      omega

theorem not_endsTight_append_singleton {seg : List UInt8} (h : 0x0a ∉ seg) (hne : seg ≠ []) :
    ¬ EndsTight (seg ++ [0x0a]) := by
  rintro (hlen | hget)
  · exact hne (List.eq_nil_of_length_eq_zero (by simpa using hlen))
  · have hpos := List.length_pos_of_ne_nil hne
    have hidx : (seg ++ [0x0a]).length - 2 = seg.length - 1 := by
      rw [List.length_append, List.length_singleton]
      omega
    rw [hidx, List.getElem?_append_left (by omega)] at hget
    exact h (List.mem_of_getElem? hget)

theorem not_endsTight_nil : ¬ EndsTight [] := by
  rintro (h | h)
  · exact absurd h (by simp)
  · exact absurd h (by simp)

/-- Whether the end is tight is decided behind the first newline. -/
theorem tight_append_cons {spare : ℕ} {seg data : List UInt8}
    (h : data = [] → ¬ (spare = 0 ∧ EndsTight (seg ++ 0x0a :: data))) :
    (spare = 0 ∧ EndsTight (seg ++ 0x0a :: data)) ↔ spare = 0 ∧ EndsTight data := by
  by_cases hd : data = []
  · exact ⟨fun ht => absurd ht (h hd), fun ht => absurd (hd ▸ ht.2) not_endsTight_nil⟩
  · exact and_congr Iff.rfl (endsTight_append_cons hd)

theorem readBytes_append_cons {spare : ℕ} {seg data : List UInt8}
    (h : data = [] → ¬ (spare = 0 ∧ EndsTight (seg ++ 0x0a :: data))) :
    readBytes spare (seg ++ 0x0a :: data) = seg ++ 0x0a :: readBytes spare data := by
  have htight := tight_append_cons h
  unfold readBytes
  by_cases hx : spare = 0 ∧ EndsTight data
  · have hd : data ≠ [] := fun hd => not_endsTight_nil (hd ▸ hx.2)
    rw [if_pos hx, if_pos (htight.mpr hx), List.dropLast_append_cons,
      List.dropLast_cons_of_ne_nil hd]
  · rw [if_neg hx, if_neg fun h => hx (htight.mp h)]

/-- The end of a chunk is stored as it is. -/
theorem run_store (pool : ArrayPool) (rented : ℕ) (pre tail : List UInt8) {data : List UInt8}
    (h : data ≠ []) (queue : List PooledArraySegment) (s : σ) :
    ∃ segment : PooledArraySegment, (segment.offset = 0 ∧ segment.size ≤ segment.array.length) ∧
      segment.toArray = data ∧
      (store pool rented (pre ++ data ++ tail) (pre.length + data.length) pre.length
        data.length).run (queue, s) = .ok () (queue ++ [segment], s) := by
  have hpos := List.length_pos_of_ne_nil h
  have hroom := pool.length_rent rented data.length
  unfold store
  split
  · rw [Nat.add_sub_cancel_left, if_pos hpos]
    refine ⟨⟨(pool.rent rented data.length).take 0 ++ data ++
      (pool.rent rented data.length).drop (0 + data.length), 0, data.length⟩, ⟨rfl, ?_⟩, ?_, ?_⟩
    · simp
    · simp [PooledArraySegment.toArray]
    · have hcopy : arrayCopy (pre ++ data ++ tail) pre.length (pool.rent rented data.length) 0
          data.length = .ok ((pool.rent rented data.length).take 0 ++ data ++
            (pool.rent rented data.length).drop (0 + data.length)) := by
        rw [arrayCopy_ok (by simp) (by omega), List.append_assoc pre, List.drop_left,
          List.take_left]
      rw [run_bind_ok (run_ofExcept_ok hcopy _)]
      rfl
  · rename_i hpre
    obtain rfl := List.eq_nil_of_length_eq_zero (not_not.mp hpre)
    refine ⟨⟨[] ++ data ++ tail, 0, data.length⟩, ⟨rfl, by simp⟩, ?_, rfl⟩
    simp [PooledArraySegment.toArray]

theorem notMem_of_not_mem_append {queue : List PooledArraySegment} (hq : Stored queue)
    {data : List UInt8} (h : 0x0a ∉ data) : 0x0a ∉ pending queue ++ data := fun hmem =>
  (List.mem_append.mp hmem).elim hq.noNewline h

/-- Nothing is cut off: what waited and the chunk are stored together. -/
theorem frames_store {cb : Callbacks σ} {maxLength : Option ℕ} {queue : List PooledArraySegment}
    {data : List UInt8} {segment : PooledArraySegment} {s : σ} (hq : Stored queue)
    (hd : 0x0a ∉ data) (hfits : segment.offset = 0 ∧ segment.size ≤ segment.array.length)
    (hsegment : segment.toArray = data) {tight : Prop} (htight : ¬ tight) :
    Frames cb maxLength tight (pending queue ++ data) s
      ((checkFlooding cb maxLength).run (queue ++ [segment], s)) := by
  have hnl := notMem_of_not_mem_append hq hd
  have hpending : pending (queue ++ [segment]) = pending queue ++ data := by
    unfold pending
    rw [List.flatMap_append, List.flatMap_singleton, hsegment]
  unfold Frames
  rw [lines_of_notMem hnl, rest_of_notMem hnl]
  refine ⟨queue ++ [segment], ⟨fun t ht => ?_, hpending ▸ hnl⟩, hpending,
    fun h => absurd h htight, fun _ => rfl⟩
  rcases List.mem_append.mp ht with ht | ht
  · exact hq.fits t ht
  · rw [List.mem_singleton.mp ht]
    exact hfits

/-- Nothing is left to read. -/
theorem frames_nil {cb : Callbacks σ} {maxLength : Option ℕ} {tight : Prop} (s : σ)
    (htight : ¬ tight) : Frames cb maxLength tight [] s (.ok () ([], s)) :=
  ⟨[], stored_nil, rfl, fun h => absurd h htight,
    fun _ => (run_checkFlooding_nil cb maxLength s).symm⟩

theorem frames_done (cb : Callbacks σ) (maxLength : Option ℕ) (spare : ℕ) (s : σ) :
    Frames cb maxLength (spare = 0 ∧ EndsTight []) (pending [] ++ readBytes spare []) s
      (.ok () ([], s)) := by
  have hread : pending [] ++ readBytes spare [] = [] := by simp [pending, readBytes]
  rw [hread]
  exact frames_nil s fun h => not_endsTight_nil h.2

/-- The only byte of an array is not searched. -/
theorem frames_singleton {cb : Callbacks σ} {maxLength : Option ℕ}
    {queue : List PooledArraySegment} (hq : Stored queue) (x : UInt8) (s : σ) :
    Frames cb maxLength (0 = 0 ∧ EndsTight [x]) (pending queue ++ readBytes 0 [x]) s
      (.error .argumentOutOfRange (queue, s)) := by
  have htight : 0 = 0 ∧ EndsTight [x] := ⟨rfl, Or.inl rfl⟩
  unfold Frames readBytes
  rw [if_pos htight, List.dropLast_singleton, List.append_nil, lines_of_notMem hq.noNewline,
    rest_of_notMem hq.noNewline]
  exact ⟨queue, hq, rfl, fun _ => rfl, fun h => absurd htight h⟩

/-- One turn of the loop, when the search can be made. -/
theorem run_receiveLoop_succ (pool : ArrayPool) (cb : Callbacks σ) (maxLength : Option ℕ)
    {spare : ℕ} (size n : ℕ) (pre : List UInt8) {data : List UInt8}
    (queue : List PooledArraySegment) (rented : ℕ) (s : σ) (hdata : data ≠ [])
    (hone : ¬ (spare = 0 ∧ data.length = 1)) :
    (receiveLoop pool cb maxLength (pre ++ data ++ List.replicate spare 0) size false (n + 1)
        pre.length data.length rented).run (queue, s) =
      match (data ++ List.replicate spare 0).findIdx? (· == 0x0a) with
      | some i =>
        (if pre.length + i + 1 = size ∧ queue.isEmpty then
          emitSegment cb ⟨pre ++ data ++ List.replicate spare 0, pre.length, i⟩
        else do
          assembleLine pool cb rented (pre ++ data ++ List.replicate spare 0) pre.length i
          receiveLoop pool cb maxLength (pre ++ data ++ List.replicate spare 0) size false n
            (pre.length + i + 1) (data.length - (i + 1)) (rented + 1)).run (queue, s)
      | none =>
        (do
          store pool rented (pre ++ data ++ List.replicate spare 0) size pre.length data.length
          checkFlooding cb maxLength).run (queue, s) := by
  have hbody : 1 < (data ++ List.replicate spare 0).length := by
    have hpos := List.length_pos_of_ne_nil hdata
    rw [List.length_append, List.length_replicate]
    omega
  have hsearch := indexOf_append pre hbody 0x0a
  rw [← List.append_assoc] at hsearch
  rw [receiveLoop, if_neg (mt List.eq_nil_of_length_eq_zero hdata),
    run_bind_ok (run_ofExcept_ok hsearch _)]
  cases (data ++ List.replicate spare 0).findIdx? (· == 0x0a) with
  | none => rfl
  | some i =>
    dsimp only [Option.map_some]
    rw [EStateM.run_bind, EStateM.run_get, Nat.add_sub_cancel_left]

/-- The first newline ends a line, and what comes behind it is framed in the turns that follow. -/
theorem frames_newline (pool : ArrayPool) (cb : Callbacks σ) (maxLength : Option ℕ) {spare n : ℕ}
    (pre : List UInt8) {seg data : List UInt8} {queue : List PooledArraySegment} (rented : ℕ)
    (s : σ) (hq : Stored queue) (hseg : 0x0a ∉ seg)
    (hone : ¬ (spare = 0 ∧ (seg ++ 0x0a :: data).length = 1))
    (hnext : ∀ s', Frames cb maxLength (spare = 0 ∧ EndsTight data) (readBytes spare data) s'
      ((receiveLoop pool cb maxLength ((pre ++ seg ++ [0x0a]) ++ data ++ List.replicate spare 0)
        ((pre ++ seg ++ [0x0a]).length + data.length) false n (pre ++ seg ++ [0x0a]).length
        data.length (rented + 1)).run ([], s'))) :
    Frames cb maxLength (spare = 0 ∧ EndsTight (seg ++ 0x0a :: data))
      (pending queue ++ readBytes spare (seg ++ 0x0a :: data)) s
      ((receiveLoop pool cb maxLength (pre ++ (seg ++ 0x0a :: data) ++ List.replicate spare 0)
        (pre.length + (seg ++ 0x0a :: data).length) false (n + 1) pre.length
        (seg ++ 0x0a :: data).length rented).run (queue, s)) := by
  have hcut : data = [] → ¬ (spare = 0 ∧ EndsTight (seg ++ 0x0a :: data)) := by
    rintro rfl ⟨hspare, htight⟩
    refine not_endsTight_append_singleton hseg (fun hnil => hone ⟨hspare, ?_⟩) htight
    rw [hnil]
    rfl
  have hlen : (seg ++ 0x0a :: data).length = seg.length + (data.length + 1) := by simp
  rw [run_receiveLoop_succ pool cb maxLength _ n pre queue rented s (by simp) hone,
    List.append_assoc seg, List.cons_append, findIdx?_newline hseg, readBytes_append_cons hcut,
    propext (tight_append_cons hcut), ← List.append_assoc (pending queue), hlen]
  dsimp only
  split
  · rename_i hfast
    -- the newline ends the chunk and nothing waited
    obtain rfl : data = [] := List.eq_nil_of_length_eq_zero (by omega)
    obtain rfl := List.isEmpty_iff.mp hfast.2
    have hsegment : (PooledArraySegment.mk (pre ++ (seg ++ [0x0a]) ++ List.replicate spare 0)
        pre.length seg.length).toArray = seg := by simp [PooledArraySegment.toArray]
    have hframes := frames_cons (s := s) (x := pure ()) hseg (frames_done cb maxLength spare)
    rw [bind_pure_unit] at hframes
    rw [emitSegment_eq hsegment rfl]
    exact hframes
  · have hbuf : pre ++ (seg ++ 0x0a :: data) ++ List.replicate spare 0 =
        pre ++ seg ++ (0x0a :: data ++ List.replicate spare 0) := by simp
    have hrest : pre ++ seg ++ (0x0a :: data ++ List.replicate spare 0) =
        (pre ++ seg ++ [0x0a]) ++ data ++ List.replicate spare 0 := by simp
    have hpre : pre.length + seg.length + 1 = (pre ++ seg ++ [0x0a]).length := by
      simp [Nat.add_assoc]
    rw [EStateM.run_bind, hbuf, run_assembleLine hq.fits, ← EStateM.run_bind, hrest, hpre,
      show pre.length + (seg.length + (data.length + 1)) =
        (pre ++ seg ++ [0x0a]).length + data.length by rw [← hpre]; omega,
      show seg.length + (data.length + 1) - (seg.length + 1) = data.length by omega]
    exact frames_cons (notMem_of_not_mem_append hq hseg) hnext

/-- Without a newline the bytes are stored. -/
theorem frames_no_newline (pool : ArrayPool) (cb : Callbacks σ) (maxLength : Option ℕ)
    {spare n : ℕ} (pre : List UInt8) {data : List UInt8} {queue : List PooledArraySegment}
    (rented : ℕ) (s : σ) (hq : Stored queue) (hdata : data ≠ []) (hnl : 0x0a ∉ data)
    (hone : ¬ (spare = 0 ∧ data.length = 1)) :
    Frames cb maxLength (spare = 0 ∧ EndsTight data) (pending queue ++ readBytes spare data) s
      ((receiveLoop pool cb maxLength (pre ++ data ++ List.replicate spare 0)
        (pre.length + data.length) false (n + 1) pre.length data.length rented).run
        (queue, s)) := by
  have hloose : ¬ (spare = 0 ∧ EndsTight data) := by
    rintro ⟨hspare, hlen | hget⟩
    · exact hone ⟨hspare, hlen⟩
    · exact hnl (List.mem_of_getElem? hget)
  obtain ⟨segment, hfits, hsegment, hstore⟩ :=
    run_store pool rented pre (List.replicate spare 0) hdata queue s
  rw [run_receiveLoop_succ pool cb maxLength _ n pre queue rented s hdata hone,
    findIdx?_cleared hnl, readBytes, if_neg hloose]
  dsimp only
  rw [run_bind_ok hstore]
  exact frames_store hq hnl hfits hsegment hloose

/-- **The loop** frames what waited together with the bytes that are left. -/
theorem frames_receiveLoop (pool : ArrayPool) (cb : Callbacks σ) (maxLength : Option ℕ)
    (spare : ℕ) : ∀ (n : ℕ) (pre data : List UInt8) (queue : List PooledArraySegment) (rented : ℕ)
    (s : σ), data.length ≤ n → Stored queue → (data = [] → queue = []) →
    Frames cb maxLength (spare = 0 ∧ EndsTight data) (pending queue ++ readBytes spare data) s
      ((receiveLoop pool cb maxLength (pre ++ data ++ List.replicate spare 0)
        (pre.length + data.length) false n pre.length data.length rented).run (queue, s)) := by
  intro n
  induction n with
  | zero =>
    intro pre data queue rented s hn hq hd
    obtain rfl := List.eq_nil_of_length_eq_zero (Nat.le_zero.mp hn)
    obtain rfl := hd rfl
    exact frames_done cb maxLength spare s
  | succ n ih =>
    intro pre data queue rented s hn hq hd
    by_cases hdata : data = []
    · subst hdata
      obtain rfl := hd rfl
      rw [receiveLoop]
      exact frames_done cb maxLength spare s
    by_cases hone : spare = 0 ∧ data.length = 1
    · obtain ⟨rfl, hlen⟩ := hone
      obtain ⟨x, rfl⟩ := List.length_eq_one_iff.mp hlen
      rw [receiveLoop, if_neg (by simp), List.replicate_zero, List.append_nil,
        run_bind_error (run_ofExcept_error (indexOf_append_singleton pre x 0x0a) _)]
      exact frames_singleton hq x s
    by_cases hnl : 0x0a ∈ data
    · obtain ⟨seg, data, rfl, hseg⟩ := List.eq_append_cons_of_mem hnl
      rw [List.length_append, List.length_cons] at hn
      exact frames_newline pool cb maxLength pre rented s hq hseg hone fun s' =>
        ih (pre ++ seg ++ [0x0a]) data [] (rented + 1) s' (by omega) stored_nil fun _ => rfl
    · exact frames_no_newline pool cb maxLength pre rented s hq hdata hnl hone

/-! ## Whole streams -/

/-- A chunk, and the pool its `Receive` rents from. -/
structure Chunk where
  data : List UInt8
  pool : ArrayPool

/-- The bytes the array rented for the chunk has more than the chunk. -/
def Chunk.spare (c : Chunk) : ℕ := (c.pool.rent 0 c.data.length).length - c.data.length

/-- The chunk fills its array, and one byte comes behind its last newline. -/
def Chunk.Tight (c : Chunk) : Prop := c.spare = 0 ∧ EndsTight c.data

instance (c : Chunk) : Decidable c.Tight := inferInstanceAs (Decidable (_ ∧ _))

/-- The bytes of a chunk that are read: all of them, or all but the last. -/
def Chunk.received (c : Chunk) : List UInt8 := readBytes c.spare c.data

theorem Chunk.received_of_not_tight {c : Chunk} (h : ¬ c.Tight) : c.received = c.data := if_neg h

/-- A chunk that is not too long is read into an array that is cleared behind it. -/
theorem run_receive (cb : Callbacks σ) {maxLength : Option ℕ} {c : Chunk} (hne : c.data ≠ [])
    (hmax : ∀ m, maxLength = some m → c.data.length ≤ m) (forceNewLine : Bool)
    (queue : List PooledArraySegment) (s : σ) :
    (receive c.pool cb maxLength c.data forceNewLine).run (queue, s) =
      (receiveLoop c.pool cb maxLength (c.data ++ List.replicate c.spare 0) c.data.length
        forceNewLine c.data.length 0 c.data.length 1).run (queue, s) := by
  have hfilter : (maxLength.filter fun m => m < c.data.length) = none := by
    cases maxLength with
    | none => rfl
    | some m => simpa using hmax m rfl
  have hroom := c.pool.length_rent 0 c.data.length
  have hcopy : arrayCopy c.data 0 ((c.pool.rent 0 c.data.length).take c.data.length ++
      List.replicate c.spare 0) 0 c.data.length = .ok (c.data ++ List.replicate c.spare 0) := by
    rw [arrayCopy_ok (by omega) (by simp; omega), List.take_zero, List.nil_append, List.drop_zero,
      List.take_length, Nat.zero_add, List.drop_left' (by simpa using hroom)]
  unfold receive
  dsimp only
  rw [if_neg (mt List.eq_nil_of_length_eq_zero hne), hfilter]
  dsimp only
  rw [show (c.pool.rent 0 c.data.length).length - c.data.length = c.spare from rfl,
    run_bind_ok (run_ofExcept_ok hcopy _)]

/-- **`Receive`** frames what waited together with the chunk. -/
theorem receive_spec (cb : Callbacks σ) {maxLength : Option ℕ} {c : Chunk} (hne : c.data ≠ [])
    (hmax : ∀ m, maxLength = some m → c.data.length ≤ m) {queue : List PooledArraySegment}
    (hq : Stored queue) (s : σ) :
    Frames cb maxLength c.Tight (pending queue ++ c.received) s
      ((receive c.pool cb maxLength c.data false).run (queue, s)) := by
  have hloop := frames_receiveLoop c.pool cb maxLength c.spare c.data.length [] c.data queue 1 s
    le_rfl hq fun h => absurd h hne
  rw [List.nil_append, List.length_nil, Nat.zero_add] at hloop
  rw [run_receive cb hne hmax]
  exact hloop

/-- The chunks of a stream are received one after the other. -/
def receiveAll (cb : Callbacks σ) (maxLength : Option ℕ) (chunks : List Chunk) :
    Receiving σ Unit :=
  forM chunks fun c => receive c.pool cb maxLength c.data false

/-- What callbacks that only record are given. -/
structure Received where
  lines : List (List UInt8)
  errors : List String

/-- Callbacks that record what they are given. -/
def recording : Callbacks Received where
  onNext line := modify fun w => { w with lines := w.lines ++ [line] }
  onError message := modify fun w => { w with errors := w.errors ++ [message] }

theorem run_forM_recording (ls : List (List UInt8)) (w : Received) :
    (forM ls recording.onNext).run w = .ok () { w with lines := w.lines ++ ls } := by
  induction ls generalizing w with
  | nil => rw [List.append_nil]; rfl
  | cons l ls ih =>
    have hnext : (recording.onNext l).run w = .ok () { w with lines := w.lines ++ [l] } := rfl
    rw [List.forM_cons, run_bind_ok hnext, ih, List.append_assoc]
    rfl

theorem run_checkFlooding_recording (maxLength : Option ℕ) (queue : List PooledArraySegment)
    (w : Received) : ∃ errors,
      (checkFlooding recording maxLength).run (queue, w) = .ok () (queue, ⟨w.lines, errors⟩) := by
  unfold checkFlooding
  rw [EStateM.run_bind, EStateM.run_get]
  dsimp only
  split
  · exact ⟨_, rfl⟩
  · exact ⟨_, rfl⟩

/-- A tight chunk is not received. -/
theorem receive_of_tight {maxLength : Option ℕ} {c : Chunk} (hne : c.data ≠ [])
    (hmax : ∀ m, maxLength = some m → c.data.length ≤ m) {queue : List PooledArraySegment}
    (hq : Stored queue) (w : Received) (h : c.Tight) :
    ∃ s, (receive c.pool recording maxLength c.data false).run (queue, w) =
      .error .argumentOutOfRange s := by
  have hspec := receive_spec recording hne hmax hq w
  unfold Frames at hspec
  rw [run_forM_recording] at hspec
  obtain ⟨queue', -, -, herror, -⟩ := hspec
  exact ⟨_, herror h⟩

/-- A chunk that is not tight gives its lines. -/
theorem receive_of_not_tight {maxLength : Option ℕ} {c : Chunk} (hne : c.data ≠ [])
    (hmax : ∀ m, maxLength = some m → c.data.length ≤ m) {queue : List PooledArraySegment}
    (hq : Stored queue) (w : Received) (h : ¬ c.Tight) :
    ∃ queue' errors, Stored queue' ∧ pending queue' = rest 0x0a (pending queue ++ c.data) ∧
      (receive c.pool recording maxLength c.data false).run (queue, w) =
        .ok () (queue', ⟨w.lines ++ lines 0x0a (pending queue ++ c.data), errors⟩) := by
  have hspec := receive_spec recording hne hmax hq w
  unfold Frames at hspec
  rw [run_forM_recording, Chunk.received_of_not_tight h] at hspec
  obtain ⟨queue', hq', hpending, -, hok⟩ := hspec
  obtain ⟨errors, hcheck⟩ := run_checkFlooding_recording maxLength queue'
    { w with lines := w.lines ++ lines 0x0a (pending queue ++ c.data) }
  exact ⟨queue', errors, hq', hpending, (hok h).trans hcheck⟩

/-- The bytes of a stream. -/
def stream (chunks : List Chunk) : List UInt8 := chunks.flatMap (·.data)

/-- A run over chunks that are not tight frames what waited together with the stream. -/
theorem receiveAll_of_not_tight {maxLength : Option ℕ} {chunks : List Chunk}
    (hne : ∀ c ∈ chunks, c.data ≠ [])
    (hmax : ∀ c ∈ chunks, ∀ m, maxLength = some m → c.data.length ≤ m)
    (h : ∀ c ∈ chunks, ¬ c.Tight) {queue : List PooledArraySegment} (hq : Stored queue)
    (w : Received) :
    ∃ queue' errors, Stored queue' ∧
      pending queue' = rest 0x0a (pending queue ++ stream chunks) ∧
      (receiveAll recording maxLength chunks).run (queue, w) =
        .ok () (queue', ⟨w.lines ++ lines 0x0a (pending queue ++ stream chunks), errors⟩) := by
  induction chunks generalizing queue w with
  | nil =>
    refine ⟨queue, w.errors, hq, ?_, ?_⟩
    · rw [stream, List.flatMap_nil, List.append_nil, rest_of_notMem hq.noNewline]
    · rw [stream, List.flatMap_nil, List.append_nil, lines_of_notMem hq.noNewline, List.append_nil]
      rfl
  | cons c chunks ih =>
    obtain ⟨queue₁, errors₁, hq₁, hpending₁, hrun₁⟩ :=
      receive_of_not_tight (hne c List.mem_cons_self) (hmax c List.mem_cons_self) hq w
        (h c List.mem_cons_self)
    obtain ⟨queue₂, errors₂, hq₂, hpending₂, hrun₂⟩ :=
      ih (fun c hc => hne c (List.mem_cons_of_mem _ hc))
        (fun c hc => hmax c (List.mem_cons_of_mem _ hc))
        (fun c hc => h c (List.mem_cons_of_mem _ hc)) hq₁
        ⟨w.lines ++ lines 0x0a (pending queue ++ c.data), errors₁⟩
    have hstream : pending queue ++ stream (c :: chunks) =
        pending queue ++ c.data ++ stream chunks := by
      rw [stream, List.flatMap_cons, List.append_assoc]
      rfl
    refine ⟨queue₂, errors₂, hq₂, ?_, ?_⟩
    · rw [hpending₂, hpending₁, hstream, rest_append (pending queue ++ c.data)]
    · unfold receiveAll at hrun₂ ⊢
      rw [List.forM_cons, run_bind_ok hrun₁, hrun₂, hpending₁, hstream,
        lines_append (pending queue ++ c.data), List.append_assoc]

/-- A run over a tight chunk ends with an exception. -/
theorem receiveAll_of_tight {maxLength : Option ℕ} {chunks : List Chunk}
    (hne : ∀ c ∈ chunks, c.data ≠ [])
    (hmax : ∀ c ∈ chunks, ∀ m, maxLength = some m → c.data.length ≤ m)
    (h : ∃ c ∈ chunks, c.Tight) {queue : List PooledArraySegment} (hq : Stored queue)
    (w : Received) :
    ∃ s, (receiveAll recording maxLength chunks).run (queue, w) =
      .error .argumentOutOfRange s := by
  induction chunks generalizing queue w with
  | nil => exact absurd h (by simp)
  | cons c chunks ih =>
    unfold receiveAll at ih ⊢
    rw [List.forM_cons]
    by_cases hc : c.Tight
    · obtain ⟨s, hs⟩ := receive_of_tight (hne c List.mem_cons_self) (hmax c List.mem_cons_self) hq
        w hc
      exact ⟨s, run_bind_error hs⟩
    · obtain ⟨queue₁, errors₁, hq₁, -, hrun₁⟩ :=
        receive_of_not_tight (hne c List.mem_cons_self) (hmax c List.mem_cons_self) hq w hc
      have hrest : ∃ c ∈ chunks, c.Tight := by
        obtain ⟨d, hd, htight⟩ := h
        rcases List.mem_cons.mp hd with rfl | hd
        · exact absurd htight hc
        · exact ⟨d, hd, htight⟩
      rw [run_bind_ok hrun₁]
      exact ih (fun c hc => hne c (List.mem_cons_of_mem _ hc))
        (fun c hc => hmax c (List.mem_cons_of_mem _ hc)) hrest hq₁ _

/-- The run over the chunks does not throw, hands over the lines of the stream, and keeps what comes
behind its last newline. -/
def FramesStream (maxLength : Option ℕ) (chunks : List Chunk) : Prop :=
  ∃ queue w, (receiveAll recording maxLength chunks).run ([], ⟨[], []⟩) = .ok () (queue, w) ∧
    w.lines = lines 0x0a (stream chunks) ∧ pending queue = rest 0x0a (stream chunks)

/-- **The lines do not depend on the chunks** exactly when no chunk is tight. -/
theorem framesStream_iff {maxLength : Option ℕ} {chunks : List Chunk}
    (hne : ∀ c ∈ chunks, c.data ≠ [])
    (hmax : ∀ c ∈ chunks, ∀ m, maxLength = some m → c.data.length ≤ m) :
    FramesStream maxLength chunks ↔ ∀ c ∈ chunks, ¬ c.Tight := by
  constructor
  · rintro ⟨queue, w, hrun, -⟩ c hc htight
    obtain ⟨s, hs⟩ := receiveAll_of_tight hne hmax ⟨c, hc, htight⟩ stored_nil ⟨[], []⟩
    exact absurd (hrun.symm.trans hs) (by simp)
  · intro h
    obtain ⟨queue, errors, -, hpending, hrun⟩ :=
      receiveAll_of_not_tight hne hmax h stored_nil ⟨[], []⟩
    exact ⟨queue, _, hrun, rfl, hpending⟩

/-- A pool whose arrays have the length asked for, and sixteen bytes at least. -/
def samplePool : ArrayPool where
  rent _ n := List.replicate (max 16 n) 0
  length_rent _ n := by
    rw [List.length_replicate]
    exact le_max_right 16 n

/-- Two lines in three chunks. -/
theorem framesStream_two_lines :
    FramesStream (some 0x8000)
      [⟨[0x61], samplePool⟩, ⟨[0x62, 0x0a, 0x0a, 0x63], samplePool⟩, ⟨[0x0a], samplePool⟩] :=
  (framesStream_iff (by decide) (by
    rintro c hc m hm
    obtain rfl := Option.some.inj hm
    revert c
    decide)).mpr (by decide +kernel)

/-- Sixteen bytes fill their array, and one comes behind the newline: it is lost. -/
theorem not_framesStream_sixteen :
    ∃ chunks : List Chunk, (∀ c ∈ chunks, c.data ≠ [] ∧ c.data.length ≤ 0x8000) ∧
      ¬ FramesStream (some 0x8000) chunks := by
  refine ⟨[⟨List.replicate 14 0x61 ++ [0x0a, 0x62], samplePool⟩], by decide, ?_⟩
  rintro ⟨queue, w, hrun, -⟩
  have hthrows : ∃ s, (receiveAll recording (some 0x8000)
      [⟨List.replicate 14 0x61 ++ [0x0a, 0x62], samplePool⟩]).run ([], ⟨[], []⟩) =
      .error .argumentOutOfRange s := ⟨_, rfl⟩
  obtain ⟨s, hs⟩ := hthrows
  exact absurd (hrun.symm.trans hs) (by simp)

end AionPool.Util
