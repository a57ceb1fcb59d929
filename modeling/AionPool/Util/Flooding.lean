import AionPool.Lib.Run
import AionPool.Util.PooledLineBuffer

/-!
# The flooding limit of `PooledLineBuffer`

`Receive` refuses a chunk that is longer than `maxLength`, and reports an error when the bytes it
has stored are more than that. Neither check sees a line, which is assembled from both.

* `Limited`: a call hands over lines of at most `maxLength` bytes, and leaves at most as many
  waiting unless it reports an error.
* `Fits`: the bytes that wait and those of the chunk up to its first newline are at most
  `maxLength`.
* **`limited_iff_fits`**: the calls of a sequence keep the limit exactly if each of them fits.

About `PooledLineBuffer.cs:37-156`, call after call.
-/

namespace AionPool.Util

open AionPool.Lib.Effects AionPool.Lib.Framing AionPool.Lib.Run

/-! ## Calls -/

/-- A call of `Receive`. -/
structure ReceiveCall where
  chunk : Chunk
  forceNewLine : Bool

/-- The queue, and what the callbacks have recorded. -/
abbrev BufferState := List PooledArraySegment × Received

/-- The call, with `maxLength = m`. -/
def receiveCall (m : ℕ) (c : ReceiveCall) : Receiving Received Unit :=
  receive c.chunk.pool recording (some m) c.chunk.data c.forceNewLine

/-- The buffer goes on from the state a call leaves, however it ends. -/
def receiveStep (m : ℕ) (s : BufferState) (c : ReceiveCall) : Option BufferState :=
  some (after (receiveCall m c) s)

/-- `recvQueue.Sum(x => x.Size)`. -/
def waiting (s : BufferState) : ℕ := (s.1.map (·.size)).sum

/-- The call reports an error to `onError`, or throws. -/
def Reports (m : ℕ) (s : BufferState) (c : ReceiveCall) : Prop :=
  match (receiveCall m c).run s with
  | .ok _ s' => s'.2.errors ≠ s.2.errors
  | .error _ _ => True

/-- The lines the call hands to `onNext`. -/
def newLines (m : ℕ) (s : BufferState) (c : ReceiveCall) : List (List UInt8) :=
  (after (receiveCall m c) s).2.lines.drop s.2.lines.length

/-- A call within the limit. -/
structure Limited (m : ℕ) (s : BufferState) (c : ReceiveCall) : Prop where
  lines : ∀ line ∈ newLines m s c, line.length ≤ m
  waits : ¬ Reports m s c → waiting (after (receiveCall m c) s) ≤ m

/-- How many bytes of the chunk complete the first line: those before its first newline, and all of
them when a newline is forced; an array of one byte is not searched. -/
def ReceiveCall.completes (c : ReceiveCall) : Option ℕ :=
  if c.forceNewLine then
    if c.chunk.spare + c.chunk.data.length = 1 then none else some c.chunk.data.length
  else c.chunk.received.findIdx? (· == 0x0a)

/-- The first line of the chunk is short enough together with what waits for it. -/
def Fits (m : ℕ) (s : BufferState) (c : ReceiveCall) : Prop :=
  if c.chunk.data = [] then waiting s ≤ m
  else c.chunk.data.length ≤ m → ∀ n ∈ c.completes, waiting s + n ≤ m

instance (m : ℕ) (s : BufferState) (c : ReceiveCall) : Decidable (Fits m s c) := by
  unfold Fits
  infer_instance

/-! ## The lines of a chunk -/

/-- A line is no longer than the bytes it is cut from. -/
theorem length_le_of_mem_lines (s : List UInt8) :
    ∀ line ∈ lines 0x0a s, line.length ≤ s.length := by
  induction s using frame_induction (d := (0x0a : UInt8)) with
  | pending s hs =>
    rw [lines_of_notMem hs]
    exact fun _ h => absurd h List.not_mem_nil
  | frame u t hu ih =>
    rw [lines_append_cons hu]
    intro line hline
    rw [List.length_append, List.length_cons]
    rcases List.mem_append.mp hline with h | h
    · split at h
      · exact absurd h List.not_mem_nil
      · rw [List.mem_singleton.mp h]
        omega
    · have := ih line h
      omega

/-- Of the lines that what waits and a chunk make, only the first can be longer than the chunk. -/
theorem lines_le_iff {m : ℕ} {waits data : List UInt8} (hw : 0x0a ∉ waits)
    (hm : data.length ≤ m) :
    (∀ line ∈ lines 0x0a (waits ++ data), line.length ≤ m) ↔
      ∀ n ∈ data.findIdx? (· == 0x0a), waits.length + n ≤ m := by
  by_cases hd : 0x0a ∈ data
  · obtain ⟨u, t, rfl, hu⟩ := List.eq_append_cons_of_mem hd
    have hwu : 0x0a ∉ waits ++ u := fun h => (List.mem_append.mp h).elim hw hu
    rw [findIdx?_newline hu, ← List.append_assoc, lines_append_cons hwu]
    simp only [List.length_append, List.length_cons] at hm
    constructor
    · rintro h _ ⟨⟩
      cases hwaits : waits ++ u with
      | nil =>
        rw [← List.length_append, hwaits]
        exact Nat.zero_le m
      | cons x xs =>
        rw [hwaits] at h
        rw [← List.length_append, hwaits]
        exact h _ (List.mem_append_left _ List.mem_cons_self)
    · intro h line hline
      rcases List.mem_append.mp hline with hl | hl
      · split at hl
        · exact absurd hl List.not_mem_nil
        · rw [List.mem_singleton.mp hl, List.length_append]
          exact h u.length rfl
      · have := length_le_of_mem_lines t line hl
        omega
  · have hwd : 0x0a ∉ waits ++ data := fun h => (List.mem_append.mp h).elim hw hd
    have hnone : data.findIdx? (· == 0x0a) = none :=
      List.findIdx?_eq_none_iff.mpr fun x hx => beq_eq_false_iff_ne.mpr fun heq => hd (heq ▸ hx)
    rw [lines_of_notMem hwd, hnone]
    exact iff_of_true nofun nofun

theorem length_received_le (c : Chunk) : c.received.length ≤ c.data.length := by
  unfold Chunk.received readBytes
  split
  · rw [List.length_dropLast]
    exact Nat.sub_le _ _
  · exact le_rfl

/-! ## One call -/

/-- The check after something was stored. -/
theorem run_checkFlooding_some (m : ℕ) (queue : List PooledArraySegment) (w : Received) :
    (checkFlooding recording (some m)).run (queue, w) = .ok () (queue,
      if m < (queue.map (·.size)).sum then
        { w with errors := w.errors ++ ["Incoming request size exceeds maximum of " ++ toString m] }
      else w) := by
  unfold checkFlooding
  rw [EStateM.run_bind, EStateM.run_get]
  dsimp only
  by_cases h : m < (queue.map (·.size)).sum
  · have hfilter : (some m).filter (fun m => decide (m < (queue.map (·.size)).sum)) = some m := by
      simp [h]
    rw [hfilter, if_pos h]
    rfl
  · have hfilter : (some m).filter (fun m => decide (m < (queue.map (·.size)).sum)) = none := by
      simp [not_lt.mp h]
    rw [hfilter, if_neg h]
    rfl

/-- What a call is known by: the lines it hands over, and the queue it leaves. -/
structure Outcome (m : ℕ) (s : BufferState) (c : ReceiveCall) (ls : List (List UInt8)) : Prop where
  lines : (after (receiveCall m c) s).2.lines = s.2.lines ++ ls
  stored : Stored (after (receiveCall m c) s).1
  waits : ¬ Reports m s c → waiting (after (receiveCall m c) s) ≤ m

/-- A call is within the limit if its lines are. -/
theorem Outcome.limited_iff {m : ℕ} {s : BufferState} {c : ReceiveCall} {ls : List (List UInt8)}
    (h : Outcome m s c ls) : Limited m s c ↔ ∀ line ∈ ls, line.length ≤ m := by
  have hnew : newLines m s c = ls := by
    unfold newLines
    rw [h.lines, List.drop_left]
  exact ⟨fun hl => hnew ▸ hl.lines, fun hl => ⟨hnew ▸ hl, h.waits⟩⟩

/-- A chunk that is too long is refused. -/
theorem outcome_refused {m : ℕ} {s : BufferState} {c : ReceiveCall} (hs : Stored s.1)
    (hne : c.chunk.data ≠ []) (hlong : m < c.chunk.data.length) : Outcome m s c [] := by
  have hfilter : ((some m).filter fun m => decide (m < c.chunk.data.length)) = some m := by
    simp [hlong]
  have hrun : (receiveCall m c).run s = .ok () (s.1, { s.2 with
      errors := s.2.errors ++ ["Incoming data exceeds maximum of " ++ toString m] }) := by
    unfold receiveCall receive
    dsimp only
    rw [if_neg (mt List.eq_nil_of_length_eq_zero hne), hfilter]
    rfl
  refine ⟨?_, ?_, fun h => absurd ?_ h⟩
  · rw [after_ok hrun, List.append_nil]
  · rw [after_ok hrun]
    exact hs
  · unfold Reports
    rw [hrun]
    simp

/-- An empty chunk does nothing. -/
theorem run_receiveCall_nil {m : ℕ} {s : BufferState} {c : ReceiveCall} (h : c.chunk.data = []) :
    (receiveCall m c).run s = .ok () s := by
  unfold receiveCall receive
  rw [h]
  rfl

/-- A chunk is cut at its newlines, behind what waits. -/
theorem outcome_received {m : ℕ} {s : BufferState} {c : ReceiveCall} (hs : Stored s.1)
    (hne : c.chunk.data ≠ []) (hm : c.chunk.data.length ≤ m) (hforce : c.forceNewLine = false) :
    Outcome m s c (lines 0x0a (pending s.1 ++ c.chunk.received)) := by
  obtain ⟨queue, w⟩ := s
  have hmax : ∀ k, some m = some k → c.chunk.data.length ≤ k := fun _ h => Option.some.inj h ▸ hm
  have hspec := receive_spec recording hne hmax hs w
  have hcall : receiveCall m c = receive c.chunk.pool recording (some m) c.chunk.data false := by
    unfold receiveCall
    rw [hforce]
  unfold Frames at hspec
  rw [run_forM_recording, ← hcall] at hspec
  obtain ⟨queue', hq', -, htight, hloose⟩ := hspec
  by_cases ht : c.chunk.Tight
  · have hrun := htight ht
    refine ⟨by rw [after_error hrun], by rw [after_error hrun]; exact hq', fun h => absurd ?_ h⟩
    unfold Reports
    rw [hrun]
    trivial
  · have hrun := hloose ht
    rw [run_checkFlooding_some] at hrun
    refine ⟨?_, ?_, fun h => ?_⟩
    · rw [after_ok hrun]
      dsimp only
      split <;> rfl
    · rw [after_ok hrun]
      exact hq'
    · rw [after_ok hrun]
      by_cases hflood : m < (queue'.map (·.size)).sum
      · unfold Reports at h
        rw [hrun, if_pos hflood] at h
        exact absurd (by simp) h
      · exact not_lt.mp hflood

/-- The search before a forced newline: it fails on an array of one byte only. -/
theorem indexOf_array {data : List UInt8} (hne : data ≠ []) (spare : ℕ) :
    if spare + data.length = 1 then
      indexOf (data ++ List.replicate spare 0) 0x0a 0
        ((data ++ List.replicate spare 0).length - 0) = .error .argumentOutOfRange
    else ∃ index, indexOf (data ++ List.replicate spare 0) 0x0a 0
      ((data ++ List.replicate spare 0).length - 0) = .ok index := by
  have hlen : (data ++ List.replicate spare 0).length = spare + data.length := by
    rw [List.length_append, List.length_replicate, Nat.add_comm]
  have hpos := List.length_pos_of_ne_nil hne
  unfold indexOf
  rw [hlen]
  split
  · rw [if_neg (by omega)]
    rfl
  · rw [if_pos (by omega)]
    exact ⟨_, rfl⟩

/-- A forced newline ends a line with the chunk. -/
theorem outcome_forced {m : ℕ} {s : BufferState} {c : ReceiveCall} (hs : Stored s.1)
    (hne : c.chunk.data ≠ []) (hm : c.chunk.data.length ≤ m) (hforce : c.forceNewLine = true) :
    Outcome m s c (if c.chunk.spare + c.chunk.data.length = 1 then []
      else [pending s.1 ++ c.chunk.data]) := by
  obtain ⟨queue, w⟩ := s
  obtain ⟨n, hn⟩ := Nat.exists_eq_succ_of_ne_zero (List.length_pos_of_ne_nil hne).ne'
  have hcall : (receiveCall m c).run (queue, w) =
      (receiveLoop c.chunk.pool recording (some m)
        (c.chunk.data ++ List.replicate c.chunk.spare 0) c.chunk.data.length true (n + 1) 0
        (n + 1) 1).run (queue, w) := by
    unfold receiveCall
    rw [hforce, run_receive recording hne (fun _ h => Option.some.inj h ▸ hm), hn]
  have hindex := indexOf_array hne c.chunk.spare
  rw [receiveLoop, if_neg n.succ_ne_zero] at hcall
  split
  · rename_i hone
    rw [if_pos hone] at hindex
    rw [run_bind_error (run_ofExcept_error hindex _)] at hcall
    refine ⟨by rw [after_error hcall, List.append_nil], by rw [after_error hcall]; exact hs,
      fun h => absurd ?_ h⟩
    unfold Reports
    rw [hcall]
    trivial
  · rename_i hone
    rw [if_neg hone] at hindex
    obtain ⟨index, hindex⟩ := hindex
    have hassemble : (assembleLine c.chunk.pool recording 1
        ([] ++ c.chunk.data ++ List.replicate c.chunk.spare 0) ([] : List UInt8).length
        c.chunk.data.length).run (queue, w) =
          (callback (emit recording (pending queue ++ c.chunk.data))).run ([], w) :=
      run_assembleLine hs.fits
    have hemit : (callback (emit recording (pending queue ++ c.chunk.data))).run ([], w) =
        .ok () ([], { w with lines := w.lines ++ [pending queue ++ c.chunk.data] }) := by
      have hlong : (pending queue ++ c.chunk.data).isEmpty = false := by
        rw [List.isEmpty_eq_false_iff]
        exact List.append_ne_nil_of_right_ne_nil _ hne
      unfold emit
      rw [hlong]
      rfl
    rw [hemit, List.nil_append, List.length_nil] at hassemble
    rw [run_bind_ok (run_ofExcept_ok hindex _)] at hcall
    have hrun := hcall.trans hassemble
    exact ⟨by rw [after_ok hrun], by rw [after_ok hrun]; exact stored_nil,
      fun _ => by rw [after_ok hrun]; exact Nat.zero_le m⟩

theorem waiting_eq {s : BufferState} (hs : Stored s.1) : waiting s = (pending s.1).length :=
  sum_size hs.fits

/-- Every call leaves segments without a newline. -/
theorem stored_receiveStep {m : ℕ} {s s' : BufferState} {c : ReceiveCall} (hs : Stored s.1)
    (h : receiveStep m s c = some s') : Stored s'.1 := by
  obtain rfl := Option.some.inj h
  by_cases hne : c.chunk.data = []
  · rw [after_ok (run_receiveCall_nil hne)]
    exact hs
  by_cases hm : c.chunk.data.length ≤ m
  · cases hforce : c.forceNewLine with
    | false => exact (outcome_received hs hne hm hforce).stored
    | true => exact (outcome_forced hs hne hm hforce).stored
  · exact (outcome_refused hs hne (not_le.mp hm)).stored

/-- **A call keeps the limit exactly if it fits.** -/
theorem limited_iff_fits {m : ℕ} {s : BufferState} {c : ReceiveCall} (hs : Stored s.1) :
    Limited m s c ↔ Fits m s c := by
  unfold Fits
  split
  · rename_i hnil
    have hrun := run_receiveCall_nil (m := m) (s := s) hnil
    have hquiet : ¬ Reports m s c := by
      unfold Reports
      rw [hrun]
      exact fun h => h rfl
    have hnone : newLines m s c = [] := by
      unfold newLines
      rw [after_ok hrun, List.drop_length]
    constructor
    · intro h
      have hwaits := h.waits hquiet
      rwa [after_ok hrun] at hwaits
    · intro h
      refine ⟨hnone ▸ nofun, fun _ => ?_⟩
      rwa [after_ok hrun]
  · rename_i hne
    by_cases hm : c.chunk.data.length ≤ m
    · rw [forall_prop_of_true hm, waiting_eq hs]
      unfold ReceiveCall.completes
      cases hforce : c.forceNewLine with
      | false =>
        rw [(outcome_received hs hne hm hforce).limited_iff,
          lines_le_iff hs.noNewline ((length_received_le c.chunk).trans hm)]
        rfl
      | true =>
        rw [(outcome_forced hs hne hm hforce).limited_iff, if_pos rfl]
        split
        · exact iff_of_true nofun nofun
        · constructor
          · rintro h _ ⟨⟩
            rw [← List.length_append]
            exact h _ (List.mem_singleton_self _)
          · intro h line hline
            rw [List.mem_singleton.mp hline, List.length_append]
            exact h _ rfl
    · have hrefused := outcome_refused hs hne (not_le.mp hm)
      rw [hrefused.limited_iff]
      exact iff_of_true nofun fun h => absurd h hm

/-- The state of a new buffer. -/
def BufferState.empty : BufferState := ([], ⟨[], []⟩)

/-- **The calls of a sequence keep the limit exactly if each of them fits** in the state the ones
before it left. -/
theorem limited_along_iff (m : ℕ) (calls : List ReceiveCall) :
    Along (receiveStep m) (Limited m) BufferState.empty calls ↔
      Along (receiveStep m) (Fits m) BufferState.empty calls := by
  constructor
  · exact along_of_invariant (I := fun s => Stored s.1) (fun _ _ hs h => (limited_iff_fits hs).mp h)
      (fun _ _ _ hs _ h => stored_receiveStep hs h) stored_nil
  · exact along_of_invariant (I := fun s => Stored s.1)
      (fun _ _ hs h => (limited_iff_fits hs).mpr h)
      (fun _ _ _ hs _ h => stored_receiveStep hs h) stored_nil

/-- Four bytes that wait, and two more with the newline: a line of six bytes under a limit of
four, and no error. -/
theorem not_limited_four :
    let calls : List ReceiveCall :=
      [⟨⟨[0x61, 0x62, 0x63, 0x64], samplePool⟩, false⟩, ⟨⟨[0x65, 0x66, 0x0a], samplePool⟩, false⟩]
    ¬ Along (receiveStep 4) (Limited 4) BufferState.empty calls ∧
      (run (receiveStep 4) BufferState.empty calls).map Prod.snd =
        some ⟨[[0x61, 0x62, 0x63, 0x64, 0x65, 0x66]], []⟩ := by
  intro calls
  have hrun : (run (receiveStep 4) BufferState.empty calls).map Prod.snd =
      some ⟨[[0x61, 0x62, 0x63, 0x64, 0x65, 0x66]], []⟩ := rfl
  refine ⟨fun h => ?_, hrun⟩
  have hsecond := (h.2 _ rfl).1
  have hline := hsecond.lines [0x61, 0x62, 0x63, 0x64, 0x65, 0x66] (by
    have hnew : newLines 4 (after (receiveCall 4 ⟨⟨[0x61, 0x62, 0x63, 0x64], samplePool⟩, false⟩)
        BufferState.empty) ⟨⟨[0x65, 0x66, 0x0a], samplePool⟩, false⟩ =
        [[0x61, 0x62, 0x63, 0x64, 0x65, 0x66]] := rfl
    rw [hnew]
    exact List.mem_singleton_self _)
  exact absurd hline (by decide)

end AionPool.Util
