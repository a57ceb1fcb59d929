import AionPool.Native.Blake2b

/-!
# The state of `equi210/blake/blake2b.cpp`

* `blake2b_update210` fills the buffer of 128 bytes from each piece it is given;
  `blake2b_final210` pads it. The invariants of the buffer are fields of `Blake2bState`, so
  neither writes past its end.
* **`digest210_eq`**: while the counter of 16 bits can count the bytes, a digest is the chain over
  the blocks of the message, however it is cut.
* **`digests_agree`**: up to there this file and `sph_blake2b.c` compute the same digests, with and
  without a key.

Models `blake2b.cpp:48-116` and `:189-238`.
-/

namespace AionPool.Native

open AionPool.Lib.Bytes AionPool.Lib.Blocks

/-! ## Parameters and state -/

/-- `blake2b_param`. -/
structure Blake2bParam where
  digestLength : UInt8
  keyLength : UInt8
  fanout : UInt8
  depth : UInt8
  leafLength : UInt32
  nodeOffset : UInt64
  nodeDepth : UInt8
  innerLength : UInt8
  reserved : Vector UInt8 14
  salt : Vector UInt8 16
  personal : Vector UInt8 16

/-- The bytes of the packed structure. -/
def Blake2bParam.bytes (p : Blake2bParam) : List UInt8 :=
  [p.digestLength, p.keyLength, p.fanout, p.depth] ++ Lib.Bytes.bytes 4 p.leafLength.toNat ++
    Lib.Bytes.bytes 8 p.nodeOffset.toNat ++ [p.nodeDepth, p.innerLength] ++ p.reserved.toList ++
    p.salt.toList ++ p.personal.toList

/-- `blake2b_state`: `buflen` bytes of the buffer wait. -/
structure Blake2bState where
  h : Words
  buf : List UInt8
  counter : UInt16
  buflen : ℕ
  lastblock : Bool
  length_buf : buf.length = 128
  buflen_le : buflen ≤ 128

namespace Blake2b210

/-- An empty buffer fits. -/
theorem empty_le_buffer : 0 ≤ 128 := Nat.zero_le _

/-- `blake2b_init_param`: the initialization vector and the parameters, byte by byte. -/
def initParam (p : Blake2bParam) : Blake2bState where
  h :=
    let bs := List.zipWith (· ^^^ ·) (Blake2b.wordBytes Blake2b.iv) p.bytes
    Vector.ofFn fun i => loadWord bs i
  buf := List.replicate 128 0
  counter := 0
  buflen := 0
  lastblock := false
  length_buf := List.length_replicate
  buflen_le := empty_le_buffer

/-- The parameters of a sequential hash. -/
def sequential (outlen keylen : UInt8) : Blake2bParam where
  digestLength := outlen
  keyLength := keylen
  fanout := 1
  depth := 1
  leafLength := 0
  nodeOffset := 0
  nodeDepth := 0
  innerLength := 0
  reserved := Vector.replicate 14 0
  salt := Vector.replicate 16 0
  personal := Vector.replicate 16 0

/-- `blake2b_init210`. -/
def init210 (outlen : UInt8) : Option Blake2bState :=
  if outlen = 0 ∨ 64 < outlen then none else some (initParam (sequential outlen 0))

/-- The buffer is filled and compressed. -/
def fillBuffer (build : Build) (S : Blake2bState) (input : List UInt8)
    (h : S.buflen + input.length = 128) : Blake2bState :=
  let buf := S.buf.take S.buflen ++ input
  let counter := S.counter + 128
  { h := compress build S.h buf counter S.lastblock
    buf := buf
    counter := counter
    buflen := 0
    lastblock := S.lastblock
    length_buf := by
      have := S.length_buf
      rw [List.length_append, List.length_take]
      omega
    buflen_le := empty_le_buffer }

/-- Bytes there is room for are copied behind those that wait. -/
def copy (S : Blake2bState) (input : List UInt8) (h : S.buflen + input.length ≤ 128) :
    Blake2bState :=
  { S with
    buf := S.buf.take S.buflen ++ input ++ S.buf.drop (S.buflen + input.length)
    buflen := S.buflen + input.length
    length_buf := by
      have := S.length_buf
      rw [List.length_append, List.length_append, List.length_take, List.length_drop]
      omega
    buflen_le := h }

/-- `blake2b_update210`. -/
def update210 (build : Build) (S : Blake2bState) (input : List UInt8) : Blake2bState :=
  if h : 128 - S.buflen < input.length then
    let fill := 128 - S.buflen
    update210 build
      (fillBuffer build S (input.take fill) (by
        have := S.buflen_le
        rw [List.length_take]
        omega))
      (input.drop fill)
  else copy S input (by have := S.buflen_le; omega)
termination_by input.length + S.buflen
decreasing_by
  have := S.buflen_le
  rw [List.length_drop]
  change _ + 0 < _
  omega

/-- `blake2b_init_key`: the key comes first, in a block of its own. -/
def initKey (build : Build) (outlen : UInt8) (key : List UInt8) : Option Blake2bState :=
  if outlen = 0 ∨ 64 < outlen then none
  else if key.length = 0 ∨ 64 < key.length then none
  else
    let S := initParam (sequential outlen (UInt8.ofNat key.length))
    some (update210 build S (key ++ List.replicate (128 - key.length) 0))

/-- `blake2b_final210`: the digest, and what is left of the state. A buffer never holds more than a
block. -/
def final210 (build : Build) (S : Blake2bState) (outlen : ℕ) : Option (List UInt8 × Blake2bState) :=
  if 64 < outlen then none
  else
    let counter := S.counter + UInt16.ofNat S.buflen
    let buf := S.buf.take S.buflen ++ List.replicate (128 - S.buflen) 0
    let h := compress build S.h buf counter true
    some ((Blake2b.wordBytes h).take outlen,
      { S with
        h := h
        counter := counter
        buf := buf
        lastblock := false
        length_buf := by
          have := S.length_buf
          have := S.buflen_le
          rw [List.length_append, List.length_take, List.length_replicate]
          omega })

/-- What `blake2b210` starts with: a key of no bytes is no key. -/
def start (build : Build) (outlen : UInt8) (key : List UInt8) : Option Blake2bState :=
  if 0 < key.length then initKey build outlen key else init210 outlen

/-- `blake2b210`. -/
def blake2b210 (build : Build) (outlen : UInt8) (key input : List UInt8) : Option (List UInt8) := do
  let S ← start build outlen key
  let (out, _) ← final210 build (update210 build S input) outlen.toNat
  return out

/-! ## The state as a stream -/

/-- A block that is not the last one. The count is cut to 16 bits. -/
def compressAt (build : Build) (h : Words) (count : ℕ) (block : List UInt8) : Words :=
  compress build h block (UInt16.ofNat count) false

/-- The last block. -/
def finish (build : Build) (s : Absorber Words UInt8) : Words :=
  compress build s.state (s.buf ++ List.replicate (128 - s.buf.length) 0)
    (UInt16.ofNat (s.count + s.buf.length)) true

structure Represents (S : Blake2bState) (s : Absorber Words UInt8) : Prop where
  state : S.h = s.state
  buf : S.buf.take S.buflen = s.buf
  counter : S.counter = UInt16.ofNat s.count
  lastblock : S.lastblock = false

namespace Represents

variable {build : Build} {S : Blake2bState} {s : Absorber Words UInt8}

theorem length_buf (h : Represents S s) : s.buf.length = S.buflen := by
  rw [← h.buf, List.length_take, S.length_buf]
  exact Nat.min_eq_left S.buflen_le

theorem fillBuffer {input : List UInt8} (h : Represents S s)
    (hfull : S.buflen + input.length = 128) :
    Represents (fillBuffer build S input hfull)
      (s.flush 128 (compressAt build) (s.buf ++ input)) := by
  have hcounter : S.counter + 128 = UInt16.ofNat (s.count + 128) := by
    rw [h.counter, UInt16.ofNat_add]
    rfl
  refine ⟨?_, rfl, hcounter, h.lastblock⟩
  change compress build S.h (S.buf.take S.buflen ++ input) (S.counter + 128) S.lastblock = _
  rw [hcounter, h.state, h.buf, h.lastblock]
  rfl

theorem copy {input : List UInt8} (h : Represents S s) (hfits : S.buflen + input.length ≤ 128) :
    Represents (copy S input hfits) { s with buf := s.buf ++ input } := by
  refine ⟨h.state, ?_, h.counter, h.lastblock⟩
  change (S.buf.take S.buflen ++ input ++ S.buf.drop (S.buflen + input.length)).take
    (S.buflen + input.length) = s.buf ++ input
  rw [h.buf, List.take_left' (by rw [List.length_append, h.length_buf])]

/-- The run lemma: a piece is taken as the stream takes it. -/
theorem update210 (hn : 0 < 128) (h : Represents S s) (input : List UInt8) :
    Represents (update210 build S input) (absorb 128 (compressAt build) hn s input) := by
  induction S, input using Blake2b210.update210.induct build generalizing s with
  | case1 S input hlt fill =>
    rename_i ih
    rw [Blake2b210.update210, dif_pos hlt, absorb, if_pos (by rwa [h.length_buf]), h.length_buf]
    exact ih (h.fillBuffer _)
  | case2 S input hle =>
    rw [Blake2b210.update210, dif_neg hle, absorb, if_neg (by rwa [h.length_buf])]
    exact h.copy _

theorem final210_eq (h : Represents S s) {outlen : ℕ} (hle : outlen ≤ 64) :
    (final210 build S outlen).map Prod.fst =
      some ((Blake2b.wordBytes (finish build s)).take outlen) := by
  have hcounter : S.counter + UInt16.ofNat S.buflen = UInt16.ofNat (s.count + s.buf.length) := by
    rw [h.counter, h.length_buf, UInt16.ofNat_add]
  unfold final210 finish
  rw [if_neg (Nat.not_lt.mpr hle)]
  dsimp only [Option.map_some]
  rw [hcounter, h.buf, h.state, h.length_buf]

end Represents

theorem initParam_represents (p : Blake2bParam) :
    Represents (initParam p) ⟨(initParam p).h, 0, []⟩ := ⟨rfl, rfl, rfl, rfl⟩

/-- Counts of 16 bits are counted as `sph_blake2b.c` counts them. -/
theorem toUInt64_ofNat {count : ℕ} (hlt : count < 2 ^ 16) :
    (UInt16.ofNat count).toUInt64 = UInt64.ofNat count ∧ UInt64.ofNat (count / 2 ^ 64) = 0 := by
  constructor
  · refine UInt64.toNat_inj.mp ?_
    rw [UInt16.toNat_toUInt64, UInt16.toNat_ofNat', UInt64.toNat_ofNat']
    omega
  · rw [Nat.div_eq_of_lt (by omega)]
    rfl

theorem compressAt_eq (build : Build) (h : Words) {count : ℕ} (hlt : count < 2 ^ 16)
    (block : List UInt8) : compressAt build h count block = Blake2b.compressAt h count block := by
  obtain ⟨hlow, hhigh⟩ := toUInt64_ofNat hlt
  unfold compressAt Blake2b.compressAt
  rw [compress_eq, hlow, hhigh]

theorem finish_eq (build : Build) (s : Absorber Words UInt8)
    (hlt : s.count + s.buf.length < 2 ^ 16) : finish build s = Blake2b.finish s := by
  obtain ⟨hlow, hhigh⟩ := toUInt64_ofNat hlt
  unfold finish Blake2b.finish
  rw [compress_eq, hlow, hhigh]

/-- What a message of fewer than 65536 bytes leaves is what it leaves of `sph_blake2b.c`. -/
theorem after_eq (build : Build) (h : Words) {m : List UInt8} (hlt : m.length < 2 ^ 16) :
    after 128 (compressAt build) h m = after 128 Blake2b.compressAt h m := by
  have hle : fullBlocks 128 m * 128 ≤ m.length := by
    unfold fullBlocks
    omega
  unfold after
  rw [chain_congr h m fun t c block hc => compressAt_eq build t (by omega) block]

theorem count_after (compress : Words → ℕ → List UInt8 → Words) (h : Words) (m : List UInt8) :
    (after 128 compress h m).count + (after 128 compress h m).buf.length = m.length := by
  change fullBlocks 128 m * 128 + (m.drop (fullBlocks 128 m * 128)).length = m.length
  unfold fullBlocks
  rw [List.length_drop]
  omega

/-- **The digest** of fewer than 65536 bytes, however they are cut. -/
theorem digest210_eq (build : Build) {S : Blake2bState} {h : Words} {first : List UInt8}
    (hS : Represents S (after 128 (compressAt build) h first)) (pieces : List (List UInt8))
    {outlen : ℕ} (hout : outlen ≤ 64) (hlt : (first ++ pieces.flatten).length < 2 ^ 16) :
    (final210 build (pieces.foldl (update210 build) S) outlen).map Prod.fst =
      some (Blake2b.hashFrom h outlen (first ++ pieces.flatten)) := by
  have hn : 0 < 128 := by decide
  have hrun : ∀ (pieces : List (List UInt8)) (S : Blake2bState) (s : Absorber Words UInt8),
      Represents S s → Represents (pieces.foldl (update210 build) S)
        (pieces.foldl (absorb 128 (compressAt build) hn) s) := by
    intro pieces
    induction pieces with
    | nil => exact fun S s hS => hS
    | cons piece pieces ih => exact fun S s hS => ih _ _ (hS.update210 hn piece)
  have hend := hrun pieces S _ hS
  rw [foldl_absorb_after, after_eq build h hlt] at hend
  rw [hend.final210_eq hout, finish_eq build _ (by rwa [count_after])]
  rfl

/-! ## With the parameters of `sph_blake2b.c` -/

/-- The words of an exclusive or, byte by byte. -/
theorem loadWord_xor {bs cs : List UInt8} (h : bs.length = cs.length) (i : ℕ) :
    loadWord (List.zipWith (· ^^^ ·) bs cs) i = loadWord bs i ^^^ loadWord cs i := by
  unfold loadWord
  rw [List.drop_zipWith, List.take_zipWith, Lib.Bits.unsigned_xor (by
    rw [List.length_take, List.length_take, List.length_drop, List.length_drop, h]),
    UInt64.ofNat_xor]

theorem length_wordBytes (h : Words) : (Blake2b.wordBytes h).length = 64 := by
  unfold Blake2b.wordBytes
  rw [length_flatMap (fun w => length_bytes 8 (UInt64.toNat w)), Vector.length_toList]

theorem loadWord_wordBytes (h : Words) {i : ℕ} (hi : i < 8) :
    loadWord (Blake2b.wordBytes h) i = h[i] := by
  have hlt : i < h.toList.length := by
    rw [Vector.length_toList]
    exact hi
  unfold loadWord Blake2b.wordBytes
  rw [take_drop_flatMap (fun w => length_bytes 8 w.toNat) h.toList i hlt,
    unsigned_bytes (UInt64.toNat_lt _), UInt64.ofNat_toNat, Vector.getElem_toList]

/-- The packed parameters: the lengths, two ones, and zeros. -/
theorem sequential_bytes (outlen keylen : UInt8) :
    (sequential outlen keylen).bytes = [outlen, keylen, 1, 1] ++ List.replicate 60 0 := by
  have hzero : ∀ k, Lib.Bytes.bytes k 0 = List.replicate k 0 := by
    intro k
    induction k with
    | zero => rfl
    | succ k ih =>
      rw [Lib.Bytes.bytes, Nat.zero_div, ih]
      rfl
  unfold Blake2bParam.bytes sequential
  dsimp only
  rw [show (0 : UInt32).toNat = 0 from rfl, show (0 : UInt64).toNat = 0 from rfl, hzero, hzero,
    Vector.toList_replicate, Vector.toList_replicate]
  rfl

/-- The lengths are in the first word. -/
theorem loadWord_sequential (outlen keylen : UInt8) (i : ℕ) :
    loadWord (sequential outlen keylen).bytes i =
      if i = 0 then (0x01010000 : UInt64) ^^^ (UInt64.ofNat keylen.toNat <<< 8) ^^^
        UInt64.ofNat outlen.toNat
      else 0 := by
  have hzeros : ∀ k, unsigned (List.replicate k 0) = 0 := fun k => unsigned_append_zeros [] k
  unfold loadWord
  rw [sequential_bytes]
  split
  · rename_i hi
    subst hi
    have ho := outlen.toNat_lt
    have hk := keylen.toNat_lt
    have hfirst : (([outlen, keylen, 1, 1] ++ List.replicate 60 (0 : UInt8)).drop (8 * 0)).take 8 =
        [outlen, keylen, 1, 1] ++ List.replicate 4 0 := rfl
    have hvalue : (0x01010000 : ℕ) ^^^ 2 ^ 8 * keylen.toNat ^^^ outlen.toNat =
        outlen.toNat + 256 * (keylen.toNat + 256 * (1 + 256 * 1)) := by
      rw [show (0x01010000 : ℕ) = 2 ^ 16 * 0x101 from rfl, Nat.xor_comm (2 ^ 16 * 0x101),
        Nat.xor_comm _ outlen.toNat, ← Nat.xor_assoc, Lib.Bits.xor_shifted ho,
        Lib.Bits.xor_shifted (k := 16) (by omega)]
      omega
    rw [hfirst, unsigned_append_zeros, unsigned_cons, unsigned_cons, unsigned_cons, unsigned_cons,
      unsigned_nil]
    refine UInt64.toNat_inj.mp ?_
    have hshift : (UInt64.ofNat keylen.toNat <<< 8).toNat = 2 ^ 8 * keylen.toNat := by
      have h := toNat_shifted_byte keylen (c := 8) (by decide)
      rwa [show keylen.toUInt64 = UInt64.ofNat keylen.toNat from UInt64.toNat_inj.mp (by
        rw [UInt8.toNat_toUInt64, UInt64.toNat_ofNat', Nat.mod_eq_of_lt (by omega)])] at h
    have hconst : (0x01010000 : UInt64).toNat = 0x01010000 := rfl
    have hone : (1 : UInt8).toNat = 1 := rfl
    rw [UInt64.toNat_xor, UInt64.toNat_xor, hshift, hconst,
      UInt64.toNat_ofNat_of_lt' (n := outlen.toNat) (by change _ < 2 ^ 64; omega), hvalue, hone,
      Nat.mul_zero, Nat.add_zero, UInt64.toNat_ofNat', Nat.mod_eq_of_lt (by omega)]
  · rename_i hi
    rw [List.drop_append, List.drop_eq_nil_of_le (by simp; omega), List.nil_append,
      List.drop_replicate, List.take_replicate, hzeros]
    rfl

/-- The parameters, byte by byte, are those `sph_blake2b.c` puts into the first word. -/
theorem initParam_h (outlen keylen : UInt8) :
    (initParam (sequential outlen keylen)).h = Blake2b.initialH outlen.toNat keylen.toNat := by
  have hlen : (Blake2b.wordBytes Blake2b.iv).length = (sequential outlen keylen).bytes.length := by
    rw [length_wordBytes, sequential_bytes]
    rfl
  refine Vector.ext fun i hi => ?_
  have hword : (initParam (sequential outlen keylen)).h[i] =
      Blake2b.iv[i] ^^^ loadWord (sequential outlen keylen).bytes i := by
    change (Vector.ofFn fun i : Fin 8 => loadWord (List.zipWith (· ^^^ ·)
      (Blake2b.wordBytes Blake2b.iv) (sequential outlen keylen).bytes) i)[i] = _
    rw [Vector.getElem_ofFn, loadWord_xor hlen]
    exact congrArg (· ^^^ _) (loadWord_wordBytes _ hi)
  rw [hword, loadWord_sequential]
  unfold Blake2b.initialH
  rw [Vector.getElem_set]
  by_cases h0 : i = 0
  · subst h0
    rw [if_pos rfl, if_pos rfl]
  · rw [if_neg h0, if_neg (Ne.symm h0), UInt64.xor_zero]

/-- The starting state stands for the key, as the context of `sph_blake2b.c` does. -/
theorem start_represents (build : Build) {outlen : UInt8} {key : List UInt8} (hpos : outlen ≠ 0)
    (hout : outlen.toNat ≤ 64) (hkey : key.length ≤ 64) :
    ∃ S, start build outlen key = some S ∧
      Represents S (after 128 (compressAt build) (Blake2b.initialH outlen.toNat key.length)
        (Blake2b.keyBlock key)) := by
  have hn : 0 < 128 := by decide
  have hok : ¬ (outlen = 0 ∨ 64 < outlen) := by
    rw [UInt8.lt_iff_toNat_lt]
    exact not_or.mpr ⟨hpos, Nat.not_lt.mpr hout⟩
  have hkeylen : (UInt8.ofNat key.length).toNat = key.length := by
    rw [UInt8.toNat_ofNat']
    omega
  have hinit := initParam_represents (sequential outlen (UInt8.ofNat key.length))
  rw [initParam_h, hkeylen, ← @after_nil _ _ 128 (compressAt build)] at hinit
  unfold start
  by_cases hk : 0 < key.length
  · have hblock : Blake2b.keyBlock key = key ++ List.replicate (128 - key.length) 0 := if_pos hk
    have hkeyed := @Represents.update210 build _ _ hn hinit (Blake2b.keyBlock key)
    rw [absorb_after, List.nil_append] at hkeyed
    refine ⟨_, ?_, hkeyed⟩
    unfold initKey
    rw [if_pos hk, if_neg hok, if_neg (by omega), hblock]
  · have hblock : Blake2b.keyBlock key = [] := if_neg hk
    have hzero : key.length = 0 := Nat.eq_zero_of_not_pos hk
    rw [hblock]
    refine ⟨_, ?_, hinit⟩
    unfold init210
    rw [if_neg hk, if_neg hok, hzero]
    rfl

/-- **The digests agree**: up to 65535 bytes, key included, both files compute the same, however
either of them is given the message. -/
theorem digests_agree (build : Build) (ctx : Blake2bCtx) {outlen : UInt8} {key : List UInt8}
    (hpos : outlen ≠ 0) (hout : outlen.toNat ≤ 64) (hkey : key.length ≤ 64)
    {pieces pieces' : List (List UInt8)} (hsame : pieces.flatten = pieces'.flatten)
    (hlt : (Blake2b.keyBlock key ++ pieces.flatten).length < 2 ^ 16) :
    ((start build outlen key).bind fun S =>
        (final210 build (pieces.foldl (update210 build) S) outlen.toNat).map Prod.fst) =
      (Blake2b.init ctx outlen.toNat key).map fun ctx =>
        Blake2b.final (pieces'.foldl Blake2b.update ctx) := by
  obtain ⟨S, hstart, hS⟩ := start_represents build hpos hout hkey
  have hpos' : outlen.toNat ≠ 0 := fun h => hpos (UInt8.toNat_inj.mp h)
  obtain ⟨ctx', hinit⟩ : ∃ ctx', Blake2b.init ctx outlen.toNat key = some ctx' := by
    unfold Blake2b.init
    rw [dif_neg (by omega)]
    dsimp only
    split
    · exact ⟨_, rfl⟩
    · exact ⟨_, rfl⟩
  rw [hstart, hinit]
  rw [Option.bind_some, Option.map_some, digest210_eq build hS pieces hout hlt,
    Blake2b.digest_eq hinit, hsame]
  rfl

/-- Two hundred bytes with a key of three, in two pieces of which the first is more than a block,
and in one. -/
theorem digests_agree_two_blocks :
    ((start .sse41 32 [1, 2, 3]).bind fun S =>
        (final210 .sse41 ([List.replicate 130 97, List.replicate 70 97].foldl (update210 .sse41) S)
          32).map Prod.fst) =
      (Blake2b.init ⟨List.replicate 128 0, Blake2b.iv, 0, 0, 0, 0, rfl, by decide, by decide⟩ 32
        [1, 2, 3]).map fun ctx =>
          Blake2b.final ([List.replicate 200 97].foldl Blake2b.update ctx) :=
  @digests_agree .sse41 _ 32 [1, 2, 3] (by decide) (by decide) (by decide)
    [List.replicate 130 97, List.replicate 70 97] [List.replicate 200 97] rfl
    (by decide +kernel)

end Blake2b210

end AionPool.Native
