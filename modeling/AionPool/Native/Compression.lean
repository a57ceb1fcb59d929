import AionPool.Lib.Bits
import Mathlib.Data.Fin.VecNotation
import Mathlib.Tactic.FinCases

/-!
# The compression function of BLAKE2b (`sha3/sph_blake2b.c`, `equi210/blake/blake2b.cpp`)

* `Blake2b.compress` is the compression function of the hash of block headers, as it is written: the
  array `v`, the mixing function `G` on four of its words, and the schedule `sigma`.
* `Blake2b210.compress` is that of the Equihash verifier, with vector instructions. It keeps the
  working vector in eight registers of two words, with the round of `blake2b-round.h` and the
  message loads of `blake2b-load-sse2.h` or `blake2b-load-sse41.h`, and its counter has 16 bits.
* **`compress_eq`**: for each of the three instruction sets the headers provide for, the two are
  one function.

Models `sph_blake2b.c:78-123`, `blake2b.cpp:118-186` and `blake2b-round.h:32-170`.
-/

namespace AionPool.Native

open AionPool.Lib.Bytes

/-- The chaining value, `uint64_t h[8]`. -/
abbrev Words := Vector UInt64 8

/-- `uint64_t v[16]`, and the words of a block. -/
abbrev Block := Vector UInt64 16

namespace Blake2b

/-! ## The compression function -/

/-- `ROTR64`. -/
def rotr64 (x y : UInt64) : UInt64 := (x >>> y) ^^^ (x <<< (64 - y))

/-- `B2B_GET64`: eight bytes from `p` on. -/
def get64 (b : List UInt8) (p : ℕ) : UInt64 :=
  let byte (i : ℕ) : UInt64 := (b.getD (p + i) 0).toUInt64
  byte 0 ^^^ (byte 1 <<< 8) ^^^ (byte 2 <<< 16) ^^^ (byte 3 <<< 24) ^^^ (byte 4 <<< 32) ^^^
    (byte 5 <<< 40) ^^^ (byte 6 <<< 48) ^^^ (byte 7 <<< 56)

/-- `blake2b_iv`. -/
def iv : Words :=
  #v[0x6A09E667F3BCC908, 0xBB67AE8584CAA73B, 0x3C6EF372FE94F82B, 0xA54FF53A5F1D36F1,
    0x510E527FADE682D1, 0x9B05688C2B3E6C1F, 0x1F83D9ABFB41BD6B, 0x5BE0CD19137E2179]

/-- The message schedule. -/
def sigma : Fin 12 → Fin 16 → Fin 16 :=
  ![![0, 1, 2, 3, 4, 5, 6, 7, 8, 9, 10, 11, 12, 13, 14, 15],
    ![14, 10, 4, 8, 9, 15, 13, 6, 1, 12, 0, 2, 11, 7, 5, 3],
    ![11, 8, 12, 0, 5, 2, 15, 13, 10, 14, 3, 6, 7, 1, 9, 4],
    ![7, 9, 3, 1, 13, 12, 11, 14, 2, 6, 5, 10, 4, 0, 15, 8],
    ![9, 0, 5, 7, 2, 4, 10, 15, 14, 1, 11, 12, 6, 8, 3, 13],
    ![2, 12, 6, 10, 0, 11, 8, 3, 4, 13, 7, 5, 15, 14, 1, 9],
    ![12, 5, 1, 15, 14, 13, 4, 10, 0, 7, 6, 3, 9, 2, 8, 11],
    ![13, 11, 7, 14, 12, 1, 3, 9, 5, 0, 15, 4, 8, 6, 2, 10],
    ![6, 15, 14, 9, 11, 3, 0, 8, 12, 2, 13, 7, 1, 4, 10, 5],
    ![10, 2, 8, 4, 7, 6, 1, 5, 15, 11, 9, 14, 3, 12, 13, 0],
    ![0, 1, 2, 3, 4, 5, 6, 7, 8, 9, 10, 11, 12, 13, 14, 15],
    ![14, 10, 4, 8, 9, 15, 13, 6, 1, 12, 0, 2, 11, 7, 5, 3]]

/-- `B2B_G`. -/
def mix (v : Block) (a b c d : Fin 16) (x y : UInt64) : Block :=
  let v := v.set a (v[a] + v[b] + x)
  let v := v.set d (rotr64 (v[d] ^^^ v[a]) 32)
  let v := v.set c (v[c] + v[d])
  let v := v.set b (rotr64 (v[b] ^^^ v[c]) 24)
  let v := v.set a (v[a] + v[b] + y)
  let v := v.set d (rotr64 (v[d] ^^^ v[a]) 16)
  let v := v.set c (v[c] + v[d])
  v.set b (rotr64 (v[b] ^^^ v[c]) 63)

/-- The columns of a round. -/
def columns (m : Block) (i : Fin 12) (v : Block) : Block :=
  let v := mix v 0 4 8 12 m[sigma i 0] m[sigma i 1]
  let v := mix v 1 5 9 13 m[sigma i 2] m[sigma i 3]
  let v := mix v 2 6 10 14 m[sigma i 4] m[sigma i 5]
  mix v 3 7 11 15 m[sigma i 6] m[sigma i 7]

/-- The diagonals of a round. -/
def diagonals (m : Block) (i : Fin 12) (v : Block) : Block :=
  let v := mix v 0 5 10 15 m[sigma i 8] m[sigma i 9]
  let v := mix v 1 6 11 12 m[sigma i 10] m[sigma i 11]
  let v := mix v 2 7 8 13 m[sigma i 12] m[sigma i 13]
  mix v 3 4 9 14 m[sigma i 14] m[sigma i 15]

/-- The body of the loop over the rounds. -/
def round (m v : Block) (i : Fin 12) : Block := diagonals m i (columns m i v)

/-- The working vector before the rounds. -/
def initialV (h : Words) (t₀ t₁ : UInt64) (last : Bool) : Block :=
  let v : Block := h ++ iv
  let v := v.set 12 (v[12] ^^^ t₀)
  let v := v.set 13 (v[13] ^^^ t₁)
  if last then v.set 14 (~~~v[14]) else v

theorem initialV_eq (h : Words) (t₀ t₁ : UInt64) (last : Bool) :
    initialV h t₀ t₁ last =
      #v[h[0], h[1], h[2], h[3], h[4], h[5], h[6], h[7], iv[0], iv[1], iv[2], iv[3],
        iv[4] ^^^ t₀, iv[5] ^^^ t₁, if last then ~~~iv[6] else iv[6], iv[7]] := by
  obtain ⟨⟨l⟩, hl⟩ := h
  match l, hl with
  | [a₀, a₁, a₂, a₃, a₄, a₅, a₆, a₇], _ => cases last <;> rfl

/-- The chaining value before the first block: the initialization vector, with the lengths of the
digest and of the key. -/
def initialH (outlen keylen : ℕ) : Words :=
  iv.set 0 (iv[0] ^^^ ((0x01010000 : UInt64) ^^^ (UInt64.ofNat keylen <<< 8) ^^^
    UInt64.ofNat outlen))

/-- `blake2b_compress`. -/
def compress (h : Words) (b : List UInt8) (t₀ t₁ : UInt64) (last : Bool) : Words :=
  let m : Block := Vector.ofFn fun i => get64 b (8 * i)
  let v := (List.finRange 12).foldl (round m) (initialV h t₀ t₁ last)
  Vector.ofFn fun i => h[i] ^^^ (v[i.castAdd 8] ^^^ v[i.natAdd 8])

end Blake2b

/-! ## Registers -/

/-- `__m128i`, as two lanes. -/
@[ext] structure M128 where
  lo : UInt64
  hi : UInt64
  deriving DecidableEq

namespace M128

/-- Four double words, the least significant one last. -/
def setEpi32 (e₃ e₂ e₁ e₀ : UInt32) : M128 where
  lo := e₀.toUInt64 ||| (e₁.toUInt64 <<< 32)
  hi := e₂.toUInt64 ||| (e₃.toUInt64 <<< 32)

def setEpi64x (hi lo : UInt64) : M128 := ⟨lo, hi⟩

def dwords (a : M128) : Vector UInt32 4 :=
  #v[a.lo.toUInt32, (a.lo >>> 32).toUInt32, a.hi.toUInt32, (a.hi >>> 32).toUInt32]

def bytes (a : M128) : List UInt8 := Lib.Bytes.bytes 8 a.lo.toNat ++ Lib.Bytes.bytes 8 a.hi.toNat

/-- `_mm_loadu_si128`: sixteen bytes, the least significant one first. -/
def ofBytes (bs : List UInt8) : M128 where
  lo := UInt64.ofNat (unsigned (bs.take 8))
  hi := UInt64.ofNat (unsigned ((bs.drop 8).take 8))

def add (a b : M128) : M128 := ⟨a.lo + b.lo, a.hi + b.hi⟩

def xor (a b : M128) : M128 := ⟨a.lo ^^^ b.lo, a.hi ^^^ b.hi⟩

def srli (a : M128) (c : UInt64) : M128 := ⟨a.lo >>> c, a.hi >>> c⟩

def slli (a : M128) (c : UInt64) : M128 := ⟨a.lo <<< c, a.hi <<< c⟩

def unpacklo (a b : M128) : M128 := ⟨a.lo, b.lo⟩

def unpackhi (a b : M128) : M128 := ⟨a.hi, b.hi⟩

/-- `_mm_alignr_epi8(a, b, 8)`. -/
def alignr8 (a b : M128) : M128 := ⟨b.hi, a.lo⟩

/-- `_mm_blend_epi16(a, b, 0xF0)`. -/
def blendF0 (a b : M128) : M128 := ⟨a.lo, b.hi⟩

/-- `_mm_shuffle_epi32(a, _MM_SHUFFLE(e₃, e₂, e₁, e₀))`. -/
def shuffleEpi32 (a : M128) (e₃ e₂ e₁ e₀ : Fin 4) : M128 :=
  setEpi32 a.dwords[e₃] a.dwords[e₂] a.dwords[e₁] a.dwords[e₀]

def shuffleEpi8 (a : M128) (sel : List ℕ) : M128 := ofBytes (sel.map fun i => a.bytes.getD i 0)

end M128

/-- The instructions a build may use. -/
inductive Build where
  | sse2
  | ssse3
  | sse41

namespace Blake2b210

open M128

/-! ## The round -/

def r16 : List ℕ := [2, 3, 4, 5, 6, 7, 0, 1, 10, 11, 12, 13, 14, 15, 8, 9]

def r24 : List ℕ := [3, 4, 5, 6, 7, 0, 1, 2, 11, 12, 13, 14, 15, 8, 9, 10]

/-- `_mm_roti_epi64(x, -c)`. -/
def roti (build : Build) (x : M128) (c : UInt64) : M128 :=
  let shifts := (x.srli c).xor (x.slli (64 - c))
  match build with
  | .sse2 => shifts
  | .ssse3 | .sse41 =>
    if c = 32 then x.shuffleEpi32 2 3 0 1
    else if c = 24 then x.shuffleEpi8 r24
    else if c = 16 then x.shuffleEpi8 r16
    else if c = 63 then (x.srli c).xor (x.add x)
    else shifts

/-- The working vector. -/
@[ext] structure Rows where
  row1l : M128
  row2l : M128
  row3l : M128
  row4l : M128
  row1h : M128
  row2h : M128
  row3h : M128
  row4h : M128

/-- `G1` rotates by 32 and 24, `G2` by 16 and 63. -/
def halfG (build : Build) (c c' : UInt64) (r : Rows) (b : M128 × M128) : Rows :=
  let r := { r with
    row1l := (r.row1l.add b.1).add r.row2l
    row1h := (r.row1h.add b.2).add r.row2h }
  let r := { r with row4l := r.row4l.xor r.row1l, row4h := r.row4h.xor r.row1h }
  let r := { r with row4l := roti build r.row4l c, row4h := roti build r.row4h c }
  let r := { r with row3l := r.row3l.add r.row4l, row3h := r.row3h.add r.row4h }
  let r := { r with row2l := r.row2l.xor r.row3l, row2h := r.row2h.xor r.row3h }
  { r with row2l := roti build r.row2l c', row2h := roti build r.row2h c' }

/-- `G1`. -/
def g1 (build : Build) (r : Rows) (b : M128 × M128) : Rows := halfG build 32 24 r b

/-- `G2`. -/
def g2 (build : Build) (r : Rows) (b : M128 × M128) : Rows := halfG build 16 63 r b

/-- `DIAGONALIZE`. -/
def diagonalize (build : Build) (r : Rows) : Rows :=
  match build with
  | .sse2 => { r with
      row3l := r.row3h
      row3h := r.row3l
      row4l := unpackhi r.row4h (unpacklo r.row4l r.row4l)
      row4h := unpackhi r.row4l (unpacklo r.row4h r.row4h)
      row2l := unpackhi r.row2l (unpacklo r.row2h r.row2h)
      row2h := unpackhi r.row2h (unpacklo r.row2l r.row2l) }
  | .ssse3 | .sse41 => { r with
      row2l := alignr8 r.row2h r.row2l
      row2h := alignr8 r.row2l r.row2h
      row3l := r.row3h
      row3h := r.row3l
      row4l := alignr8 r.row4l r.row4h
      row4h := alignr8 r.row4h r.row4l }

/-- `UNDIAGONALIZE`. -/
def undiagonalize (build : Build) (r : Rows) : Rows :=
  match build with
  | .sse2 => { r with
      row3l := r.row3h
      row3h := r.row3l
      row2l := unpackhi r.row2h (unpacklo r.row2l r.row2l)
      row2h := unpackhi r.row2l (unpacklo r.row2h r.row2h)
      row4l := unpackhi r.row4l (unpacklo r.row4h r.row4h)
      row4h := unpackhi r.row4h (unpacklo r.row4l r.row4l) }
  | .ssse3 | .sse41 => { r with
      row2l := alignr8 r.row2l r.row2h
      row2h := alignr8 r.row2h r.row2l
      row3l := r.row3h
      row3h := r.row3l
      row4l := alignr8 r.row4h r.row4l
      row4h := alignr8 r.row4l r.row4h }

/-- `LOAD_MSG_r_k` of `blake2b-load-sse2.h`; `k` counts from zero. -/
def loadMsgSse2 (m : Block) (r : Fin 12) (k : Fin 4) : M128 × M128 :=
  match r, k with
  | 0, 0 => (setEpi64x m[2] m[0], setEpi64x m[6] m[4])
  | 0, 1 => (setEpi64x m[3] m[1], setEpi64x m[7] m[5])
  | 0, 2 => (setEpi64x m[10] m[8], setEpi64x m[14] m[12])
  | 0, 3 => (setEpi64x m[11] m[9], setEpi64x m[15] m[13])
  | 1, 0 => (setEpi64x m[4] m[14], setEpi64x m[13] m[9])
  | 1, 1 => (setEpi64x m[8] m[10], setEpi64x m[6] m[15])
  | 1, 2 => (setEpi64x m[0] m[1], setEpi64x m[5] m[11])
  | 1, 3 => (setEpi64x m[2] m[12], setEpi64x m[3] m[7])
  | 2, 0 => (setEpi64x m[12] m[11], setEpi64x m[15] m[5])
  | 2, 1 => (setEpi64x m[0] m[8], setEpi64x m[13] m[2])
  | 2, 2 => (setEpi64x m[3] m[10], setEpi64x m[9] m[7])
  | 2, 3 => (setEpi64x m[6] m[14], setEpi64x m[4] m[1])
  | 3, 0 => (setEpi64x m[3] m[7], setEpi64x m[11] m[13])
  | 3, 1 => (setEpi64x m[1] m[9], setEpi64x m[14] m[12])
  | 3, 2 => (setEpi64x m[5] m[2], setEpi64x m[15] m[4])
  | 3, 3 => (setEpi64x m[10] m[6], setEpi64x m[8] m[0])
  | 4, 0 => (setEpi64x m[5] m[9], setEpi64x m[10] m[2])
  | 4, 1 => (setEpi64x m[7] m[0], setEpi64x m[15] m[4])
  | 4, 2 => (setEpi64x m[11] m[14], setEpi64x m[3] m[6])
  | 4, 3 => (setEpi64x m[12] m[1], setEpi64x m[13] m[8])
  | 5, 0 => (setEpi64x m[6] m[2], setEpi64x m[8] m[0])
  | 5, 1 => (setEpi64x m[10] m[12], setEpi64x m[3] m[11])
  | 5, 2 => (setEpi64x m[7] m[4], setEpi64x m[1] m[15])
  | 5, 3 => (setEpi64x m[5] m[13], setEpi64x m[9] m[14])
  | 6, 0 => (setEpi64x m[1] m[12], setEpi64x m[4] m[14])
  | 6, 1 => (setEpi64x m[15] m[5], setEpi64x m[10] m[13])
  | 6, 2 => (setEpi64x m[6] m[0], setEpi64x m[8] m[9])
  | 6, 3 => (setEpi64x m[3] m[7], setEpi64x m[11] m[2])
  | 7, 0 => (setEpi64x m[7] m[13], setEpi64x m[3] m[12])
  | 7, 1 => (setEpi64x m[14] m[11], setEpi64x m[9] m[1])
  | 7, 2 => (setEpi64x m[15] m[5], setEpi64x m[2] m[8])
  | 7, 3 => (setEpi64x m[4] m[0], setEpi64x m[10] m[6])
  | 8, 0 => (setEpi64x m[14] m[6], setEpi64x m[0] m[11])
  | 8, 1 => (setEpi64x m[9] m[15], setEpi64x m[8] m[3])
  | 8, 2 => (setEpi64x m[13] m[12], setEpi64x m[10] m[1])
  | 8, 3 => (setEpi64x m[7] m[2], setEpi64x m[5] m[4])
  | 9, 0 => (setEpi64x m[8] m[10], setEpi64x m[1] m[7])
  | 9, 1 => (setEpi64x m[4] m[2], setEpi64x m[5] m[6])
  | 9, 2 => (setEpi64x m[9] m[15], setEpi64x m[13] m[3])
  | 9, 3 => (setEpi64x m[14] m[11], setEpi64x m[0] m[12])
  | 10, 0 => (setEpi64x m[2] m[0], setEpi64x m[6] m[4])
  | 10, 1 => (setEpi64x m[3] m[1], setEpi64x m[7] m[5])
  | 10, 2 => (setEpi64x m[10] m[8], setEpi64x m[14] m[12])
  | 10, 3 => (setEpi64x m[11] m[9], setEpi64x m[15] m[13])
  | 11, 0 => (setEpi64x m[4] m[14], setEpi64x m[13] m[9])
  | 11, 1 => (setEpi64x m[8] m[10], setEpi64x m[6] m[15])
  | 11, 2 => (setEpi64x m[0] m[1], setEpi64x m[5] m[11])
  | 11, 3 => (setEpi64x m[2] m[12], setEpi64x m[3] m[7])

/-- `LOAD_MSG_r_k` of `blake2b-load-sse41.h`. -/
def loadMsgSse41 (m : Vector M128 8) (r : Fin 12) (k : Fin 4) : M128 × M128 :=
  match r, k with
  | 0, 0 => (unpacklo m[0] m[1], unpacklo m[2] m[3])
  | 0, 1 => (unpackhi m[0] m[1], unpackhi m[2] m[3])
  | 0, 2 => (unpacklo m[4] m[5], unpacklo m[6] m[7])
  | 0, 3 => (unpackhi m[4] m[5], unpackhi m[6] m[7])
  | 1, 0 => (unpacklo m[7] m[2], unpackhi m[4] m[6])
  | 1, 1 => (unpacklo m[5] m[4], alignr8 m[3] m[7])
  | 1, 2 => (shuffleEpi32 m[0] 1 0 3 2, unpackhi m[5] m[2])
  | 1, 3 => (unpacklo m[6] m[1], unpackhi m[3] m[1])
  | 2, 0 => (alignr8 m[6] m[5], unpackhi m[2] m[7])
  | 2, 1 => (unpacklo m[4] m[0], blendF0 m[1] m[6])
  | 2, 2 => (blendF0 m[5] m[1], unpackhi m[3] m[4])
  | 2, 3 => (unpacklo m[7] m[3], alignr8 m[2] m[0])
  | 3, 0 => (unpackhi m[3] m[1], unpackhi m[6] m[5])
  | 3, 1 => (unpackhi m[4] m[0], unpacklo m[6] m[7])
  | 3, 2 => (blendF0 m[1] m[2], blendF0 m[2] m[7])
  | 3, 3 => (unpacklo m[3] m[5], unpacklo m[0] m[4])
  | 4, 0 => (unpackhi m[4] m[2], unpacklo m[1] m[5])
  | 4, 1 => (blendF0 m[0] m[3], blendF0 m[2] m[7])
  | 4, 2 => (blendF0 m[7] m[5], blendF0 m[3] m[1])
  | 4, 3 => (alignr8 m[6] m[0], blendF0 m[4] m[6])
  | 5, 0 => (unpacklo m[1] m[3], unpacklo m[0] m[4])
  | 5, 1 => (unpacklo m[6] m[5], unpackhi m[5] m[1])
  | 5, 2 => (blendF0 m[2] m[3], unpackhi m[7] m[0])
  | 5, 3 => (unpackhi m[6] m[2], blendF0 m[7] m[4])
  | 6, 0 => (blendF0 m[6] m[0], unpacklo m[7] m[2])
  | 6, 1 => (unpackhi m[2] m[7], alignr8 m[5] m[6])
  | 6, 2 => (unpacklo m[0] m[3], shuffleEpi32 m[4] 1 0 3 2)
  | 6, 3 => (unpackhi m[3] m[1], blendF0 m[1] m[5])
  | 7, 0 => (unpackhi m[6] m[3], blendF0 m[6] m[1])
  | 7, 1 => (alignr8 m[7] m[5], unpackhi m[0] m[4])
  | 7, 2 => (unpackhi m[2] m[7], unpacklo m[4] m[1])
  | 7, 3 => (unpacklo m[0] m[2], unpacklo m[3] m[5])
  | 8, 0 => (unpacklo m[3] m[7], alignr8 m[0] m[5])
  | 8, 1 => (unpackhi m[7] m[4], alignr8 m[4] m[1])
  | 8, 2 => (m[6], alignr8 m[5] m[0])
  | 8, 3 => (blendF0 m[1] m[3], m[2])
  | 9, 0 => (unpacklo m[5] m[4], unpackhi m[3] m[0])
  | 9, 1 => (unpacklo m[1] m[2], blendF0 m[3] m[2])
  | 9, 2 => (unpackhi m[7] m[4], unpackhi m[1] m[6])
  | 9, 3 => (alignr8 m[7] m[5], unpacklo m[6] m[0])
  | 10, 0 => (unpacklo m[0] m[1], unpacklo m[2] m[3])
  | 10, 1 => (unpackhi m[0] m[1], unpackhi m[2] m[3])
  | 10, 2 => (unpacklo m[4] m[5], unpacklo m[6] m[7])
  | 10, 3 => (unpackhi m[4] m[5], unpackhi m[6] m[7])
  | 11, 0 => (unpacklo m[7] m[2], unpackhi m[4] m[6])
  | 11, 1 => (unpacklo m[5] m[4], alignr8 m[3] m[7])
  | 11, 2 => (shuffleEpi32 m[0] 1 0 3 2, unpackhi m[5] m[2])
  | 11, 3 => (unpacklo m[6] m[1], unpackhi m[3] m[1])

/-- `((uint64_t *) block)[i]`, on a machine with the least significant byte first. -/
def loadWord (block : List UInt8) (i : ℕ) : UInt64 :=
  UInt64.ofNat (unsigned ((block.drop (8 * i)).take 8))

/-- `m0` to `m15`. -/
def blockWords (block : List UInt8) : Block :=
  let m := loadWord block
  #v[m 0, m 1, m 2, m 3, m 4, m 5, m 6, m 7, m 8, m 9, m 10, m 11, m 12, m 13, m 14, m 15]

/-- `m0` to `m7`, with `LOADU`. -/
def blockRegisters (block : List UInt8) : Vector M128 8 :=
  let m i := ofBytes (block.drop i)
  #v[m 0, m 16, m 32, m 48, m 64, m 80, m 96, m 112]

/-- `LOAD_MSG_r_k`. -/
def loadMsg (build : Build) (block : List UInt8) (r : Fin 12) (k : Fin 4) : M128 × M128 :=
  match build with
  | .sse2 | .ssse3 => loadMsgSse2 (blockWords block) r k
  | .sse41 => loadMsgSse41 (blockRegisters block) r k

/-- `ROUND`. -/
def round (build : Build) (block : List UInt8) (rows : Rows) (r : Fin 12) : Rows :=
  let rows := g1 build rows (loadMsg build block r 0)
  let rows := g2 build rows (loadMsg build block r 1)
  let rows := diagonalize build rows
  let rows := g1 build rows (loadMsg build block r 2)
  let rows := g2 build rows (loadMsg build block r 3)
  undiagonalize build rows

/-- The rows before the rounds. `lastblock` is 0 or 1, and fills the lower lane when it is 1. -/
def initialRows (h : Words) (counter : UInt16) (lastblock : Bool) : Rows :=
  let iv := Blake2b.iv
  let flag : UInt32 := 0 - (if lastblock then 1 else 0)
  { row1l := ⟨h[0], h[1]⟩
    row1h := ⟨h[2], h[3]⟩
    row2l := ⟨h[4], h[5]⟩
    row2h := ⟨h[6], h[7]⟩
    row3l := ⟨iv[0], iv[1]⟩
    row3h := ⟨iv[2], iv[3]⟩
    row4l := xor ⟨iv[4], iv[5]⟩ (setEpi32 0 0 0 counter.toUInt32)
    row4h := xor ⟨iv[6], iv[7]⟩ (setEpi32 0 0 flag flag) }

/-- The rows after the rounds are added to the chaining value. -/
def feedForward (h : Words) (r : Rows) : Words :=
  let row1l := xor ⟨h[0], h[1]⟩ (xor r.row3l r.row1l)
  let row1h := xor ⟨h[2], h[3]⟩ (xor r.row3h r.row1h)
  let row2l := xor ⟨h[4], h[5]⟩ (xor r.row4l r.row2l)
  let row2h := xor ⟨h[6], h[7]⟩ (xor r.row4h r.row2h)
  #v[row1l.lo, row1l.hi, row1h.lo, row1h.hi, row2l.lo, row2l.hi, row2h.lo, row2h.hi]

/-- `blake2b_compress`. -/
def compress (build : Build) (h : Words) (block : List UInt8) (counter : UInt16)
    (lastblock : Bool) : Words :=
  feedForward h
    ((List.finRange 12).foldl (round build block) (initialRows h counter lastblock))

/-! ## The registers are words of the array -/

theorem toNat_rotr64 (w : UInt64) {c : UInt64} (hpos : 0 < c.toNat) (hlt : c.toNat < 64) :
    (Blake2b.rotr64 w c).toNat =
      2 ^ (64 - c.toNat) * (w.toNat % 2 ^ c.toNat) + w.toNat / 2 ^ c.toNat := by
  have hw : w.toNat < 2 ^ c.toNat * 2 ^ (64 - c.toNat) := by
    rw [← pow_add, Nat.add_sub_cancel' hlt.le]
    exact w.toNat_lt
  have hdown : w.toNat / 2 ^ c.toNat < 2 ^ (64 - c.toNat) := Nat.div_lt_of_lt_mul hw
  have hup : (64 - c).toNat = 64 - c.toNat := UInt64.toNat_sub_of_le _ _ hlt.le
  have hshifted : w.toNat * 2 ^ (64 - c.toNat) % 2 ^ 64 =
      2 ^ (64 - c.toNat) * (w.toNat % 2 ^ c.toNat) := by
    have h64 : 2 ^ 64 = 2 ^ (64 - c.toNat) * 2 ^ c.toNat := by
      rw [← pow_add, Nat.sub_add_cancel hlt.le]
    rw [h64, Nat.mul_comm, Nat.mul_mod_mul_left]
  unfold Blake2b.rotr64
  rw [UInt64.toNat_xor, UInt64.toNat_shiftRight, UInt64.toNat_shiftLeft, hup,
    Nat.mod_eq_of_lt hlt, Nat.mod_eq_of_lt (Nat.sub_lt (by decide) hpos), Nat.shiftRight_eq_div_pow,
    Nat.shiftLeft_eq, hshifted, Lib.Bits.xor_shifted hdown]

/-- Swapping the double words of a lane rotates it by 32. -/
theorem swap_dwords (w : UInt64) :
    (w >>> 32).toUInt32.toUInt64 ||| (w.toUInt32.toUInt64 <<< 32) = Blake2b.rotr64 w 32 := by
  refine UInt64.toNat_inj.mp ?_
  have hw := w.toNat_lt
  have hhigh : w.toNat / 2 ^ 32 < 2 ^ 32 := by omega
  rw [toNat_rotr64 w (by decide) (by decide), UInt64.toNat_or, UInt32.toNat_toUInt64,
    UInt64.toNat_toUInt32, UInt64.toNat_shiftRight, UInt64.toNat_shiftLeft, UInt32.toNat_toUInt64,
    UInt64.toNat_toUInt32]
  change w.toNat >>> 32 % 2 ^ 32 ||| (w.toNat % 2 ^ 32) <<< 32 % 2 ^ 64 =
    2 ^ 32 * (w.toNat % 2 ^ 32) + w.toNat / 2 ^ 32
  rw [Nat.shiftRight_eq_div_pow, Nat.shiftLeft_eq, Nat.mod_eq_of_lt hhigh,
    ← Lib.Bits.or_shifted hhigh, Nat.mul_comm, Nat.mod_eq_of_lt (by omega)]

/-- The bytes of a word, rotated by some. -/
theorem rotate_bytes (w : UInt64) {k : ℕ} (hpos : 0 < k) (hlt : k < 8) :
    UInt64.ofNat (unsigned ((bytes 8 w.toNat).rotate k)) =
      Blake2b.rotr64 w (UInt64.ofNat (8 * k)) := by
  have hc : (UInt64.ofNat (8 * k)).toNat = 8 * k := by
    rw [UInt64.toNat_ofNat']
    omega
  have hlen : (bytes 8 w.toNat).length = 8 := length_bytes _ _
  have hw : unsigned (bytes 8 w.toNat) = w.toNat := unsigned_bytes w.toNat_lt
  have hfirst := unsigned_lt ((bytes 8 w.toNat).take k)
  have hparts := unsigned_append ((bytes 8 w.toNat).take k) ((bytes 8 w.toNat).drop k)
  have hlow : ((bytes 8 w.toNat).take k).length = k := by rw [List.length_take, hlen]; omega
  have hhigh : ((bytes 8 w.toNat).drop k).length = 8 - k := by rw [List.length_drop, hlen]
  rw [List.take_append_drop, hw, hlow] at hparts
  rw [hlow] at hfirst
  set low := unsigned ((bytes 8 w.toNat).take k)
  set high := unsigned ((bytes 8 w.toNat).drop k)
  have hmod : w.toNat % 256 ^ k = low := by
    rw [hparts, Nat.add_mul_mod_self_left, Nat.mod_eq_of_lt hfirst]
  have hdiv : w.toNat / 256 ^ k = high := by
    rw [hparts, Nat.add_mul_div_left _ _ (by positivity), Nat.div_eq_of_lt hfirst, Nat.zero_add]
  have hpow : ∀ j, 2 ^ (8 * j) = 256 ^ j := fun j => by
    rw [show 256 = 2 ^ 8 from rfl, ← pow_mul]
  have hpow' : 64 - 8 * k = 8 * (8 - k) := by omega
  refine UInt64.toNat_inj.mp ?_
  rw [List.rotate_eq_drop_append_take (by omega), unsigned_append, hhigh,
    toNat_rotr64 w (by omega) (by omega), hc, hpow', hpow, hpow, hmod, hdiv, UInt64.toNat_ofNat',
    Nat.add_comm, Nat.mod_eq_of_lt]
  have hrot := unsigned_lt ((bytes 8 w.toNat).drop k ++ (bytes 8 w.toNat).take k)
  rw [unsigned_append, List.length_append, hhigh, hlow, Nat.sub_add_cancel hlt.le, Nat.add_comm]
    at hrot
  exact hrot

/-- Sixteen bytes that are those of a register, each lane rotated by `k` bytes. -/
theorem ofBytes_rotate (a : M128) {k : ℕ} (hpos : 0 < k) (hlt : k < 8) :
    ofBytes ((bytes 8 a.lo.toNat).rotate k ++ (bytes 8 a.hi.toNat).rotate k) =
      ⟨Blake2b.rotr64 a.lo (UInt64.ofNat (8 * k)), Blake2b.rotr64 a.hi (UInt64.ofNat (8 * k))⟩ := by
  have hlen : ∀ n, ((bytes 8 n).rotate k).length = 8 := fun n => by
    rw [List.length_rotate, length_bytes]
  unfold ofBytes
  rw [List.take_left' (hlen _), List.drop_left' (hlen _), List.take_of_length_le (hlen _).le,
    rotate_bytes _ hpos hlt, rotate_bytes _ hpos hlt]

/-- The rotations that shuffle bytes, or add the register to itself, are the ones that shift. -/
theorem roti_eq (build : Build) (x : M128) {c : UInt64} (hc : c ∈ [32, 24, 16, 63]) :
    roti build x c = ⟨Blake2b.rotr64 x.lo c, Blake2b.rotr64 x.hi c⟩ := by
  have hshifts : (x.srli c).xor (x.slli (64 - c)) =
      ⟨Blake2b.rotr64 x.lo c, Blake2b.rotr64 x.hi c⟩ := rfl
  have hshuffle : (if c = 32 then x.shuffleEpi32 2 3 0 1
      else if c = 24 then x.shuffleEpi8 r24
      else if c = 16 then x.shuffleEpi8 r16
      else if c = 63 then (x.srli c).xor (x.add x)
      else (x.srli c).xor (x.slli (64 - c))) =
      ⟨Blake2b.rotr64 x.lo c, Blake2b.rotr64 x.hi c⟩ := by
    simp only [List.mem_cons, List.not_mem_nil, or_false] at hc
    rcases hc with rfl | rfl | rfl | rfl
    · exact M128.ext (swap_dwords x.lo) (swap_dwords x.hi)
    · exact ofBytes_rotate x (k := 3) (by decide) (by decide)
    · exact ofBytes_rotate x (k := 2) (by decide) (by decide)
    · have hdouble : ∀ w : UInt64, w + w = w <<< 1 := fun w => by
        refine UInt64.toNat_inj.mp ?_
        have hone : (1 : UInt64).toNat % 64 = 1 := rfl
        rw [UInt64.toNat_add, UInt64.toNat_shiftLeft, hone, Nat.shiftLeft_eq, pow_one, Nat.mul_two]
      refine M128.ext ?_ ?_
      · change (x.lo >>> 63) ^^^ (x.lo + x.lo) = _
        rw [hdouble]
        rfl
      · change (x.hi >>> 63) ^^^ (x.hi + x.hi) = _
        rw [hdouble]
        rfl
  cases build with
  | sse2 => exact hshifts
  | ssse3 => exact hshuffle
  | sse41 => exact hshuffle

/-! ## A round -/

/-- Four words that are mixed together. -/
abbrev Quad := UInt64 × UInt64 × UInt64 × UInt64

/-- Half of what `mix` does to its four words. -/
def half (r r' : UInt64) (w : Quad) (x : UInt64) : Quad :=
  let (a, b, c, d) := w
  let a := a + b + x
  let d := Blake2b.rotr64 (d ^^^ a) r
  let c := c + d
  let b := Blake2b.rotr64 (b ^^^ c) r'
  (a, b, c, d)

/-- Four words of the working vector. -/
def quad (v : Block) (a b c d : Fin 16) : Quad := (v[a], v[b], v[c], v[d])

/-- Half of `mix`. -/
def halfMix (r r' : UInt64) (v : Block) (a b c d : Fin 16) (x : UInt64) : Block :=
  let v := v.set a (v[a] + v[b] + x)
  let v := v.set d (Blake2b.rotr64 (v[d] ^^^ v[a]) r)
  let v := v.set c (v[c] + v[d])
  v.set b (Blake2b.rotr64 (v[b] ^^^ v[c]) r')

theorem mix_eq_halfMix (v : Block) (a b c d : Fin 16) (x y : UInt64) :
    Blake2b.mix v a b c d x y = halfMix 16 63 (halfMix 32 24 v a b c d x) a b c d y := rfl

theorem quad_halfMix_self (r r' : UInt64) (v : Block) {a b c d : Fin 16} (x : UInt64)
    (h : [a, b, c, d].Nodup) :
    quad (halfMix r r' v a b c d x) a b c d = half r r' (quad v a b c d) x := by
  simp only [List.nodup_cons, List.mem_cons, List.not_mem_nil, or_false, not_or, not_false_eq_true,
    List.nodup_nil, and_true, ← Fin.val_inj] at h
  obtain ⟨⟨hab, hac, had⟩, ⟨hbc, hbd⟩, hcd⟩ := h
  simp only [quad, halfMix, half, Fin.getElem_fin, Vector.getElem_set, hab, hac, had, hbc, hbd, hcd,
    Ne.symm hab, Ne.symm hac, Ne.symm had, Ne.symm hbc, Ne.symm hbd, Ne.symm hcd, if_true, if_false]

theorem quad_mix_self (v : Block) {a b c d : Fin 16} (x y : UInt64) (h : [a, b, c, d].Nodup) :
    quad (Blake2b.mix v a b c d x y) a b c d =
      half 16 63 (half 32 24 (quad v a b c d) x) y := by
  rw [mix_eq_halfMix, quad_halfMix_self _ _ _ _ h, quad_halfMix_self _ _ _ _ h]

theorem getElem_halfMix_of_notMem (r r' : UInt64) (v : Block) {a b c d : Fin 16} (x : UInt64)
    {k : Fin 16} (h : k ∉ [a, b, c, d]) : (halfMix r r' v a b c d x)[k] = v[k] := by
  simp only [List.mem_cons, List.not_mem_nil, or_false, not_or, ← Fin.val_inj] at h
  obtain ⟨ha, hb, hc, hd⟩ := h
  simp only [halfMix, Fin.getElem_fin, Vector.getElem_set, Ne.symm ha, Ne.symm hb, Ne.symm hc,
    Ne.symm hd, if_false]

/-- Other words stay as they are. -/
theorem quad_mix_of_disjoint (v : Block) {a b c d a' b' c' d' : Fin 16} (x y : UInt64)
    (h : ∀ k ∈ [a', b', c', d'], k ∉ [a, b, c, d]) :
    quad (Blake2b.mix v a b c d x y) a' b' c' d' = quad v a' b' c' d' := by
  have hother : ∀ k ∈ [a', b', c', d'], (Blake2b.mix v a b c d x y)[k] = v[k] := fun k hk => by
    rw [mix_eq_halfMix, getElem_halfMix_of_notMem _ _ _ _ (h k hk),
      getElem_halfMix_of_notMem _ _ _ _ (h k hk)]
  simp only [List.mem_cons, List.not_mem_nil, or_false, forall_eq_or_imp, forall_eq] at hother
  obtain ⟨ha, hb, hc, hd⟩ := hother
  unfold quad
  rw [ha, hb, hc, hd]

/-- Rows, from the words that are mixed together. -/
def ofColumns (c₀ c₁ c₂ c₃ : Quad) : Rows where
  row1l := ⟨c₀.1, c₁.1⟩
  row1h := ⟨c₂.1, c₃.1⟩
  row2l := ⟨c₀.2.1, c₁.2.1⟩
  row2h := ⟨c₂.2.1, c₃.2.1⟩
  row3l := ⟨c₀.2.2.1, c₁.2.2.1⟩
  row3h := ⟨c₂.2.2.1, c₃.2.2.1⟩
  row4l := ⟨c₀.2.2.2, c₁.2.2.2⟩
  row4h := ⟨c₂.2.2.2, c₃.2.2.2⟩

/-- The rows a working vector stands for. -/
def rowsOf (v : Block) : Rows :=
  ofColumns (quad v 0 4 8 12) (quad v 1 5 9 13) (quad v 2 6 10 14) (quad v 3 7 11 15)

/-- The same, with each diagonal in a column. -/
def diagonalRows (v : Block) : Rows :=
  ofColumns (quad v 0 5 10 15) (quad v 1 6 11 12) (quad v 2 7 8 13) (quad v 3 4 9 14)

theorem diagonalize_rowsOf (build : Build) (v : Block) :
    diagonalize build (rowsOf v) = diagonalRows v := by
  cases build <;> rfl

theorem undiagonalize_diagonalRows (build : Build) (v : Block) :
    undiagonalize build (diagonalRows v) = rowsOf v := by
  cases build <;> rfl

theorem add_comm_right (x y z : UInt64) : x + y + z = x + z + y := by
  rw [UInt64.add_assoc, UInt64.add_comm y, ← UInt64.add_assoc]

/-- `G1` and `G2` do the same in each lane. -/
theorem halfG_ofColumns (build : Build) {r r' : UInt64} (hr : r ∈ [32, 24, 16, 63])
    (hr' : r' ∈ [32, 24, 16, 63]) (c₀ c₁ c₂ c₃ : Quad) (x₀ x₁ x₂ x₃ : UInt64) :
    halfG build r r' (ofColumns c₀ c₁ c₂ c₃) (⟨x₀, x₁⟩, ⟨x₂, x₃⟩) =
      ofColumns (half r r' c₀ x₀) (half r r' c₁ x₁) (half r r' c₂ x₂) (half r r' c₃ x₃) := by
  have hcomm : ∀ x y z : M128, (x.add y).add z = (x.add z).add y := fun x y z =>
    M128.ext (add_comm_right x.lo y.lo z.lo) (add_comm_right x.hi y.hi z.hi)
  unfold halfG
  simp only [roti_eq build _ hr, roti_eq build _ hr', hcomm (ofColumns c₀ c₁ c₂ c₃).row1l ⟨x₀, x₁⟩,
    hcomm (ofColumns c₀ c₁ c₂ c₃).row1h ⟨x₂, x₃⟩]
  rfl

/-- `G1` and then `G2`. -/
theorem g2_g1_ofColumns (build : Build) (c₀ c₁ c₂ c₃ : Quad) (x₀ x₁ x₂ x₃ y₀ y₁ y₂ y₃ : UInt64) :
    g2 build (g1 build (ofColumns c₀ c₁ c₂ c₃) (⟨x₀, x₁⟩, ⟨x₂, x₃⟩)) (⟨y₀, y₁⟩, ⟨y₂, y₃⟩) =
      ofColumns (half 16 63 (half 32 24 c₀ x₀) y₀) (half 16 63 (half 32 24 c₁ x₁) y₁)
        (half 16 63 (half 32 24 c₂ x₂) y₂) (half 16 63 (half 32 24 c₃ x₃) y₃) := by
  unfold g1 g2
  rw [halfG_ofColumns build (by decide) (by decide), halfG_ofColumns build (by decide) (by decide)]

/-- Four mixes of words that are all different, each as if it were the only one. -/
theorem quads_mix (v : Block) {a₀ b₀ c₀ d₀ a₁ b₁ c₁ d₁ a₂ b₂ c₂ d₂ a₃ b₃ c₃ d₃ : Fin 16}
    (h : [a₀, b₀, c₀, d₀, a₁, b₁, c₁, d₁, a₂, b₂, c₂, d₂, a₃, b₃, c₃, d₃].Nodup)
    (x₀ y₀ x₁ y₁ x₂ y₂ x₃ y₃ : UInt64) :
    let w := Blake2b.mix (Blake2b.mix (Blake2b.mix (Blake2b.mix v a₀ b₀ c₀ d₀ x₀ y₀)
      a₁ b₁ c₁ d₁ x₁ y₁) a₂ b₂ c₂ d₂ x₂ y₂) a₃ b₃ c₃ d₃ x₃ y₃
    ofColumns (quad w a₀ b₀ c₀ d₀) (quad w a₁ b₁ c₁ d₁) (quad w a₂ b₂ c₂ d₂) (quad w a₃ b₃ c₃ d₃) =
      ofColumns (half 16 63 (half 32 24 (quad v a₀ b₀ c₀ d₀) x₀) y₀)
        (half 16 63 (half 32 24 (quad v a₁ b₁ c₁ d₁) x₁) y₁)
        (half 16 63 (half 32 24 (quad v a₂ b₂ c₂ d₂) x₂) y₂)
        (half 16 63 (half 32 24 (quad v a₃ b₃ c₃ d₃) x₃) y₃) := by
  have hsplit : [a₀, b₀, c₀, d₀, a₁, b₁, c₁, d₁, a₂, b₂, c₂, d₂, a₃, b₃, c₃, d₃] =
      [a₀, b₀, c₀, d₀] ++ ([a₁, b₁, c₁, d₁] ++ ([a₂, b₂, c₂, d₂] ++ [a₃, b₃, c₃, d₃])) := rfl
  rw [hsplit] at h
  obtain ⟨n₀, h, h₀⟩ := List.nodup_append'.mp h
  obtain ⟨n₁, h, h₁⟩ := List.nodup_append'.mp h
  obtain ⟨n₂, n₃, h₂⟩ := List.nodup_append'.mp h
  have h₀₁ := (List.disjoint_append_right.mp h₀).1
  have h₀₂ := (List.disjoint_append_right.mp (List.disjoint_append_right.mp h₀).2).1
  have h₀₃ := (List.disjoint_append_right.mp (List.disjoint_append_right.mp h₀).2).2
  have h₁₂ := (List.disjoint_append_right.mp h₁).1
  have h₁₃ := (List.disjoint_append_right.mp h₁).2
  intro w
  have hw₀ : quad w a₀ b₀ c₀ d₀ = half 16 63 (half 32 24 (quad v a₀ b₀ c₀ d₀) x₀) y₀ := by
    rw [quad_mix_of_disjoint _ _ _ fun _ hk hk' => h₀₃ hk hk',
      quad_mix_of_disjoint _ _ _ fun _ hk hk' => h₀₂ hk hk',
      quad_mix_of_disjoint _ _ _ fun _ hk hk' => h₀₁ hk hk', quad_mix_self _ _ _ n₀]
  have hw₁ : quad w a₁ b₁ c₁ d₁ = half 16 63 (half 32 24 (quad v a₁ b₁ c₁ d₁) x₁) y₁ := by
    rw [quad_mix_of_disjoint _ _ _ fun _ hk hk' => h₁₃ hk hk',
      quad_mix_of_disjoint _ _ _ fun _ hk hk' => h₁₂ hk hk', quad_mix_self _ _ _ n₁,
      quad_mix_of_disjoint _ _ _ fun _ hk hk' => h₀₁ hk' hk]
  have hw₂ : quad w a₂ b₂ c₂ d₂ = half 16 63 (half 32 24 (quad v a₂ b₂ c₂ d₂) x₂) y₂ := by
    rw [quad_mix_of_disjoint _ _ _ fun _ hk hk' => h₂ hk hk', quad_mix_self _ _ _ n₂,
      quad_mix_of_disjoint _ _ _ fun _ hk hk' => h₁₂ hk' hk,
      quad_mix_of_disjoint _ _ _ fun _ hk hk' => h₀₂ hk' hk]
  have hw₃ : quad w a₃ b₃ c₃ d₃ = half 16 63 (half 32 24 (quad v a₃ b₃ c₃ d₃) x₃) y₃ := by
    rw [quad_mix_self _ _ _ n₃, quad_mix_of_disjoint _ _ _ fun _ hk hk' => h₂ hk' hk,
      quad_mix_of_disjoint _ _ _ fun _ hk hk' => h₁₃ hk' hk,
      quad_mix_of_disjoint _ _ _ fun _ hk hk' => h₀₃ hk' hk]
  rw [hw₀, hw₁, hw₂, hw₃]

/-- The columns of a round. -/
theorem rowsOf_columns (build : Build) (m : Block) (i : Fin 12) (v : Block) :
    rowsOf (Blake2b.columns m i v) =
      g2 build (g1 build (rowsOf v)
        (⟨m[Blake2b.sigma i 0], m[Blake2b.sigma i 2]⟩,
          ⟨m[Blake2b.sigma i 4], m[Blake2b.sigma i 6]⟩))
        (⟨m[Blake2b.sigma i 1], m[Blake2b.sigma i 3]⟩,
          ⟨m[Blake2b.sigma i 5], m[Blake2b.sigma i 7]⟩) :=
  (quads_mix v (by decide) _ _ _ _ _ _ _ _).trans
    (g2_g1_ofColumns build _ _ _ _ _ _ _ _ _ _ _ _).symm

/-- The diagonals of a round. -/
theorem diagonalRows_diagonals (build : Build) (m : Block) (i : Fin 12) (v : Block) :
    diagonalRows (Blake2b.diagonals m i v) =
      g2 build (g1 build (diagonalRows v)
        (⟨m[Blake2b.sigma i 8], m[Blake2b.sigma i 10]⟩,
          ⟨m[Blake2b.sigma i 12], m[Blake2b.sigma i 14]⟩))
        (⟨m[Blake2b.sigma i 9], m[Blake2b.sigma i 11]⟩,
          ⟨m[Blake2b.sigma i 13], m[Blake2b.sigma i 15]⟩) :=
  (quads_mix v (by decide) _ _ _ _ _ _ _ _).trans
    (g2_g1_ofColumns build _ _ _ _ _ _ _ _ _ _ _ _).symm

/-! ## The message words -/

theorem unsigned_take_drop_succ (b : List UInt8) (p k : ℕ) :
    unsigned ((b.drop p).take (k + 1)) =
      (b.getD p 0).toNat + 256 * unsigned ((b.drop (p + 1)).take k) := by
  by_cases hp : p < b.length
  · rw [List.drop_eq_getElem_cons hp, List.take_succ_cons, unsigned_cons,
      List.getD_eq_getElem _ _ hp]
  · have hle : b.length ≤ p := Nat.not_lt.mp hp
    rw [List.drop_eq_nil_of_le hle, List.drop_eq_nil_of_le (hle.trans (Nat.le_succ p)),
      List.take_nil, List.take_nil, List.getD_eq_default _ _ hle]
    rfl

/-- A byte at its place in a word. -/
theorem toNat_shifted_byte (x : UInt8) {c : UInt64} (hc : c.toNat ≤ 56) :
    (x.toUInt64 <<< c).toNat = 2 ^ c.toNat * x.toNat := by
  have hx := x.toNat_lt
  have hpow : 2 ^ c.toNat * x.toNat < 2 ^ 64 := by
    have hle : 2 ^ c.toNat ≤ 2 ^ 56 := Nat.pow_le_pow_right (by decide) hc
    calc 2 ^ c.toNat * x.toNat ≤ 2 ^ 56 * x.toNat := Nat.mul_le_mul_right _ hle
      _ < 2 ^ 64 := by omega
  rw [UInt64.toNat_shiftLeft, UInt8.toNat_toUInt64, Nat.mod_eq_of_lt (a := c.toNat) (by omega),
    Nat.shiftLeft_eq, Nat.mul_comm, Nat.mod_eq_of_lt hpow]

/-- Bytes that are joined by shifting them are a number with its least significant byte first. -/
theorem get64_eq (b : List UInt8) (p : ℕ) :
    Blake2b.get64 b p = UInt64.ofNat (unsigned ((b.drop p).take 8)) := by
  have hlt : ∀ i, (b.getD (p + i) 0).toNat < 256 := fun i => (b.getD (p + i) 0).toNat_lt
  refine UInt64.toNat_inj.mp ?_
  unfold Blake2b.get64
  simp only [unsigned_take_drop_succ, List.take_zero, unsigned_nil, UInt64.toNat_xor,
    UInt8.toNat_toUInt64, toNat_shifted_byte _ (c := 8) (by decide),
    toNat_shifted_byte _ (c := 16) (by decide), toNat_shifted_byte _ (c := 24) (by decide),
    toNat_shifted_byte _ (c := 32) (by decide), toNat_shifted_byte _ (c := 40) (by decide),
    toNat_shifted_byte _ (c := 48) (by decide), toNat_shifted_byte _ (c := 56) (by decide),
    UInt64.toNat_ofNat', UInt64.reduceToNat, Nat.add_assoc, Nat.reduceAdd]
  have h₀ := hlt 0
  have h₁ := hlt 1
  have h₂ := hlt 2
  have h₃ := hlt 3
  have h₄ := hlt 4
  have h₅ := hlt 5
  have h₆ := hlt 6
  have h₇ := hlt 7
  rw [Nat.add_zero] at h₀ ⊢
  generalize (b.getD p 0).toNat = b₀ at *
  generalize (b.getD (p + 1) 0).toNat = b₁ at *
  generalize (b.getD (p + 2) 0).toNat = b₂ at *
  generalize (b.getD (p + 3) 0).toNat = b₃ at *
  generalize (b.getD (p + 4) 0).toNat = b₄ at *
  generalize (b.getD (p + 5) 0).toNat = b₅ at *
  generalize (b.getD (p + 6) 0).toNat = b₆ at *
  generalize (b.getD (p + 7) 0).toNat = b₇ at *
  rw [Lib.Bits.xor_shifted (k := 8) h₀, Lib.Bits.xor_shifted (k := 16) (by omega),
    Lib.Bits.xor_shifted (k := 24) (by omega), Lib.Bits.xor_shifted (k := 32) (by omega),
    Lib.Bits.xor_shifted (k := 40) (by omega), Lib.Bits.xor_shifted (k := 48) (by omega),
    Lib.Bits.xor_shifted (k := 56) (by omega)]
  omega

/-- Swapping the double words two by two swaps the lanes. -/
theorem swap_lanes (a : M128) : a.shuffleEpi32 1 0 3 2 = ⟨a.hi, a.lo⟩ := by
  have hword : ∀ w : UInt64,
      w.toUInt32.toUInt64 ||| ((w >>> 32).toUInt32.toUInt64 <<< 32) = w := fun w => by
    refine UInt64.toNat_inj.mp ?_
    have hw := w.toNat_lt
    have hlow : w.toNat % 2 ^ 32 < 2 ^ 32 := Nat.mod_lt _ (by decide)
    have hhigh : w.toNat / 2 ^ 32 < 2 ^ 32 := by omega
    rw [UInt64.toNat_or, UInt32.toNat_toUInt64, UInt64.toNat_toUInt32, UInt64.toNat_shiftLeft,
      UInt32.toNat_toUInt64, UInt64.toNat_toUInt32, UInt64.toNat_shiftRight]
    change w.toNat % 2 ^ 32 ||| (w.toNat >>> 32 % 2 ^ 32) <<< 32 % 2 ^ 64 = w.toNat
    have hshift : w.toNat / 2 ^ 32 * 2 ^ 32 < 2 ^ 64 := by omega
    rw [Nat.shiftRight_eq_div_pow, Nat.shiftLeft_eq, Nat.mod_eq_of_lt hhigh,
      Nat.mod_eq_of_lt hshift, Nat.mul_comm, Lib.Bits.or_shifted hlow, Nat.div_add_mod]
  exact M128.ext (hword a.hi) (hword a.lo)

theorem ofBytes_drop (block : List UInt8) (i : ℕ) :
    ofBytes (block.drop (16 * i)) = ⟨loadWord block (2 * i), loadWord block (2 * i + 1)⟩ := by
  unfold ofBytes loadWord
  rw [List.drop_drop, show 8 * (2 * i) = 16 * i by ring, show 8 * (2 * i + 1) = 16 * i + 8 by ring]

/-- The loads of `blake2b-load-sse2.h` follow the schedule. -/
theorem loadMsgSse2_eq (m : Block) (r : Fin 12) :
    loadMsgSse2 m r 0 = (⟨m[Blake2b.sigma r 0], m[Blake2b.sigma r 2]⟩,
      ⟨m[Blake2b.sigma r 4], m[Blake2b.sigma r 6]⟩) ∧
    loadMsgSse2 m r 1 = (⟨m[Blake2b.sigma r 1], m[Blake2b.sigma r 3]⟩,
      ⟨m[Blake2b.sigma r 5], m[Blake2b.sigma r 7]⟩) ∧
    loadMsgSse2 m r 2 = (⟨m[Blake2b.sigma r 8], m[Blake2b.sigma r 10]⟩,
      ⟨m[Blake2b.sigma r 12], m[Blake2b.sigma r 14]⟩) ∧
    loadMsgSse2 m r 3 = (⟨m[Blake2b.sigma r 9], m[Blake2b.sigma r 11]⟩,
      ⟨m[Blake2b.sigma r 13], m[Blake2b.sigma r 15]⟩) := by
  fin_cases r <;> exact ⟨rfl, rfl, rfl, rfl⟩

/-- The loads of `blake2b-load-sse41.h` are the same ones. -/
theorem loadMsgSse41_eq (m : ℕ → UInt64) (r : Fin 12) (k : Fin 4) :
    loadMsgSse41 #v[⟨m 0, m 1⟩, ⟨m 2, m 3⟩, ⟨m 4, m 5⟩, ⟨m 6, m 7⟩, ⟨m 8, m 9⟩, ⟨m 10, m 11⟩,
      ⟨m 12, m 13⟩, ⟨m 14, m 15⟩] r k =
      loadMsgSse2 #v[m 0, m 1, m 2, m 3, m 4, m 5, m 6, m 7, m 8, m 9, m 10, m 11, m 12, m 13,
        m 14, m 15] r k := by
  fin_cases r <;> fin_cases k <;>
    first | rfl | exact Prod.ext (swap_lanes _) rfl | exact Prod.ext rfl (swap_lanes _)

/-- Every build loads the same words. -/
theorem loadMsg_eq (build : Build) (block : List UInt8) (r : Fin 12) (k : Fin 4) :
    loadMsg build block r k = loadMsgSse2 (blockWords block) r k := by
  cases build with
  | sse2 => rfl
  | ssse3 => rfl
  | sse41 =>
    have hregisters : blockRegisters block = let m := loadWord block
        #v[⟨m 0, m 1⟩, ⟨m 2, m 3⟩, ⟨m 4, m 5⟩, ⟨m 6, m 7⟩, ⟨m 8, m 9⟩, ⟨m 10, m 11⟩, ⟨m 12, m 13⟩,
          ⟨m 14, m 15⟩] := by
      unfold blockRegisters
      dsimp only
      rw [ofBytes_drop block 0, ofBytes_drop block 1, ofBytes_drop block 2, ofBytes_drop block 3,
        ofBytes_drop block 4, ofBytes_drop block 5, ofBytes_drop block 6, ofBytes_drop block 7]
    unfold loadMsg
    dsimp only
    rw [hregisters]
    exact loadMsgSse41_eq (loadWord block) r k

/-! ## The compression function -/

/-- A round keeps the rows those of the working vector. -/
theorem round_rowsOf (build : Build) (block : List UInt8) (v : Block) (r : Fin 12) :
    round build block (rowsOf v) r =
      rowsOf (Blake2b.round (blockWords block) v r) := by
  obtain ⟨h₀, h₁, h₂, h₃⟩ := loadMsgSse2_eq (blockWords block) r
  unfold round Blake2b.round
  dsimp only
  rw [loadMsg_eq, loadMsg_eq, loadMsg_eq, loadMsg_eq, h₀, h₁, h₂, h₃, ← rowsOf_columns,
    diagonalize_rowsOf, ← diagonalRows_diagonals, undiagonalize_diagonalRows]

theorem blockWords_eq (block : List UInt8) :
    blockWords block = Vector.ofFn fun i => Blake2b.get64 block (8 * i) := by
  refine Vector.ext fun i hi => ?_
  rw [Vector.getElem_ofFn, get64_eq]
  change (blockWords block)[i] = loadWord block i
  interval_cases i <;> rfl

/-- The counter and the flag of the last block go to the words 12 and 14. -/
theorem initialRows_eq (h : Words) (counter : UInt16) (last : Bool) :
    initialRows h counter last = rowsOf (Blake2b.initialV h counter.toUInt64 0 last) := by
  have hcounter : counter.toUInt32.toUInt64 ||| ((0 : UInt32).toUInt64 <<< 32) =
      counter.toUInt64 := by
    refine UInt64.toNat_inj.mp ?_
    rw [UInt64.toNat_or]
    exact Nat.or_zero _
  have hset : setEpi32 0 0 0 counter.toUInt32 = ⟨counter.toUInt64, 0⟩ := M128.ext hcounter rfl
  have hflag : ∀ last : Bool, xor ⟨Blake2b.iv[6], Blake2b.iv[7]⟩
      (setEpi32 0 0 (0 - (if last then 1 else 0)) (0 - (if last then 1 else 0))) =
      ⟨if last then ~~~Blake2b.iv[6] else Blake2b.iv[6], Blake2b.iv[7]⟩ := by decide
  have hzero : Blake2b.iv[5] ^^^ (0 : UInt64) = Blake2b.iv[5] := by decide
  unfold initialRows
  dsimp only
  rw [hset, hflag, Blake2b.initialV_eq]
  rfl

theorem feedForward_rowsOf (h : Words) (v : Block) :
    feedForward h (rowsOf v) =
      Vector.ofFn fun i : Fin 8 => h[i] ^^^ (v[i.castAdd 8] ^^^ v[i.natAdd 8]) := by
  refine Vector.ext fun i hi => ?_
  rw [Vector.getElem_ofFn]
  change (feedForward h (rowsOf v))[i] = h[i] ^^^ (v[i] ^^^ v[8 + i])
  rw [UInt64.xor_comm v[i]]
  interval_cases i <;> rfl

/-- **The compression function** of every build is the one of `sph_blake2b.c`. -/
theorem compress_eq (build : Build) (h : Words) (block : List UInt8) (counter : UInt16)
    (last : Bool) :
    compress build h block counter last =
      Blake2b.compress h block counter.toUInt64 0 last := by
  have hrounds : (List.finRange 12).foldl (round build block)
      (rowsOf (Blake2b.initialV h counter.toUInt64 0 last)) =
      rowsOf ((List.finRange 12).foldl (Blake2b.round (blockWords block))
        (Blake2b.initialV h counter.toUInt64 0 last)) :=
    List.foldl_hom rowsOf (round_rowsOf build block)
  unfold compress
  rw [initialRows_eq, hrounds, feedForward_rowsOf, blockWords_eq]
  rfl

end Blake2b210

end AionPool.Native
