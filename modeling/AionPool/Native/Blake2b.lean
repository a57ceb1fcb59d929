import AionPool.Lib.Blocks
import AionPool.Native.Compression

/-!
# BLAKE2b (`sha3/sph_blake2b.c`, `blake2b.c`)

The hash of block headers: the context takes a message byte by byte, and compresses its buffer when
the next byte finds it full.

* The invariants of the buffer are fields of `Blake2bCtx`, so no byte is written past its end.
* **`digest_eq`**: the digest of a message does not depend on how it is cut into calls of `update`,
  nor on what the context held before; it is `hashOf`, the chain over its blocks.

Models `sph_blake2b.c:129-195` and `blake2b.c:9-15`.
-/

namespace AionPool.Native

open AionPool.Lib.Bytes AionPool.Lib.Blocks AionPool.Lib.Bits

/-! ## The context -/

/-- `blake2b_ctx`: `c` bytes of the buffer `b` wait, `t₀` and `t₁` count what was compressed. -/
structure Blake2bCtx where
  b : List UInt8
  h : Words
  t₀ : UInt64
  t₁ : UInt64
  c : ℕ
  outlen : ℕ
  length_b : b.length = 128
  c_le : c ≤ 128
  outlen_le : outlen ≤ 64

namespace Blake2b

/-- `t[0] += c`, with the carry into `t[1]`. -/
def addCount (t₀ t₁ : UInt64) (c : ℕ) : UInt64 × UInt64 :=
  let low := t₀ + UInt64.ofNat c
  (low, if low < UInt64.ofNat c then t₁ + 1 else t₁)

/-- The full buffer is compressed. -/
def flush (ctx : Blake2bCtx) : Blake2bCtx :=
  let t := addCount ctx.t₀ ctx.t₁ ctx.c
  { ctx with
    h := compress ctx.h ctx.b t.1 t.2 false
    t₀ := t.1
    t₁ := t.2
    c := 0
    c_le := Nat.zero_le _ }

/-- `ctx->b[ctx->c++] = x`. -/
def write (ctx : Blake2bCtx) (x : UInt8) (h : ctx.c < 128) : Blake2bCtx :=
  { ctx with
    b := ctx.b.set ctx.c x
    c := ctx.c + 1
    length_b := by rw [List.length_set, ctx.length_b]
    c_le := h }

/-- The body of the loop of `blake2b_update`. -/
def updateByte (ctx : Blake2bCtx) (x : UInt8) : Blake2bCtx :=
  if h : ctx.c = 128 then write (flush ctx) x (show 0 < 128 by decide)
  else write ctx x (lt_of_le_of_ne ctx.c_le h)

/-- `blake2b_update`. -/
def update (ctx : Blake2bCtx) (input : List UInt8) : Blake2bCtx := input.foldl updateByte ctx

/-- The context `blake2b_init` leaves before it takes the key: the bytes the key goes to keep what
the memory held. -/
def blank (ctx : Blake2bCtx) (outlen keylen : ℕ) (hout : outlen ≤ 64) (hkey : keylen ≤ 64) :
    Blake2bCtx where
  b := ctx.b.take keylen ++ List.replicate (128 - keylen) 0
  h := initialH outlen keylen
  t₀ := 0
  t₁ := 0
  c := 0
  outlen := outlen
  length_b := by
    have := ctx.length_b
    rw [List.length_append, List.length_take, List.length_replicate]
    omega
  c_le := Nat.zero_le _
  outlen_le := hout

/-- `blake2b_init`, on whatever the memory of the context holds. -/
def init (ctx : Blake2bCtx) (outlen : ℕ) (key : List UInt8) : Option Blake2bCtx :=
  if h : outlen = 0 ∨ 64 < outlen ∨ 64 < key.length then none
  else
    let ctx := blank ctx outlen key.length (by omega) (by omega)
    if 0 < key.length then some { update ctx key with c := 128, c_le := le_rfl } else some ctx

/-- `blake2b_final`. -/
def final (ctx : Blake2bCtx) : List UInt8 :=
  let t := addCount ctx.t₀ ctx.t₁ ctx.c
  let b := ctx.b.take ctx.c ++ List.replicate (128 - ctx.c) 0
  let h := compress ctx.h b t.1 t.2 true
  (List.range ctx.outlen).map fun i =>
    ((h[Fin.ofNat 8 (i / 8)] >>> UInt64.ofNat (8 * (i % 8))) &&& 0xFF).toUInt8

/-- `blake2b_hash`: a digest of 32 bytes. -/
def hash (ctx : Blake2bCtx) (input : List UInt8) : Option (List UInt8) :=
  (init ctx 32 []).map fun ctx => final (update ctx input)

/-! ## What a digest is -/

/-- A block that is not the last one, which ends after `count` bytes. -/
def compressAt (h : Words) (count : ℕ) (block : List UInt8) : Words :=
  compress h block (UInt64.ofNat count) (UInt64.ofNat (count / 2 ^ 64)) false

/-- The last block: what waits, filled with zeros. -/
def finish (s : Absorber Words UInt8) : Words :=
  compress s.state (s.buf ++ List.replicate (128 - s.buf.length) 0)
    (UInt64.ofNat (s.count + s.buf.length)) (UInt64.ofNat ((s.count + s.buf.length) / 2 ^ 64)) true

/-- Words, each with its least significant byte first. -/
def wordBytes (h : Words) : List UInt8 := h.toList.flatMap fun w => bytes 8 w.toNat

/-- A key comes first, in a block of its own. -/
def keyBlock (key : List UInt8) : List UInt8 :=
  if 0 < key.length then key ++ List.replicate (128 - key.length) 0 else []

/-- The first bytes of what a message makes of a chaining value. -/
def hashFrom (h : Words) (outlen : ℕ) (m : List UInt8) : List UInt8 :=
  (wordBytes (finish (after 128 compressAt h m))).take outlen

/-- The digest of a message. -/
def hashOf (outlen : ℕ) (key m : List UInt8) : List UInt8 :=
  hashFrom (initialH outlen key.length) outlen (keyBlock key ++ m)

/-- The context as a stream: `t₀` and `t₁` are the two halves of the count. -/
structure Represents (ctx : Blake2bCtx) (s : Absorber Words UInt8) : Prop where
  state : ctx.h = s.state
  buf : ctx.b.take ctx.c = s.buf
  low : ctx.t₀ = UInt64.ofNat s.count
  high : ctx.t₁ = UInt64.ofNat (s.count / 2 ^ 64)

namespace Represents

variable {ctx : Blake2bCtx} {s : Absorber Words UInt8}

theorem length_buf (h : Represents ctx s) : s.buf.length = ctx.c := by
  rw [← h.buf, List.length_take, ctx.length_b]
  exact Nat.min_eq_left ctx.c_le

/-- The carry makes the two words one counter of 128 bits. -/
theorem addCount_eq (h : Represents ctx s) :
    addCount ctx.t₀ ctx.t₁ ctx.c =
      (UInt64.ofNat (s.count + ctx.c), UInt64.ofNat ((s.count + ctx.c) / 2 ^ 64)) := by
  have hc := ctx.c_le
  have hlow : UInt64.ofNat s.count + UInt64.ofNat ctx.c = UInt64.ofNat (s.count + ctx.c) :=
    (UInt64.ofNat_add s.count ctx.c).symm
  unfold addCount
  rw [h.low, h.high, hlow]
  refine Prod.ext rfl ?_
  dsimp only
  have hiff : UInt64.ofNat (s.count + ctx.c) < UInt64.ofNat ctx.c ↔
      (s.count + ctx.c) / 2 ^ 64 = s.count / 2 ^ 64 + 1 := by
    rw [UInt64.lt_iff_toNat_lt, UInt64.toNat_ofNat', UInt64.toNat_ofNat']
    omega
  split
  · rename_i hlt
    rw [hiff.mp hlt, UInt64.ofNat_add]
    rfl
  · rename_i hlt
    have hsame : (s.count + ctx.c) / 2 ^ 64 = s.count / 2 ^ 64 := by
      have := hiff.not.mp hlt
      omega
    rw [hsame]

theorem write {x : UInt8} (h : Represents ctx s) (hc : ctx.c < 128) :
    Represents (write ctx x hc) { s with buf := s.buf ++ [x] } where
  state := h.state
  buf := by
    have hlt : ctx.c < ctx.b.length := by rw [ctx.length_b]; exact hc
    change (ctx.b.set ctx.c x).take (ctx.c + 1) = s.buf ++ [x]
    rw [List.take_set, List.take_succ_eq_append_getElem hlt, ← h.buf,
      List.set_append_right _ _ (by rw [List.length_take]; omega)]
    simp [Nat.min_eq_left hlt.le]
  low := h.low
  high := h.high

theorem flush (h : Represents ctx s) (hc : ctx.c = 128) :
    Represents (flush ctx) (s.flush 128 compressAt s.buf) := by
  have hcount := h.addCount_eq
  have hblock : ctx.b = s.buf := by
    rw [← h.buf, hc, ← ctx.length_b, List.take_length]
  rw [hc] at hcount
  refine ⟨?_, rfl, ?_, ?_⟩
  · change compress ctx.h ctx.b (addCount ctx.t₀ ctx.t₁ ctx.c).1 (addCount ctx.t₀ ctx.t₁ ctx.c).2
      false = _
    rw [hc, hcount, hblock, h.state]
    rfl
  · change (addCount ctx.t₀ ctx.t₁ ctx.c).1 = _
    rw [hc, hcount]
    rfl
  · change (addCount ctx.t₀ ctx.t₁ ctx.c).2 = _
    rw [hc, hcount]
    rfl

/-- The step lemma: the body of the loop takes one byte as the stream does. -/
theorem updateByte {x : UInt8} (h : Represents ctx s) :
    Represents (updateByte ctx x) (push 128 compressAt s x) := by
  unfold Blake2b.updateByte push
  rw [h.length_buf]
  split
  · rename_i hc
    exact (h.flush hc).write _
  · exact h.write _

/-- The run lemma. -/
theorem update (input : List UInt8) (h : Represents ctx s) :
    Represents (update ctx input) (input.foldl (push 128 compressAt) s) := by
  unfold Blake2b.update
  induction input generalizing ctx s with
  | nil => exact h
  | cons x input ih => exact ih h.updateByte

end Represents

/-! ## The digest -/

/-- A byte of a word, shifted down and masked. -/
theorem shifted_byte (w : UInt64) {j : ℕ} (hj : j < 8) :
    ((w >>> UInt64.ofNat (8 * j)) &&& 0xFF).toUInt8 = UInt8.ofNat (w.toNat / 256 ^ j) := by
  have hshift : (UInt64.ofNat (8 * j)).toNat % 64 = 8 * j := by
    rw [UInt64.toNat_ofNat']
    omega
  refine UInt8.toNat_inj.mp ?_
  rw [UInt64.toNat_toUInt8, UInt64.toNat_and, UInt64.toNat_shiftRight, hshift, UInt8.toNat_ofNat',
    Nat.shiftRight_eq_div_pow, pow_mul]
  change ((w.toNat / 256 ^ j) &&& (2 ^ 8 - 1)) % 256 = w.toNat / 256 ^ j % 256
  rw [Nat.and_two_pow_sub_one_eq_mod]
  omega

/-- The loop that stores the words, little endian, stores their bytes. -/
theorem store_eq (h : Words) {outlen : ℕ} (hle : outlen ≤ 64) :
    ((List.range outlen).map fun i =>
      ((h[Fin.ofNat 8 (i / 8)] >>> UInt64.ofNat (8 * (i % 8))) &&& 0xFF).toUInt8) =
      (wordBytes h).take outlen := by
  set store : ℕ → UInt8 := fun i =>
    ((h[Fin.ofNat 8 (i / 8)] >>> UInt64.ofNat (8 * (i % 8))) &&& 0xFF).toUInt8 with hstore
  have hword : ∀ k < 8, (List.range 8).map (fun j => store (8 * k + j)) =
      bytes 8 h[Fin.ofNat 8 k].toNat := fun k hk => by
    rw [bytes_eq_map_range]
    refine List.map_congr_left fun j hj => ?_
    have hj := List.mem_range.mp hj
    have hdiv : (8 * k + j) / 8 = k := by omega
    have hmod : (8 * k + j) % 8 = j := by omega
    simp only [hstore, hdiv, hmod, shifted_byte _ hj]
  have hrange : List.range 64 =
      (List.range 8).flatMap fun k => (List.range 8).map (8 * k + ·) := rfl
  have hwords : h.toList = (List.range 8).map fun k => h[Fin.ofNat 8 k] := by
    refine List.ext_getElem (by simp) fun i hi _ => ?_
    have hlt : i < 8 := by simpa using hi
    simp [Nat.mod_eq_of_lt hlt]
  have hall : (List.range 64).map store = wordBytes h := by
    rw [hrange, List.map_flatMap, wordBytes, hwords, List.flatMap_map]
    refine List.flatMap_congr fun k hk => ?_
    rw [List.map_map]
    exact hword k (List.mem_range.mp hk)
  rw [← hall, ← List.map_take, List.take_range, Nat.min_eq_left hle]

/-- The last block is compressed as it is in `finish`. -/
theorem Represents.final_eq {ctx : Blake2bCtx} {s : Absorber Words UInt8} (h : Represents ctx s) :
    final ctx = (wordBytes (finish s)).take ctx.outlen := by
  have hbuf := h.length_buf
  unfold final finish
  rw [store_eq _ ctx.outlen_le, h.addCount_eq, h.buf, h.state, hbuf]

/-- Bytes there is room for are written one behind the other. -/
theorem update_of_fits (ctx : Blake2bCtx) (input : List UInt8) (h : ctx.c + input.length ≤ 128) :
    (update ctx input).b = ctx.b.take ctx.c ++ input ++ ctx.b.drop (ctx.c + input.length) ∧
      (update ctx input).h = ctx.h ∧ (update ctx input).t₀ = ctx.t₀ ∧
      (update ctx input).t₁ = ctx.t₁ ∧ (update ctx input).outlen = ctx.outlen := by
  unfold update
  induction input generalizing ctx with
  | nil => simp
  | cons x input ih =>
    rw [List.length_cons] at h
    have hroom : ¬ ctx.c = 128 := by omega
    have hlt : ctx.c < ctx.b.length := by rw [ctx.length_b]; omega
    have hbyte : updateByte ctx x = write ctx x (lt_of_le_of_ne ctx.c_le hroom) := dif_neg hroom
    obtain ⟨hb, hrest⟩ := ih (write ctx x (lt_of_le_of_ne ctx.c_le hroom))
      (by change ctx.c + 1 + input.length ≤ 128; omega)
    rw [List.foldl_cons, hbyte]
    refine ⟨hb.trans ?_, hrest⟩
    change (ctx.b.set ctx.c x).take (ctx.c + 1) ++ input ++
      (ctx.b.set ctx.c x).drop (ctx.c + 1 + input.length) = _
    rw [List.set_eq_take_append_cons_drop, if_pos hlt, List.length_cons]
    have htake : (ctx.b.take ctx.c ++ x :: ctx.b.drop (ctx.c + 1)).take (ctx.c + 1) =
        ctx.b.take ctx.c ++ [x] := by
      rw [List.take_append, List.take_take, List.length_take]
      have : ctx.c + 1 - min ctx.c ctx.b.length = 1 := by omega
      rw [this, Nat.min_eq_right (Nat.le_succ _)]
      rfl
    have hdrop : (ctx.b.take ctx.c ++ x :: ctx.b.drop (ctx.c + 1)).drop
        (ctx.c + 1 + input.length) = ctx.b.drop (ctx.c + (input.length + 1)) := by
      have hlen : (ctx.b.take ctx.c).length ≤ ctx.c + 1 + input.length := by
        rw [List.length_take]
        omega
      have : ctx.c + 1 + input.length - (ctx.b.take ctx.c).length = input.length + 1 := by
        rw [List.length_take]
        omega
      rw [List.drop_append, List.drop_eq_nil_of_le hlen, this, List.nil_append, List.drop_succ_cons,
        List.drop_drop]
      congr 1
      omega
    rw [htake, hdrop, List.append_assoc, List.append_assoc, List.append_assoc]
    rfl

theorem blank_represents (ctx : Blake2bCtx) {outlen keylen : ℕ} (hout : outlen ≤ 64)
    (hkey : keylen ≤ 64) :
    Represents (blank ctx outlen keylen hout hkey) ⟨initialH outlen keylen, 0, []⟩ :=
  ⟨rfl, rfl, rfl, (congrArg UInt64.ofNat (Nat.zero_div _)).symm⟩

/-- A fresh context stands for the key, whatever its memory held before. -/
theorem init_represents {ctx ctx' : Blake2bCtx} {outlen : ℕ} {key : List UInt8}
    (h : init ctx outlen key = some ctx') :
    ctx'.outlen = outlen ∧
      Represents ctx' (after 128 compressAt (initialH outlen key.length) (keyBlock key)) := by
  unfold init at h
  split at h
  · exact nomatch h
  rename_i hok
  have hout : outlen ≤ 64 := by omega
  have hkeylen : key.length ≤ 64 := by omega
  have hblank := blank_represents ctx hout hkeylen
  dsimp only at h
  split at h
  · rename_i hkey
    obtain rfl := Option.some.inj h
    have hlen : (ctx.b.take key.length).length = key.length := by
      rw [List.length_take, ctx.length_b]
      omega
    obtain ⟨hb, hh, ht₀, ht₁, hout'⟩ :=
      update_of_fits (blank ctx outlen key.length hout hkeylen) key
      (by change 0 + key.length ≤ 128; omega)
    have hblock : keyBlock key = key ++ List.replicate (128 - key.length) 0 := if_pos hkey
    have hfull : (keyBlock key).length = 128 := by
      rw [hblock, List.length_append, List.length_replicate]
      omega
    have hblocks : fullBlocks 128 (keyBlock key) = 0 := by
      unfold fullBlocks
      rw [hfull]
    have hbuf : (update (blank ctx outlen key.length hout hkeylen) key).b = keyBlock key := by
      rw [hb, hblock]
      change [] ++ key ++ (ctx.b.take key.length ++ _).drop (0 + key.length) = _
      rw [List.nil_append, Nat.zero_add, List.drop_append, hlen, Nat.sub_self,
        List.drop_eq_nil_of_le hlen.le]
      rfl
    refine ⟨hout', ?_⟩
    unfold after
    rw [hblocks, Nat.zero_mul]
    exact ⟨hh.trans hblank.state, (congrArg _ hbuf).trans (List.take_of_length_le hfull.le),
      ht₀.trans hblank.low, ht₁.trans hblank.high⟩
  · rename_i hkey
    obtain rfl := Option.some.inj h
    have hblock : keyBlock key = [] := if_neg hkey
    rw [hblock, after_nil]
    exact ⟨rfl, hblank⟩

theorem update_outlen (ctx : Blake2bCtx) (input : List UInt8) :
    (update ctx input).outlen = ctx.outlen := by
  have hbyte : ∀ (ctx : Blake2bCtx) (x : UInt8), (updateByte ctx x).outlen = ctx.outlen := by
    intro ctx x
    unfold updateByte
    split <;> rfl
  unfold update
  induction input generalizing ctx with
  | nil => rfl
  | cons x input ih => rw [List.foldl_cons, ih, hbyte]

/-- **The digest** of a message does not depend on how it is cut, nor on what the memory of the
context held. -/
theorem digest_eq {ctx ctx' : Blake2bCtx} {outlen : ℕ} {key : List UInt8}
    (h : init ctx outlen key = some ctx') (pieces : List (List UInt8)) :
    final (pieces.foldl update ctx') = hashOf outlen key pieces.flatten := by
  obtain ⟨hout, hrep⟩ := init_represents h
  have hcut : pieces.foldl update ctx' = update ctx' pieces.flatten := List.foldl_flatten.symm
  have hrun := hrep.update pieces.flatten
  have hn : 0 < 128 := by decide
  rw [← absorb_eq_foldl_push hn _ (length_after_le hn _ _), absorb_after] at hrun
  rw [hcut, hrun.final_eq, update_outlen, hout]
  rfl

theorem hash_eq (ctx : Blake2bCtx) (input : List UInt8) :
    hash ctx input = some (hashOf 32 [] input) := by
  have hinit : init ctx 32 [] = some (blank ctx 32 0 (by decide) (by decide)) := rfl
  have h := digest_eq hinit [input]
  rw [List.flatten_singleton] at h
  unfold hash
  rw [hinit]
  exact congrArg some h

end Blake2b

end AionPool.Native
