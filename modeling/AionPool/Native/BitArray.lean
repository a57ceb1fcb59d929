import AionPool.Lib.Bits
import AionPool.Lib.Blocks
import AionPool.Lib.Buffer

/-!
# Bit arrays (`ExpandArray210`, `CompressArray210` of `equi210/equi/equi210.cpp`)

The two loops regroup a bit sequence with an accumulator of 32 bits: `ExpandArray210` cuts bytes
into elements of `bitLen` bits, each in bytes of its own with the most significant one first;
`CompressArray210` puts the elements back together.

* **`expandArray_eq`**, **`compressArray_eq`**: for elements of 8 to 25 bits no bit is lost in the
  accumulator.
* **`minimal_round_trip`**: the short form of a list of indices and the list are inverse to each
  other.

Models `equi210.cpp:76-209`.
-/

namespace AionPool.Native

open AionPool.Lib AionPool.Lib.Bytes AionPool.Lib.Bits

/-! ## The loops -/

/-- `bit_len_mask`. -/
def bitLenMask (bitLen : ℕ) : UInt32 := ((1 : UInt32) <<< UInt32.ofNat bitLen) - 1

/-- How many bytes an element has without its padding. -/
def elementWidth (bitLen : ℕ) : ℕ := (bitLen + 7) / 8

/-- The accumulator and the bytes written so far. -/
structure Expander where
  accBits : ℕ
  accValue : UInt32
  out : List UInt8

/-- The bytes of an element: the padding, and the bits above the lowest `accBits`. -/
def expandElement (bitLen bytePad accBits : ℕ) (accValue : UInt32) : List UInt8 :=
  let outWidth := elementWidth bitLen + bytePad
  List.replicate bytePad 0 ++ (List.range' bytePad (outWidth - bytePad)).map fun x =>
    let shift := 8 * (outWidth - x - 1)
    ((accValue >>> UInt32.ofNat (accBits + shift)) &&&
      ((bitLenMask bitLen >>> UInt32.ofNat shift) &&& 0xFF)).toUInt8

/-- The body of the loop of `ExpandArray210`. -/
def expandStep (bitLen bytePad : ℕ) (s : Expander) (b : UInt8) : Expander :=
  let accValue := (s.accValue <<< 8) ||| b.toUInt32
  let accBits := s.accBits + 8
  if bitLen ≤ accBits then
    { accBits := accBits - bitLen
      accValue := accValue
      out := s.out ++ expandElement bitLen bytePad (accBits - bitLen) accValue }
  else { s with accBits := accBits, accValue := accValue }

/-- `ExpandArray210`: the bytes it writes. -/
def expandArray (input : List UInt8) (bitLen bytePad : ℕ) : List UInt8 :=
  (input.foldl (expandStep bitLen bytePad) ⟨0, 0, []⟩).out

/-- The accumulator, the position in the input, and the bytes written so far. -/
structure Compressor where
  accBits : ℕ
  accValue : UInt32
  j : ℕ
  out : List UInt8

/-- Byte `x` of an element, behind its padding, goes to its place in the accumulator. -/
def joinByte (bitLen bytePad inWidth : ℕ) (accValue : UInt32) (bx : UInt8 × ℕ) : UInt32 :=
  let (b, x) := bx
  let shift := UInt32.ofNat (8 * (inWidth - (bytePad + x) - 1))
  accValue ||| ((b.toUInt32 &&& ((bitLenMask bitLen >>> shift) &&& 0xFF)) <<< shift)

/-- The next element goes behind the bits of the accumulator. -/
def readElement (input : List UInt8) (bitLen bytePad : ℕ) (s : Compressor) : Option Compressor := do
  let inWidth := elementWidth bitLen + bytePad
  let bytes ← Buffer.load input (s.j + bytePad) (inWidth - bytePad)
  let accValue := bytes.zipIdx.foldl (joinByte bitLen bytePad inWidth)
    (s.accValue <<< UInt32.ofNat bitLen)
  return { s with accBits := s.accBits + bitLen, accValue := accValue, j := s.j + inWidth }

/-- The next byte is the highest of the accumulator. -/
def writeByte (s : Compressor) : Compressor :=
  let accBits := s.accBits - 8
  { s with
    accBits := accBits
    out := s.out ++ [((s.accValue >>> UInt32.ofNat accBits) &&& 0xFF).toUInt8] }

/-- The body of the loop of `CompressArray210`. -/
def compressStep (input : List UInt8) (bitLen bytePad : ℕ) (s : Compressor) : Option Compressor :=
  let refilled := if s.accBits < 8 then readElement input bitLen bytePad s else some s
  refilled.map writeByte

/-- `CompressArray210`: `outLen` bytes. -/
def compressArray (input : List UInt8) (outLen bitLen bytePad : ℕ) : Option (List UInt8) :=
  ((List.range outLen).foldlM (fun s _ => compressStep input bitLen bytePad s) ⟨0, 0, 0, []⟩).map
    Compressor.out

/-! ## Indices -/

/-- `EhIndexToArray210`. -/
def ehIndexToArray (i : UInt32) : List UInt8 := (bytes 4 i.toNat).reverse

/-- `ArrayToEhIndex210`. -/
def arrayToEhIndex (array : List UInt8) : UInt32 := UInt32.ofNat (unsigned array.reverse)

/-- The loop of `GetIndicesFromMinimal210` over the expanded array. -/
def readIndices (array : List UInt8) : Option (List UInt32) :=
  ((List.range ((array.length + 3) / 4)).mapM fun i => Buffer.load array (4 * i) 4).map
    (List.map arrayToEhIndex)

/-- `GetIndicesFromMinimal210`. -/
def getIndicesFromMinimal (minimal : List UInt8) (cBitLen : ℕ) : Option (List UInt32) := do
  let lenIndices := 8 * 4 * minimal.length / (cBitLen + 1)
  let bytePad := 4 - (cBitLen + 1 + 7) / 8
  let array ← Buffer.store (List.replicate lenIndices 0) 0
    (expandArray minimal (cBitLen + 1) bytePad)
  readIndices array

/-- `GetMinimalFromIndices210`. -/
def getMinimalFromIndices (indices : List UInt32) (cBitLen : ℕ) : Option (List UInt8) :=
  let lenIndices := indices.length * 4
  let minLen := (cBitLen + 1) * lenIndices / (8 * 4)
  let bytePad := 4 - (cBitLen + 1 + 7) / 8
  compressArray (indices.flatMap ehIndexToArray) minLen (cBitLen + 1) bytePad

/-! ## The accumulator -/

theorem toNat_bitLenMask {bitLen : ℕ} (h : bitLen < 32) :
    (bitLenMask bitLen).toNat = 2 ^ bitLen - 1 := by
  have hlt : 2 ^ bitLen < 2 ^ 32 := Nat.pow_lt_pow_right (by decide) h
  have hbit : ((1 : UInt32) <<< UInt32.ofNat bitLen).toNat = 2 ^ bitLen := by
    have hone : (1 : UInt32).toNat = 1 := rfl
    rw [UInt32.toNat_shiftLeft, UInt32.toNat_ofNat', Nat.mod_eq_of_lt (a := bitLen) (by omega),
      Nat.mod_eq_of_lt h, Nat.shiftLeft_eq, hone, Nat.one_mul, Nat.mod_eq_of_lt hlt]
  have hone : (1 : UInt32) ≤ (1 : UInt32) <<< UInt32.ofNat bitLen := by
    rw [UInt32.le_iff_toNat_le, hbit]
    exact Nat.one_le_two_pow
  unfold bitLenMask
  rw [UInt32.toNat_sub_of_le _ _ hone, hbit]
  rfl

/-- Bits that are shifted in go behind those of the accumulator. -/
theorem bits_shiftIn {n k : ℕ} (hk : k < 32) (hfits : n + k ≤ 32) (v : UInt32) {x : UInt32}
    (hx : x.toNat < 2 ^ k) :
    bits (n + k) ((v <<< UInt32.ofNat k) ||| x).toNat = bits n v.toNat ++ bits k x.toNat := by
  have hk' : (UInt32.ofNat k).toNat % 32 = k := by
    rw [UInt32.toNat_ofNat', Nat.mod_eq_of_lt (a := k) (by omega), Nat.mod_eq_of_lt hk]
  rw [bits_append hx]
  refine bits_congr fun i hi => ?_
  rw [UInt32.toNat_or, UInt32.toNat_shiftLeft, hk', Nat.testBit_or, Nat.testBit_mod_two_pow,
    Nat.testBit_shiftLeft, Nat.testBit_two_pow_mul_add _ hx, decide_eq_true (by omega : i < 32),
    Bool.true_and]
  split
  · rename_i hlt
    rw [decide_eq_false (Nat.not_le.mpr hlt), Bool.false_and, Bool.false_or]
  · rename_i hge
    have hzero : x.toNat.testBit i = false :=
      Nat.testBit_lt_two_pow (hx.trans_le (Nat.pow_le_pow_right (by decide) (Nat.not_lt.mp hge)))
    rw [decide_eq_true (Nat.not_lt.mp hge), Bool.true_and, hzero, Bool.or_false]

/-- A byte of an element: shifted down, and masked. -/
theorem masked_byte (a : UInt32) {r k bitLen : ℕ} (hbit : bitLen < 32) (hshift : r + 8 * k < 32) :
    ((a >>> UInt32.ofNat (r + 8 * k)) &&&
      ((bitLenMask bitLen >>> UInt32.ofNat (8 * k)) &&& 0xFF)).toUInt8 =
      UInt8.ofNat (a.toNat / 2 ^ r % 2 ^ bitLen / 256 ^ k) := by
  have hr : (UInt32.ofNat (r + 8 * k)).toNat % 32 = r + 8 * k := by
    rw [UInt32.toNat_ofNat', Nat.mod_eq_of_lt (a := r + 8 * k) (by omega), Nat.mod_eq_of_lt hshift]
  have hk : (UInt32.ofNat (8 * k)).toNat % 32 = 8 * k := by
    rw [UInt32.toNat_ofNat', Nat.mod_eq_of_lt (a := 8 * k) (by omega), Nat.mod_eq_of_lt (by omega)]
  have hff : (0xFF : UInt32).toNat = 2 ^ 8 - 1 := rfl
  refine UInt8.toNat_inj.mp ?_
  rw [UInt32.toNat_toUInt8, UInt32.toNat_and, UInt32.toNat_and, UInt32.toNat_shiftRight,
    UInt32.toNat_shiftRight, hr, hk, hff, toNat_bitLenMask hbit, UInt8.toNat_ofNat',
    ← two_pow_eight_mul]
  refine Nat.eq_of_testBit_eq fun i => ?_
  simp only [Nat.testBit_mod_two_pow, Nat.testBit_and, Nat.testBit_shiftRight,
    Nat.testBit_two_pow_sub_one, Nat.testBit_div_two_pow]
  rw [show r + 8 * k + i = i + 8 * k + r by omega, Nat.add_comm (8 * k) i]
  cases a.toNat.testBit (i + 8 * k + r) <;> cases decide (i < 8) <;>
    cases decide (i + 8 * k < bitLen) <;> rfl

/-! ## Expanding -/

/-- An element, with its most significant byte first. -/
def element (bitLen bytePad v : ℕ) : List UInt8 :=
  List.replicate bytePad 0 ++ (bytes (elementWidth bitLen) v).reverse

theorem length_element (bitLen bytePad v : ℕ) :
    (element bitLen bytePad v).length = bytePad + elementWidth bitLen := by
  unfold element
  rw [List.length_append, List.length_replicate, List.length_reverse, length_bytes]

theorem expandElement_eq {bitLen accBits : ℕ} (bytePad : ℕ) (hbit : bitLen < 32)
    (hshift : accBits + 8 * (elementWidth bitLen - 1) < 32) (a : UInt32) :
    expandElement bitLen bytePad accBits a =
      element bitLen bytePad (a.toNat / 2 ^ accBits % 2 ^ bitLen) := by
  unfold expandElement element
  dsimp only
  rw [bytes_eq_map_range, Nat.add_sub_cancel]
  refine congrArg _ (List.ext_getElem (by simp) fun i hi _ => ?_)
  have hlt : i < elementWidth bitLen := by simpa using hi
  have hx : elementWidth bitLen + bytePad - (bytePad + i) - 1 = elementWidth bitLen - 1 - i := by
    omega
  simp only [List.getElem_map, List.getElem_range', List.getElem_reverse, List.length_map,
    List.length_range, List.getElem_range, one_mul, hx]
  exact masked_byte a hbit (by omega)

/-- The bits of a byte sequence. -/
def byteBits (bs : List UInt8) : List Bool := bs.flatMap fun b => bits 8 b.toNat

theorem length_byteBits (bs : List UInt8) : (byteBits bs).length = 8 * bs.length := by
  unfold byteBits
  induction bs with
  | nil => rfl
  | cons b bs ih =>
    rw [List.flatMap_cons, List.length_append, length_bits, ih, List.length_cons]
    omega

/-- After some bytes: the elements written, and in the accumulator the bits that wait. -/
structure Expanded (bitLen bytePad : ℕ) (read : List UInt8) (s : Expander) (vs : List ℕ) :
    Prop where
  read_eq : byteBits read = vs.flatMap (bits bitLen) ++ bits s.accBits s.accValue.toNat
  out_eq : s.out = vs.flatMap (element bitLen bytePad)
  lt_pow : ∀ v ∈ vs, v < 2 ^ bitLen
  accBits_lt : s.accBits < bitLen

/-- The step lemma: one more byte. -/
theorem Expanded.step {bitLen bytePad : ℕ} {read : List UInt8} {s : Expander} {vs : List ℕ}
    (hlow : 8 ≤ bitLen) (hhigh : bitLen ≤ 25) (h : Expanded bitLen bytePad read s vs) (b : UInt8) :
    ∃ vs', Expanded bitLen bytePad (read ++ [b]) (expandStep bitLen bytePad s b) vs' := by
  have hacc := h.accBits_lt
  have hb : b.toUInt32.toNat < 2 ^ 8 := by
    rw [UInt8.toNat_toUInt32]
    exact b.toNat_lt
  have hshift : bits (s.accBits + 8) ((s.accValue <<< 8) ||| b.toUInt32).toNat =
      bits s.accBits s.accValue.toNat ++ bits 8 b.toNat :=
    bits_shiftIn (k := 8) (by decide) (by omega) s.accValue hb
  have hread : byteBits (read ++ [b]) =
      vs.flatMap (bits bitLen) ++
        bits (s.accBits + 8) ((s.accValue <<< 8) ||| b.toUInt32).toNat := by
    rw [hshift, ← List.append_assoc, ← h.read_eq]
    unfold byteBits
    rw [List.flatMap_append, List.flatMap_singleton]
  unfold expandStep
  dsimp only
  split
  · rename_i hfull
    set a := (s.accValue <<< 8) ||| b.toUInt32
    have hsplit : s.accBits + 8 = bitLen + (s.accBits + 8 - bitLen) := by omega
    have hcut : bits bitLen (a.toNat / 2 ^ (s.accBits + 8 - bitLen)) =
        bits bitLen (a.toNat / 2 ^ (s.accBits + 8 - bitLen) % 2 ^ bitLen) :=
      bits_congr fun i hi => by rw [Nat.testBit_mod_two_pow, decide_eq_true hi, Bool.true_and]
    refine ⟨vs ++ [a.toNat / 2 ^ (s.accBits + 8 - bitLen) % 2 ^ bitLen], ?_, ?_, ?_, ?_⟩
    · rw [hread, hsplit, bits_add, hcut, List.flatMap_append, List.flatMap_singleton,
        List.append_assoc, ← hsplit]
    · dsimp only
      rw [h.out_eq, List.flatMap_append, List.flatMap_singleton,
        expandElement_eq bytePad (by omega) (by unfold elementWidth; omega)]
    · intro v hv
      rcases List.mem_append.mp hv with hv | hv
      · exact h.lt_pow v hv
      · rw [List.mem_singleton.mp hv]
        exact Nat.mod_lt _ (Nat.two_pow_pos _)
    · dsimp only
      omega
  · rename_i hroom
    exact ⟨vs, hread, h.out_eq, h.lt_pow, Nat.not_le.mp hroom⟩

/-- **`ExpandArray210`** writes the digits of its input. -/
theorem expandArray_eq {bitLen : ℕ} (hlow : 8 ≤ bitLen) (hhigh : bitLen ≤ 25) (bytePad : ℕ)
    (input : List UInt8) :
    expandArray input bitLen bytePad =
      (digits bitLen (byteBits input)).flatMap (element bitLen bytePad) := by
  have hrun : ∀ (rest read : List UInt8) (s : Expander) (vs : List ℕ),
      Expanded bitLen bytePad read s vs →
      ∃ vs',
        Expanded bitLen bytePad (read ++ rest) (rest.foldl (expandStep bitLen bytePad) s) vs' := by
    intro rest
    induction rest with
    | nil =>
      intro read s vs h
      rw [List.append_nil]
      exact ⟨vs, h⟩
    | cons b rest ih =>
      intro read s vs h
      obtain ⟨vs', h'⟩ := h.step hlow hhigh b
      rw [List.append_cons]
      exact ih _ _ _ h'
  obtain ⟨vs, h⟩ := hrun input [] ⟨0, 0, []⟩ []
    ⟨rfl, rfl, fun v hv => absurd hv List.not_mem_nil, by dsimp only; omega⟩
  unfold expandArray
  rw [h.out_eq, ← List.nil_append input, h.read_eq, digits_flatMap vs h.lt_pow (by
    rw [length_bits]
    exact h.accBits_lt)]

/-! ## Compressing -/

/-- A byte of an element that is read: masked, and shifted to its place. -/
theorem masked_piece (b : UInt8) {bitLen k : ℕ} (hbit : bitLen < 32) (hk : 8 * k + 8 ≤ 32) :
    ((b.toUInt32 &&& ((bitLenMask bitLen >>> UInt32.ofNat (8 * k)) &&& 0xFF)) <<<
      UInt32.ofNat (8 * k)).toNat = (2 ^ (8 * k) * b.toNat) &&& (2 ^ bitLen - 1) := by
  have hshift : (UInt32.ofNat (8 * k)).toNat % 32 = 8 * k := by
    rw [UInt32.toNat_ofNat', Nat.mod_eq_of_lt (a := 8 * k) (by omega), Nat.mod_eq_of_lt (by omega)]
  have hff : (0xFF : UInt32).toNat = 2 ^ 8 - 1 := rfl
  have hb := b.toNat_lt
  rw [UInt32.toNat_shiftLeft, UInt32.toNat_and, UInt32.toNat_and, UInt32.toNat_shiftRight, hshift,
    hff, toNat_bitLenMask hbit, UInt8.toNat_toUInt32]
  refine Nat.eq_of_testBit_eq fun i => ?_
  simp only [Nat.testBit_mod_two_pow, Nat.testBit_and, Nat.testBit_shiftRight,
    Nat.testBit_shiftLeft,
    Nat.testBit_two_pow_sub_one, Nat.testBit_two_pow_mul]
  by_cases hi : 8 * k ≤ i
  · obtain ⟨j, rfl⟩ := Nat.exists_eq_add_of_le hi
    rw [Nat.add_sub_cancel_left]
    by_cases hj : j < 8
    · have h32 : 8 * k + j < 32 := by omega
      simp [hj, h32]
    · have hzero : b.toNat.testBit j = false :=
        Nat.testBit_lt_two_pow (hb.trans_le (Nat.pow_le_pow_right (by decide) (Nat.not_lt.mp hj)))
      simp [hzero]
  · simp [hi]

/-- The bytes of an element are joined behind the accumulator. -/
theorem foldl_joinByte {bitLen : ℕ} (bytePad : ℕ) (hbit : bitLen < 32) (bs : List UInt8)
    (n inWidth : ℕ) (acc : UInt32) (hwidth : inWidth = bytePad + n + bs.length)
    (hlen : 8 * bs.length ≤ 32) :
    ((bs.zipIdx n).foldl (joinByte bitLen bytePad inWidth) acc).toNat =
      acc.toNat ||| (unsigned bs.reverse &&& (2 ^ bitLen - 1)) := by
  induction bs generalizing n acc with
  | nil =>
    rw [List.zipIdx_nil, List.foldl_nil, List.reverse_nil, unsigned_nil, Nat.zero_and, Nat.or_zero]
  | cons b bs ih =>
    rw [List.length_cons] at hwidth hlen
    have hplace : inWidth - (bytePad + n) - 1 = bs.length := by omega
    have hlow : unsigned bs.reverse < 2 ^ (8 * bs.length) := by
      have := unsigned_lt bs.reverse
      rwa [List.length_reverse, ← two_pow_eight_mul] at this
    have hvalue : unsigned (b :: bs).reverse =
        2 ^ (8 * bs.length) * b.toNat ||| unsigned bs.reverse := by
      rw [Nat.lor_comm, or_shifted hlow, List.reverse_cons, unsigned_append, unsigned_cons,
        unsigned_nil, List.length_reverse, two_pow_eight_mul, Nat.mul_zero, Nat.add_zero,
        Nat.add_comm]
    rw [List.zipIdx_cons, List.foldl_cons, ih (n + 1) _ (by omega) (by omega)]
    unfold joinByte
    dsimp only
    rw [hplace, UInt32.toNat_or, masked_piece b hbit (by omega), hvalue, Nat.or_assoc,
      ← Nat.and_or_distrib_right]

/-- After some bytes were written: the elements read, and the bits that wait. -/
structure Compressed (bitLen bytePad : ℕ) (vs : List ℕ) (s : Compressor) (k : ℕ) : Prop where
  read_eq : byteBits s.out ++ bits s.accBits s.accValue.toNat = (vs.take k).flatMap (bits bitLen)
  j_eq : s.j = k * (bytePad + elementWidth bitLen)
  le_length : k ≤ vs.length
  accBits_lt : s.accBits < bitLen + 8

theorem length_flatMap_bits (w : ℕ) (ns : List ℕ) : (ns.flatMap (bits w)).length = w * ns.length :=
  Blocks.length_flatMap (length_bits w) ns

/-- The next element is read when fewer than eight bits wait. -/
theorem Compressed.read {bitLen bytePad : ℕ} {vs : List ℕ} {s : Compressor} {k : ℕ}
    (hlow : 8 ≤ bitLen) (hhigh : bitLen ≤ 25) (hvs : ∀ v ∈ vs, v < 2 ^ bitLen)
    (h : Compressed bitLen bytePad vs s k) (hfew : s.accBits < 8) (hk : k < vs.length) :
    ∃ s', readElement (vs.flatMap (element bitLen bytePad)) bitLen bytePad s = some s' ∧
      Compressed bitLen bytePad vs s' (k + 1) ∧ s'.out = s.out ∧
      s'.accBits = s.accBits + bitLen := by
  have hwidth : bitLen ≤ 8 * elementWidth bitLen := by unfold elementWidth; omega
  have hwidth' : 8 * elementWidth bitLen ≤ 32 := by unfold elementWidth; omega
  have hv := hvs vs[k] (List.getElem_mem hk)
  have hsplit : vs = vs.take k ++ vs[k] :: vs.drop (k + 1) := by
    rw [← List.drop_eq_getElem_cons hk, List.take_append_drop]
  have hbefore : ((vs.take k).flatMap (element bitLen bytePad)).length =
      k * (bytePad + elementWidth bitLen) := by
    rw [Blocks.length_flatMap (length_element bitLen bytePad), List.length_take_of_le h.le_length,
      Nat.mul_comm]
  have hload : Buffer.load (vs.flatMap (element bitLen bytePad)) (s.j + bytePad)
      (elementWidth bitLen) = some (bytes (elementWidth bitLen) vs[k]).reverse := by
    have hparts : vs.flatMap (element bitLen bytePad) =
        ((vs.take k).flatMap (element bitLen bytePad) ++ List.replicate bytePad 0) ++
          ((bytes (elementWidth bitLen) vs[k]).reverse ++
            (vs.drop (k + 1)).flatMap (element bitLen bytePad)) := by
      conv_lhs => rw [hsplit]
      rw [List.flatMap_append, List.flatMap_cons]
      unfold element
      simp only [List.append_assoc]
    rw [hparts]
    refine Buffer.load_append _ _ _ ?_ ?_
    · rw [List.length_append, hbefore, List.length_replicate, h.j_eq]
    · rw [List.length_reverse, length_bytes]
  have hmask : vs[k] &&& (2 ^ bitLen - 1) = vs[k] := by
    rw [Nat.and_two_pow_sub_one_eq_mod, Nat.mod_eq_of_lt hv]
  have hvalue : ((bytes (elementWidth bitLen) vs[k]).reverse.zipIdx.foldl
      (joinByte bitLen bytePad (elementWidth bitLen + bytePad))
      (s.accValue <<< UInt32.ofNat bitLen)) =
      (s.accValue <<< UInt32.ofNat bitLen) ||| UInt32.ofNat vs[k] := by
    have h32 : vs[k] < 2 ^ 32 := hv.trans (Nat.pow_lt_pow_right (by decide) (by omega))
    refine UInt32.toNat_inj.mp ?_
    rw [foldl_joinByte bytePad (by omega) _ 0 _ _ (by
        rw [List.length_reverse, length_bytes]
        omega) (by
        rw [List.length_reverse, length_bytes]
        exact hwidth'), List.reverse_reverse, unsigned_bytes (hv.trans_le (by
        rw [← two_pow_eight_mul]
        exact Nat.pow_le_pow_right (by decide) hwidth)), hmask, UInt32.toNat_or,
      UInt32.toNat_ofNat', Nat.mod_eq_of_lt h32]
  unfold readElement
  dsimp only
  rw [Nat.add_sub_cancel, hload]
  refine ⟨_, rfl, ⟨?_, ?_, hk, ?_⟩, rfl, rfl⟩
  · have h32 : vs[k] < 2 ^ 32 := hv.trans (Nat.pow_lt_pow_right (by decide) (by omega))
    have hnat : (UInt32.ofNat vs[k]).toNat = vs[k] := by
      rw [UInt32.toNat_ofNat', Nat.mod_eq_of_lt h32]
    dsimp only
    rw [hvalue, bits_shiftIn (by omega) (by omega) _ (by rwa [hnat]), hnat, ← List.append_assoc,
      h.read_eq, List.take_succ_eq_append_getElem hk, List.flatMap_append, List.flatMap_singleton]
  · dsimp only
    rw [h.j_eq]
    ring
  · dsimp only
    omega

/-- The step lemma: one more byte. -/
theorem Compressed.step {bitLen bytePad : ℕ} {vs : List ℕ} {s : Compressor} {k : ℕ}
    (hlow : 8 ≤ bitLen) (hhigh : bitLen ≤ 25) (hvs : ∀ v ∈ vs, v < 2 ^ bitLen)
    (h : Compressed bitLen bytePad vs s k) (hroom : 8 * (s.out.length + 1) ≤ bitLen * vs.length) :
    ∃ s' k', compressStep (vs.flatMap (element bitLen bytePad)) bitLen bytePad s = some s' ∧
      Compressed bitLen bytePad vs s' k' ∧ s'.out.length = s.out.length + 1 := by
  -- first the element, when too few bits wait
  obtain ⟨t, j, ht, hread, hout, hacc⟩ : ∃ t j,
      (if s.accBits < 8 then readElement (vs.flatMap (element bitLen bytePad)) bitLen bytePad s
        else some s) = some t ∧ Compressed bitLen bytePad vs t j ∧ t.out = s.out ∧
      8 ≤ t.accBits := by
    split
    · rename_i hfew
      have hlen := congrArg List.length h.read_eq
      rw [List.length_append, length_byteBits, length_bits, length_flatMap_bits, List.length_take,
        Nat.min_eq_left h.le_length] at hlen
      have hk : k < vs.length := by
        by_contra hge
        have : k = vs.length := by have := h.le_length; omega
        subst this
        omega
      obtain ⟨t, hsome, ht, hout, hacc⟩ := h.read hlow hhigh hvs hfew hk
      exact ⟨t, k + 1, hsome, ht, hout, by omega⟩
    · rename_i henough
      exact ⟨s, k, rfl, h, rfl, Nat.not_lt.mp henough⟩
  -- then the byte above the bits that stay
  have hlt := hread.accBits_lt
  have hsplit : t.accBits = 8 + (t.accBits - 8) := by omega
  have hshift : (UInt32.ofNat (t.accBits - 8)).toNat % 32 = t.accBits - 8 := by
    rw [UInt32.toNat_ofNat', Nat.mod_eq_of_lt (a := t.accBits - 8) (by omega),
      Nat.mod_eq_of_lt (by omega)]
  have hff : (0xFF : UInt32).toNat = 2 ^ 8 - 1 := rfl
  have hbyte : bits 8 ((t.accValue >>> UInt32.ofNat (t.accBits - 8)) &&& 0xFF).toUInt8.toNat =
      bits 8 (t.accValue.toNat / 2 ^ (t.accBits - 8)) := by
    refine bits_congr fun i hi => ?_
    rw [UInt32.toNat_toUInt8, UInt32.toNat_and, UInt32.toNat_shiftRight, hshift, hff,
      Nat.and_two_pow_sub_one_eq_mod, Nat.mod_mod, Nat.shiftRight_eq_div_pow,
      Nat.testBit_mod_two_pow, decide_eq_true hi, Bool.true_and]
  unfold compressStep
  dsimp only
  rw [ht]
  refine ⟨writeByte t, j, rfl, ⟨?_, hread.j_eq, hread.le_length, ?_⟩, ?_⟩
  · have hbits := hread.read_eq
    rw [hsplit, bits_add, ← List.append_assoc] at hbits
    unfold writeByte
    dsimp only
    rw [← hbits]
    unfold byteBits
    rw [List.flatMap_append, List.flatMap_singleton, hbyte]
  · change t.accBits - 8 < bitLen + 8
    omega
  · change (t.out ++ _).length = _
    rw [List.length_append, List.length_singleton, hout]

/-- **`CompressArray210`** writes the bytes of the elements it is given, one behind the other. -/
theorem compressArray_eq {bitLen : ℕ} (bytePad outLen : ℕ) {vs : List ℕ} (hlow : 8 ≤ bitLen)
    (hhigh : bitLen ≤ 25) (hvs : ∀ v ∈ vs, v < 2 ^ bitLen)
    (hroom : 8 * outLen ≤ bitLen * vs.length) :
    ∃ out, compressArray (vs.flatMap (element bitLen bytePad)) outLen bitLen bytePad = some out ∧
      out.length = outLen ∧ byteBits out = (vs.flatMap (bits bitLen)).take (8 * outLen) := by
  obtain ⟨s, k, hs, h, hlen⟩ : ∃ s k, (List.range outLen).foldlM (fun s _ =>
      compressStep (vs.flatMap (element bitLen bytePad)) bitLen bytePad s) ⟨0, 0, 0, []⟩ = some s ∧
      Compressed bitLen bytePad vs s k ∧ s.out.length = outLen := by
    induction outLen with
    | zero =>
      exact ⟨_, 0, rfl, ⟨rfl, (Nat.zero_mul _).symm, Nat.zero_le _, by dsimp only; omega⟩, rfl⟩
    | succ outLen ih =>
      obtain ⟨s, k, hs, h, hlen⟩ := ih (by omega)
      obtain ⟨s', k', hs', h', hlen'⟩ := h.step hlow hhigh hvs (by rw [hlen]; exact hroom)
      refine ⟨s', k', ?_, h', by omega⟩
      rw [List.range_succ, List.foldlM_append, hs, Option.bind_eq_bind, Option.bind_some,
        List.foldlM_cons, hs', Option.bind_eq_bind, Option.bind_some, List.foldlM_nil]
      rfl
  refine ⟨s.out, by unfold compressArray; rw [hs]; rfl, hlen, ?_⟩
  have hfront : (vs.flatMap (bits bitLen)).take (8 * outLen) =
      ((vs.take k).flatMap (bits bitLen)).take (8 * outLen) := by
    conv_lhs => rw [← List.take_append_drop k vs, List.flatMap_append]
    refine List.take_append_of_le_length ?_
    rw [← h.read_eq, List.length_append, length_byteBits, hlen]
    exact Nat.le_add_right _ _
  rw [hfront, ← h.read_eq, List.take_left' (by rw [length_byteBits, hlen])]

/-! ## Indices and their short form -/

theorem length_ehIndexToArray (i : UInt32) : (ehIndexToArray i).length = 4 := by
  unfold ehIndexToArray
  rw [List.length_reverse, length_bytes]

theorem arrayToEhIndex_ehIndexToArray (i : UInt32) : arrayToEhIndex (ehIndexToArray i) = i := by
  unfold arrayToEhIndex ehIndexToArray
  rw [List.reverse_reverse, unsigned_bytes i.toNat_lt, UInt32.ofNat_toNat]

theorem bytes_succ (k n : ℕ) : bytes (k + 1) n = bytes k n ++ [UInt8.ofNat (n / 256 ^ k)] := by
  rw [bytes_eq_map_range, bytes_eq_map_range, List.range_succ, List.map_append]
  rfl

/-- Padding a number that is small enough changes nothing. -/
theorem bytes_add_of_lt {k n : ℕ} (h : n < 256 ^ k) (p : ℕ) :
    bytes (k + p) n = bytes k n ++ List.replicate p 0 := by
  induction p with
  | zero => rw [Nat.add_zero, List.replicate_zero, List.append_nil]
  | succ p ih =>
    have hdiv : n / 256 ^ (k + p) = 0 :=
      Nat.div_eq_of_lt (h.trans_le (Nat.pow_le_pow_right (by decide) (Nat.le_add_right k p)))
    rw [← Nat.add_assoc, bytes_succ, ih, hdiv, List.append_assoc, List.replicate_succ']
    rfl

/-- An element with its padding is an index. -/
theorem element_eq {bitLen v : ℕ} (hhigh : bitLen ≤ 25) (hv : v < 2 ^ bitLen) :
    element bitLen (4 - elementWidth bitLen) v = ehIndexToArray (UInt32.ofNat v) := by
  have hwidth : elementWidth bitLen ≤ 4 := by unfold elementWidth; omega
  have hlt : v < 256 ^ elementWidth bitLen := by
    refine hv.trans_le ?_
    rw [← two_pow_eight_mul]
    exact Nat.pow_le_pow_right (by decide) (by unfold elementWidth; omega)
  have h32 : v < 2 ^ 32 := hv.trans (Nat.pow_lt_pow_right (by decide) (by omega))
  have hbytes := bytes_add_of_lt hlt (4 - elementWidth bitLen)
  rw [Nat.add_sub_cancel' hwidth] at hbytes
  unfold element ehIndexToArray
  rw [UInt32.toNat_ofNat', Nat.mod_eq_of_lt h32, hbytes, List.reverse_append,
    List.reverse_replicate]

/-- Reading an array of indices. -/
theorem readIndices_flatMap (is : List UInt32) :
    readIndices (is.flatMap ehIndexToArray) = some is := by
  have hcount : ((is.flatMap ehIndexToArray).length + 3) / 4 = is.length := by
    rw [Blocks.length_flatMap length_ehIndexToArray]
    omega
  have hload := Buffer.mapM_load_flatMap length_ehIndexToArray [] is []
  simp only [List.nil_append, List.append_nil, List.length_nil, Nat.zero_add] at hload
  unfold readIndices
  rw [hcount, hload, Option.map_some, List.map_map]
  refine congrArg some (Eq.trans (List.map_congr_left fun i _ => ?_) (List.map_id is))
  exact arrayToEhIndex_ehIndexToArray i

/-- **The indices of a short form** are its digits; no access leaves the array. -/
theorem getIndicesFromMinimal_eq {cBitLen : ℕ} (hlow : 7 ≤ cBitLen) (hhigh : cBitLen ≤ 24)
    {minimal : List UInt8} (hlen : cBitLen + 1 ∣ 8 * minimal.length) :
    getIndicesFromMinimal minimal cBitLen =
      some ((digits (cBitLen + 1) (byteBits minimal)).map UInt32.ofNat) := by
  obtain ⟨n, hn⟩ := hlen
  have hcount : (digits (cBitLen + 1) (byteBits minimal)).length = n := by
    rw [length_digits (Nat.succ_pos cBitLen), length_byteBits, hn,
      Nat.mul_div_cancel_left n (Nat.succ_pos cBitLen)]
  have hsize : 8 * 4 * minimal.length / (cBitLen + 1) = 4 * n := by
    rw [show 8 * 4 * minimal.length = (cBitLen + 1) * (4 * n) by
      rw [show 8 * 4 * minimal.length = 4 * (8 * minimal.length) by ring, hn]
      ring, Nat.mul_div_cancel_left _ (Nat.succ_pos cBitLen)]
  have hexpand : expandArray minimal (cBitLen + 1) (4 - elementWidth (cBitLen + 1)) =
      ((digits (cBitLen + 1) (byteBits minimal)).map UInt32.ofNat).flatMap ehIndexToArray := by
    rw [expandArray_eq (by omega) (by omega), List.flatMap_map]
    refine List.flatMap_congr fun v hv => ?_
    exact element_eq (by omega) (digits_lt v hv)
  have hlength : (((digits (cBitLen + 1) (byteBits minimal)).map UInt32.ofNat).flatMap
      ehIndexToArray).length = 4 * n := by
    rw [Blocks.length_flatMap length_ehIndexToArray, List.length_map, hcount]
  have hstore : Buffer.store (List.replicate (4 * n) 0) 0
      (((digits (cBitLen + 1) (byteBits minimal)).map UInt32.ofNat).flatMap ehIndexToArray) =
      some (((digits (cBitLen + 1) (byteBits minimal)).map UInt32.ofNat).flatMap
        ehIndexToArray) := by
    rw [Buffer.store_zero (by rw [hlength, List.length_replicate]), hlength,
      List.drop_of_length_le (by rw [List.length_replicate]), List.append_nil]
  unfold getIndicesFromMinimal
  dsimp only
  change (Buffer.store _ 0 (expandArray minimal (cBitLen + 1)
    (4 - elementWidth (cBitLen + 1)))).bind readIndices = _
  rw [hsize, hexpand, hstore, Option.bind_some, readIndices_flatMap]

/-- **The short form of indices** that fit has their bits, one index behind the other. -/
theorem getMinimalFromIndices_eq {cBitLen : ℕ} (hlow : 7 ≤ cBitLen) (hhigh : cBitLen ≤ 24)
    {indices : List UInt32} (hlt : ∀ i ∈ indices, i.toNat < 2 ^ (cBitLen + 1))
    (hlen : 8 ∣ (cBitLen + 1) * indices.length) :
    ∃ minimal, getMinimalFromIndices indices cBitLen = some minimal ∧
      byteBits minimal = (indices.map UInt32.toNat).flatMap (bits (cBitLen + 1)) := by
  obtain ⟨n, hn⟩ := hlen
  have hsize : (cBitLen + 1) * (indices.length * 4) / (8 * 4) = n := by
    rw [← Nat.mul_assoc, hn, show 8 * n * 4 = 8 * 4 * n by ring,
      Nat.mul_div_cancel_left n (by decide)]
  have hvs : ∀ v ∈ indices.map UInt32.toNat, v < 2 ^ (cBitLen + 1) := fun v hv => by
    obtain ⟨i, hi, rfl⟩ := List.mem_map.mp hv
    exact hlt i hi
  have hinput : indices.flatMap ehIndexToArray =
      (indices.map UInt32.toNat).flatMap
        (element (cBitLen + 1) (4 - elementWidth (cBitLen + 1))) := by
    rw [List.flatMap_map]
    refine List.flatMap_congr fun i hi => ?_
    rw [element_eq (by omega) (hlt i hi), UInt32.ofNat_toNat]
  obtain ⟨out, hout, -, hbits⟩ := compressArray_eq (4 - elementWidth (cBitLen + 1)) n (by omega)
    (by omega) hvs (by rw [List.length_map, hn])
  refine ⟨out, ?_, ?_⟩
  · unfold getMinimalFromIndices
    dsimp only
    rw [hsize, hinput]
    exact hout
  · rw [hbits, ← hn]
    refine List.take_of_length_le ?_
    rw [length_flatMap_bits, List.length_map]

theorem byteBits_injective {bs cs : List UInt8} (h : byteBits bs = byteBits cs) : bs = cs := by
  have hdigits : ∀ bs : List UInt8, digits 8 (byteBits bs) = bs.map UInt8.toNat := fun bs => by
    have := @digits_flatMap_bits 8 (by decide) (bs.map UInt8.toNat) fun n hn => by
      obtain ⟨b, -, rfl⟩ := List.mem_map.mp hn
      exact b.toNat_lt
    rwa [List.flatMap_map] at this
  have hmap : bs.map UInt8.toNat = cs.map UInt8.toNat := by rw [← hdigits, h, hdigits]
  exact List.map_injective_iff.mpr (fun _ _ => UInt8.toNat_inj.mp) hmap

/-- **Round trip** from the indices. -/
theorem getIndices_getMinimal {cBitLen : ℕ} (hlow : 7 ≤ cBitLen) (hhigh : cBitLen ≤ 24)
    {indices : List UInt32} (hlt : ∀ i ∈ indices, i.toNat < 2 ^ (cBitLen + 1))
    (hlen : 8 ∣ (cBitLen + 1) * indices.length) :
    (getMinimalFromIndices indices cBitLen).bind (getIndicesFromMinimal · cBitLen) =
      some indices := by
  obtain ⟨minimal, hminimal, hbits⟩ := getMinimalFromIndices_eq hlow hhigh hlt hlen
  have hdvd : cBitLen + 1 ∣ 8 * minimal.length := by
    rw [← length_byteBits, hbits, length_flatMap_bits]
    exact Nat.dvd_mul_right _ _
  have hdigits : digits (cBitLen + 1) (byteBits minimal) = indices.map UInt32.toNat := by
    rw [hbits]
    refine digits_flatMap_bits (Nat.succ_pos cBitLen) _ fun v hv => ?_
    obtain ⟨i, hi, rfl⟩ := List.mem_map.mp hv
    exact hlt i hi
  rw [hminimal, Option.bind_some, getIndicesFromMinimal_eq hlow hhigh hdvd, hdigits, List.map_map]
  refine congrArg some (Eq.trans (List.map_congr_left fun i _ => ?_) (List.map_id indices))
  exact UInt32.ofNat_toNat

/-- **Round trip** from the short form. -/
theorem getMinimal_getIndices {cBitLen : ℕ} (hlow : 7 ≤ cBitLen) (hhigh : cBitLen ≤ 24)
    {minimal : List UInt8} (hlen : cBitLen + 1 ∣ 8 * minimal.length) :
    (getIndicesFromMinimal minimal cBitLen).bind (getMinimalFromIndices · cBitLen) =
      some minimal := by
  have hsmall : ∀ v ∈ digits (cBitLen + 1) (byteBits minimal), (UInt32.ofNat v).toNat = v :=
    fun v hv => by
      have h32 : v < 2 ^ 32 := (digits_lt v hv).trans (Nat.pow_lt_pow_right (by decide) (by omega))
      rw [UInt32.toNat_ofNat', Nat.mod_eq_of_lt h32]
  have hback : ((digits (cBitLen + 1) (byteBits minimal)).map UInt32.ofNat).map UInt32.toNat =
      digits (cBitLen + 1) (byteBits minimal) := by
    rw [List.map_map]
    exact (List.map_congr_left hsmall).trans (List.map_id _)
  have hbits : (digits (cBitLen + 1) (byteBits minimal)).flatMap (bits (cBitLen + 1)) =
      byteBits minimal := flatMap_digits (by rwa [length_byteBits])
  obtain ⟨out, hout, hout'⟩ := @getMinimalFromIndices_eq cBitLen hlow hhigh
    ((digits (cBitLen + 1) (byteBits minimal)).map UInt32.ofNat)
    (fun i hi => by
      obtain ⟨v, hv, rfl⟩ := List.mem_map.mp hi
      rw [hsmall v hv]
      exact digits_lt v hv)
    (by
      rw [List.length_map, ← length_flatMap_bits, hbits, length_byteBits]
      exact Nat.dvd_mul_right _ _)
  rw [hback, hbits] at hout'
  rw [getIndicesFromMinimal_eq hlow hhigh hlen, Option.bind_some, hout, byteBits_injective hout']

/-- **Round trip** both ways: for elements of 8 to 25 bits that fill whole bytes, the short form of
a list of indices gives the list back, and the indices of a short form give the short form back. -/
theorem minimal_round_trip {cBitLen : ℕ} (hlow : 7 ≤ cBitLen) (hhigh : cBitLen ≤ 24) :
    (∀ indices : List UInt32, (∀ i ∈ indices, i.toNat < 2 ^ (cBitLen + 1)) →
      8 ∣ (cBitLen + 1) * indices.length →
      (getMinimalFromIndices indices cBitLen).bind (getIndicesFromMinimal · cBitLen) =
        some indices) ∧
    ∀ minimal : List UInt8, cBitLen + 1 ∣ 8 * minimal.length →
      (getIndicesFromMinimal minimal cBitLen).bind (getMinimalFromIndices · cBitLen) =
        some minimal :=
  ⟨fun _ hlt hlen => getIndices_getMinimal hlow hhigh hlt hlen,
    fun _ hlen => getMinimal_getIndices hlow hhigh hlen⟩

/-- Indices of 21 bits, one less than those of Equihash<210, 9>. -/
theorem minimal_round_trip_twenty :
    (getMinimalFromIndices [1, 2097151, 0, 7, 65536, 5, 1048576, 3] 20).bind
        (getIndicesFromMinimal · 20) = some [1, 2097151, 0, 7, 65536, 5, 1048576, 3] ∧
      (getIndicesFromMinimal (List.replicate 21 0xA5) 20).bind (getMinimalFromIndices · 20) =
        some (List.replicate 21 0xA5) :=
  have h := @minimal_round_trip 20 (by decide) (by decide)
  ⟨h.1 _ (by simp) (by decide), h.2 _ (by decide)⟩

end AionPool.Native
