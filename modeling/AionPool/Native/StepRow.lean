import AionPool.Native.BitArray
import AionPool.Lib.Birthday

/-!
# Step rows (`FullStepRow` of `equi210/equi/equi210.h` and `.cpp`)

A row of the verification holds the digits of an exclusive or of hash values that are left, each in
three bytes, and behind them the indices in four bytes each. All rows have the width of the last
one.

* `Stands hash h is row`: after `h` rounds, `row` is what became of the indices `is`.
* **`join_decides`**: the checks of `IsValidSolution` on two rows, and the row it makes of them. No
  access leaves a row in the rounds that are played.

Models `equi210.cpp:227-290` and `equi210.h:102-143`.
-/

namespace AionPool.Native

open AionPool.Lib AionPool.Lib.Bytes AionPool.Lib.Bits AionPool.Lib.Bracket AionPool.Lib.Birthday

/-! ## The constants of `Equihash<210, 9>` -/

namespace Equihash210

/-- The template parameter `N`. -/
def N : ℕ := 210

/-- The template parameter `K`. -/
def K : ℕ := 9

def indicesPerHashOutput : ℕ := 512 / N

def hashLen : ℕ := (N + 7) / 8

def hashOutput : ℕ := indicesPerHashOutput * hashLen

def collisionBitLength : ℕ := N / (K + 1)

def collisionByteLength : ℕ := (collisionBitLength + 7) / 8

def hashLength : ℕ := (K + 1) * collisionByteLength

def finalFullWidth : ℕ := 2 * collisionByteLength + 4 * 2 ^ K

def solutionWidth : ℕ := 2 ^ K * (collisionBitLength + 1) / 8

@[simp] theorem collisionBitLength_eq : collisionBitLength = 21 := rfl

@[simp] theorem collisionByteLength_eq : collisionByteLength = 3 := rfl

@[simp] theorem hashLength_eq : hashLength = 30 := rfl

@[simp] theorem finalFullWidth_eq : finalFullWidth = 2054 := rfl

@[simp] theorem solutionWidth_eq : solutionWidth = 1408 := rfl

end Equihash210

open Equihash210

/-! ## Rows -/

/-- Why a verification ends early: the solution is not valid, or an access was out of bounds. -/
inductive Stop
  | invalid
  | undefined
deriving DecidableEq, Repr

def access {α : Type} : Option α → Except Stop α
  | some a => .ok a
  | none => .error .undefined

/-- `memcmp(..) < 0`. -/
def memcmpLt : List UInt8 → List UInt8 → Bool
  | a :: as, b :: bs => if a = b then memcmpLt as bs else decide (a < b)
  | _, _ => false

structure FullStepRow where
  hash : List UInt8
  length_hash : hash.length = finalFullWidth

namespace FullStepRow

/-- Bytes are written into the row. -/
def store (row : FullStepRow) (off : ℕ) (xs : List UInt8) : Option FullStepRow :=
  match h : Buffer.store row.hash off xs with
  | some hash => some ⟨hash, (Buffer.length_store h).trans row.length_hash⟩
  | none => none

/-- A row of zeros. -/
def blank : FullStepRow := ⟨List.replicate finalFullWidth 0, List.length_replicate⟩

/-- The row of one index. -/
def leaf (hashIn : List UInt8) (hLen cBitLen : ℕ) (i : UInt32) : Option FullStepRow := do
  let row ← blank.store 0 (expandArray hashIn cBitLen 0)
  row.store hLen (ehIndexToArray i)

/-- `IndicesBefore`. -/
def indicesBefore (a b : FullStepRow) (len lenIndices : ℕ) : Option Bool := do
  let as ← Buffer.load a.hash len lenIndices
  let bs ← Buffer.load b.hash len lenIndices
  return memcmpLt as bs

/-- The row of two rows: the first `trim` bytes are left out. -/
def merge (a b : FullStepRow) (len lenIndices trim : ℕ) : Option FullStepRow := do
  let as ← Buffer.load a.hash trim (len - trim)
  let bs ← Buffer.load b.hash trim (len - trim)
  let row ← a.store 0 (List.zipWith (· ^^^ ·) as bs)
  let ia ← Buffer.load a.hash len lenIndices
  let ib ← Buffer.load b.hash len lenIndices
  if ← a.indicesBefore b len lenIndices then
    let row ← row.store (len - trim) ia
    row.store (len - trim + lenIndices) ib
  else
    let row ← row.store (len - trim) ib
    row.store (len - trim + lenIndices) ia

/-- `IsZero`. -/
def isZero (row : FullStepRow) (len : ℕ) : Option Bool :=
  (Buffer.load row.hash 0 len).map fun bs => bs.all (· == 0)

/-- `HasCollision`. -/
def hasCollision (a b : FullStepRow) (l : ℕ) : Option Bool := do
  let as ← Buffer.load a.hash 0 l
  let bs ← Buffer.load b.hash 0 l
  return as == bs

/-- The arrays of the indices of a row. -/
def indexArrays (row : FullStepRow) (len lenIndices : ℕ) : Option (List (List UInt8)) :=
  (List.range ((lenIndices + 3) / 4)).mapM fun i => Buffer.load row.hash (len + 4 * i) 4

/-- `DistinctIndices`. -/
def distinctIndices (a b : FullStepRow) (len lenIndices : ℕ) : Option Bool := do
  let as ← a.indexArrays len lenIndices
  let bs ← b.indexArrays len lenIndices
  return as.all fun x => bs.all fun y => x != y

/-- The body of the loop of `IsValidSolution`, with `hashLen` and `lenIndices` as they are after `h`
rounds. -/
def join (h : ℕ) (a b : FullStepRow) : Except Stop FullStepRow := do
  let hashLen := hashLength - h * collisionByteLength
  let lenIndices := 4 * 2 ^ h
  if !(← access (hasCollision a b collisionByteLength)) then throw .invalid
  if ← access (b.indicesBefore a hashLen lenIndices) then throw .invalid
  if !(← access (distinctIndices a b hashLen lenIndices)) then throw .invalid
  access (merge a b hashLen lenIndices collisionByteLength)

end FullStepRow

/-! ## Comparing -/

theorem memcmpLt_append {xs ys : List UInt8} (hlen : xs.length = ys.length) (hne : xs ≠ ys)
    (xs' ys' : List UInt8) : memcmpLt (xs ++ xs') (ys ++ ys') = memcmpLt xs ys := by
  induction xs generalizing ys with
  | nil => exact absurd (List.eq_nil_of_length_eq_zero hlen.symm).symm hne
  | cons x xs ih =>
    match ys, hlen with
    | y :: ys, hlen =>
      rw [List.cons_append, List.cons_append, memcmpLt, memcmpLt]
      split
      · rename_i hxy
        subst hxy
        exact ih (Nat.succ.inj hlen) fun heq => hne (congrArg _ heq)
      · rfl

/-- Arrays compare as the numbers whose most significant byte they begin with. -/
theorem memcmpLt_iff {xs ys : List UInt8} (hlen : xs.length = ys.length) :
    memcmpLt xs ys = true ↔ unsigned xs.reverse < unsigned ys.reverse := by
  induction xs generalizing ys with
  | nil =>
    obtain rfl := List.eq_nil_of_length_eq_zero hlen.symm
    simp [memcmpLt]
  | cons x xs ih =>
    match ys, hlen with
    | y :: ys, hlen =>
      have hrest : xs.length = ys.length := Nat.succ.inj hlen
      have hx := unsigned_lt xs.reverse
      have hy := unsigned_lt ys.reverse
      have happend : ∀ (z : UInt8) (zs : List UInt8), zs.length = ys.length →
          unsigned (z :: zs).reverse = unsigned zs.reverse + 256 ^ ys.length * z.toNat := by
        intro z zs hz
        rw [List.reverse_cons, unsigned_append, List.length_reverse, hz, unsigned_cons,
          unsigned_nil, Nat.mul_zero, Nat.add_zero]
      rw [List.length_reverse] at hx hy
      rw [hrest] at hx
      rw [memcmpLt, happend x xs hrest, happend y ys rfl]
      split
      · rename_i hxy
        subst hxy
        rw [ih hrest]
        omega
      · rename_i hxy
        have hne : x.toNat ≠ y.toNat := fun h => hxy (UInt8.toNat_inj.mp h)
        rw [decide_eq_true_iff, UInt8.lt_iff_toNat_lt]
        constructor
        · intro hlt
          have := Nat.mul_le_mul_left (256 ^ ys.length) (Nat.succ_le_of_lt hlt)
          rw [Nat.mul_succ] at this
          omega
        · intro hlt
          by_contra hge
          have hgt : y.toNat < x.toNat := by omega
          have := Nat.mul_le_mul_left (256 ^ ys.length) (Nat.succ_le_of_lt hgt)
          rw [Nat.mul_succ] at this
          omega

/-- The arrays of some indices. -/
def indexBytes (is : List UInt32) : List UInt8 := is.flatMap ehIndexToArray

theorem length_indexBytes (is : List UInt32) : (indexBytes is).length = 4 * is.length :=
  Blocks.length_flatMap length_ehIndexToArray is

theorem indexBytes_append (is js : List UInt32) :
    indexBytes (is ++ js) = indexBytes is ++ indexBytes js := List.flatMap_append

theorem ehIndexToArray_inj {i j : UInt32} : ehIndexToArray i = ehIndexToArray j ↔ i = j :=
  ⟨fun h => by rw [← arrayToEhIndex_ehIndexToArray i, h, arrayToEhIndex_ehIndexToArray],
    congrArg _⟩

/-- Index arrays that begin differently compare as their first indices. -/
theorem memcmpLt_indexBytes {i j : UInt32} (hne : i ≠ j) (is js : List UInt32) :
    memcmpLt (indexBytes (i :: is)) (indexBytes (j :: js)) = true ↔ i < j := by
  have hnumber : ∀ i : UInt32, unsigned (ehIndexToArray i).reverse = i.toNat := fun i => by
    unfold ehIndexToArray
    rw [List.reverse_reverse, unsigned_bytes i.toNat_lt]
  have hlen : (ehIndexToArray i).length = (ehIndexToArray j).length := by
    rw [length_ehIndexToArray, length_ehIndexToArray]
  unfold indexBytes
  rw [List.flatMap_cons, List.flatMap_cons,
    memcmpLt_append hlen (fun h => hne (ehIndexToArray_inj.mp h)), memcmpLt_iff hlen, hnumber,
    hnumber]
  exact UInt32.lt_iff_toNat_lt.symm

/-! ## Digits -/

/-- A digit in its three bytes. -/
def digit (v : ℕ) : List UInt8 := element collisionBitLength 0 v

/-- The lowest `n` digits of a number. -/
def wide (n v : ℕ) : List UInt8 := (places collisionBitLength n v).flatMap digit

theorem digit_eq (v : ℕ) : digit v = (bytes 3 v).reverse := rfl

theorem length_digit (v : ℕ) : (digit v).length = 3 := by
  rw [digit_eq, List.length_reverse, length_bytes]

theorem wide_succ (n v : ℕ) : wide (n + 1) v = digit (v / 2 ^ (21 * n) % 2 ^ 21) ++ wide n v := rfl

theorem length_wide (n v : ℕ) : (wide n v).length = 3 * n := by
  induction n with
  | zero => rfl
  | succ n ih => rw [wide_succ, List.length_append, length_digit, ih]; ring

theorem digit_injective {u v : ℕ} (hu : u < 2 ^ 21) (hv : v < 2 ^ 21) (h : digit u = digit v) :
    u = v := by
  have hbytes := List.reverse_inj.mp h
  rw [← unsigned_bytes (hu.trans_le (by decide : 2 ^ 21 ≤ 256 ^ 3)), ← unsigned_bytes
    (hv.trans_le (by decide : 2 ^ 21 ≤ 256 ^ 3))]
  exact congrArg unsigned hbytes

theorem digit_xor (u v : ℕ) : List.zipWith (· ^^^ ·) (digit u) (digit v) = digit (u ^^^ v) := by
  rw [digit_eq, digit_eq, digit_eq, ← bytes_xor, List.reverse_zipWith]
  rw [length_bytes, length_bytes]

theorem wide_xor (n u v : ℕ) : List.zipWith (· ^^^ ·) (wide n u) (wide n v) = wide n (u ^^^ v) := by
  induction n with
  | zero => rfl
  | succ n ih =>
    rw [wide_succ, wide_succ, wide_succ, List.zipWith_append (by rw [length_digit, length_digit]),
      ih, digit_xor, Nat.xor_div_two_pow, Nat.xor_mod_two_pow]

/-- Two numbers have the same leading digit if the exclusive or has one less. -/
theorem digit_eq_iff {n u v : ℕ} (hu : u < 2 ^ (21 * (n + 1))) (hv : v < 2 ^ (21 * (n + 1))) :
    digit (u / 2 ^ (21 * n) % 2 ^ 21) = digit (v / 2 ^ (21 * n) % 2 ^ 21) ↔
      u ^^^ v < 2 ^ (21 * n) := by
  have hmod : ∀ x, x % 2 ^ 21 < 2 ^ 21 := fun x => Nat.mod_lt _ (by decide)
  rw [← place_eq_zero_iff (Nat.xor_lt_two_pow hu hv), Nat.xor_div_two_pow, Nat.xor_mod_two_pow,
    Nat.xor_eq_zero_iff]
  exact ⟨digit_injective (hmod _) (hmod _), congrArg _⟩

/-- The digits of a hash value are the elements of its bytes. -/
theorem expandArray_hash {hashIn : List UInt8} (hlen : hashIn.length = 27) :
    expandArray hashIn 21 0 = wide 10 (value ((byteBits hashIn).take 210)) := by
  have hbits : byteBits hashIn =
      bits (21 * 10) (value ((byteBits hashIn).take 210)) ++ (byteBits hashIn).drop 210 := by
    have htake := bits_value ((byteBits hashIn).take 210)
    rw [List.length_take_of_le (by rw [length_byteBits, hlen]; decide)] at htake
    rw [htake, List.take_append_drop]
  rw [expandArray_eq (by decide) (by decide)]
  conv_lhs => rw [hbits]
  rw [digits_bits _ (by rw [List.length_drop, length_byteBits, hlen]; decide)]
  rfl

/-! ## The rounds -/

/-- After `h` rounds a row stands for some indices: the digits that are left of the exclusive or of
their hash values, and the indices. -/
structure Stands (hash : UInt32 → ℕ) (h : ℕ) (is : List UInt32) (row : FullStepRow) : Prop where
  nodup : is.Nodup
  lt_pow : total hash is < 2 ^ (21 * (10 - h))
  hash_eq : ∃ rest, row.hash = wide (10 - h) (total hash is) ++ (indexBytes is ++ rest)

namespace FullStepRow

theorem store_of {row : FullStepRow} {off : ℕ} {xs hash : List UInt8}
    (h : Buffer.store row.hash off xs = some hash) :
    ∃ row', row.store off xs = some row' ∧ row'.hash = hash := by
  unfold store
  split
  · rename_i hash' hstore
    obtain rfl := Option.some.inj (hstore.symm.trans h)
    exact ⟨_, rfl, rfl⟩
  · rename_i hnone
    exact nomatch hnone.symm.trans h

/-- Behind a row's first bytes others are written. -/
theorem store_next {row : FullStepRow} {xs zs : List UInt8} (hrow : row.hash = xs ++ zs) {off : ℕ}
    (hoff : off = xs.length) {ys : List UInt8} (hroom : off + ys.length ≤ finalFullWidth) :
    ∃ row' zs', row.store off ys = some row' ∧ row'.hash = xs ++ ys ++ zs' := by
  have hwidth := row.length_hash
  rw [hrow, List.length_append] at hwidth
  obtain ⟨row', hstore, hbytes⟩ := @store_of row off ys _ (by
    rw [hrow]
    exact Buffer.store_behind xs zs hoff (by omega))
  exact ⟨row', _, hstore, hbytes.trans (List.append_assoc _ _ _).symm⟩

end FullStepRow

namespace Stands

variable {hash : UInt32 → ℕ} {h : ℕ} {x y : List UInt32} {a b : FullStepRow}

/-- The row of one index. -/
theorem leaf {i : UInt32} {hashIn : List UInt8} (hlen : hashIn.length = 27)
    (hvalue : hash i = value ((byteBits hashIn).take 210)) :
    ∃ row, FullStepRow.leaf hashIn hashLength collisionBitLength i = some row ∧
      Stands hash 0 [i] row := by
  have hwide := length_wide 10 (value ((byteBits hashIn).take 210))
  have hwidth := finalFullWidth_eq
  obtain ⟨row₁, _, hrow₁, hbytes₁⟩ := @FullStepRow.store_next .blank [] _ rfl 0 rfl
    (wide 10 (value ((byteBits hashIn).take 210))) (by omega)
  obtain ⟨row₂, rest, hrow₂, hbytes₂⟩ := @FullStepRow.store_next row₁ _ _ hbytes₁ 30 hwide.symm
    (ehIndexToArray i) (by rw [length_ehIndexToArray]; decide)
  have hlt := value_lt ((byteBits hashIn).take 210)
  rw [List.length_take_of_le (by rw [length_byteBits, hlen]; decide), ← hvalue] at hlt
  refine ⟨row₂, ?_, List.nodup_singleton i, ?_, rest, ?_⟩
  · unfold FullStepRow.leaf
    rw [collisionBitLength_eq, expandArray_hash hlen, hrow₁]
    exact hrow₂
  · rwa [total_singleton]
  · rw [hbytes₂, total_singleton, hvalue, List.nil_append, List.append_assoc]
    rfl

/-- What is left after the last round. -/
theorem isZero {is : List UInt32} (hx : Stands hash 9 is a) :
    a.isZero 3 = some (decide (total hash is = 0)) := by
  obtain ⟨rest, hbytes⟩ := hx.hash_eq
  have hlt := hx.lt_pow
  have hdigit : wide (10 - 9) (total hash is) = digit (total hash is) := by
    rw [show 10 - 9 = 0 + 1 from rfl, wide_succ, Nat.mul_zero, pow_zero, Nat.div_one,
      Nat.mod_eq_of_lt hlt]
    exact List.append_nil _
  have hzero : digit 0 = [0, 0, 0] := rfl
  unfold FullStepRow.isZero
  rw [hbytes, hdigit, Buffer.load_append_zero _ _ (length_digit _).symm, Option.map_some]
  refine congrArg some ?_
  rw [Bool.eq_iff_iff, decide_eq_true_iff, List.all_eq_true]
  constructor
  · intro hall
    refine digit_injective hlt (by decide) ?_
    rw [hzero]
    exact List.eq_replicate_iff.mpr ⟨length_digit _, fun b hb => beq_iff_eq.mp (hall b hb)⟩
  · intro htotal b hb
    rw [htotal, hzero] at hb
    exact beq_iff_eq.mpr (List.eq_of_mem_replicate (n := 3) hb)

/-- The indices of a row. -/
theorem load_indices (hx : Stands hash h x a) (hlen : x.length = 2 ^ h) (hh : h ≤ 9) :
    Buffer.load a.hash (30 - h * 3) (4 * 2 ^ h) = some (indexBytes x) := by
  obtain ⟨rest, hbytes⟩ := hx.hash_eq
  rw [hbytes]
  exact Buffer.load_append _ _ _ (by rw [length_wide]; omega) (by rw [length_indexBytes, hlen])

/-- The leading digit, and those behind it. -/
theorem hash_cons (hx : Stands hash h x a) (hh : h < 10) :
    ∃ rest, a.hash = digit (total hash x / 2 ^ (21 * (9 - h)) % 2 ^ 21) ++
      (wide (9 - h) (total hash x) ++ (indexBytes x ++ rest)) := by
  obtain ⟨rest, hbytes⟩ := hx.hash_eq
  rw [show 10 - h = 9 - h + 1 by omega, wide_succ, List.append_assoc] at hbytes
  exact ⟨rest, hbytes⟩

theorem hasCollision (hx : Stands hash h x a) (hy : Stands hash h y b) (hh : h < 9) :
    FullStepRow.hasCollision a b 3 = some (decide (Cancels hash 21 9 h x y)) := by
  obtain ⟨restx, hbx⟩ := hx.hash_cons (by omega)
  obtain ⟨resty, hby⟩ := hy.hash_cons (by omega)
  have hltx := hx.lt_pow
  have hlty := hy.lt_pow
  rw [show 10 - h = 9 - h + 1 by omega] at hltx hlty
  have hiff := digit_eq_iff hltx hlty
  rw [← total_append] at hiff
  unfold FullStepRow.hasCollision
  rw [hbx, hby, Buffer.load_append_zero _ _ (length_digit _).symm,
    Buffer.load_append_zero _ _ (length_digit _).symm]
  change some (_ == _) = _
  refine congrArg some ?_
  rw [Bool.eq_iff_iff, beq_iff_eq, decide_eq_true_iff]
  exact hiff

theorem indicesBefore (hx : Stands hash h x a) (hy : Stands hash h y b) (hxl : x.length = 2 ^ h)
    (hyl : y.length = 2 ^ h) (hh : h ≤ 9) :
    a.indicesBefore b (30 - h * 3) (4 * 2 ^ h) = some (memcmpLt (indexBytes x) (indexBytes y)) := by
  unfold FullStepRow.indicesBefore
  rw [hx.load_indices hxl hh, hy.load_indices hyl hh]
  rfl

theorem indexArrays (hx : Stands hash h x a) (hxl : x.length = 2 ^ h) (hh : h ≤ 9) :
    a.indexArrays (30 - h * 3) (4 * 2 ^ h) = some (x.map ehIndexToArray) := by
  obtain ⟨rest, hbytes⟩ := hx.hash_eq
  have hload := Buffer.mapM_load_flatMap length_ehIndexToArray (wide (10 - h) (total hash x)) x rest
  have hcount : (4 * 2 ^ h + 3) / 4 = x.length := by omega
  have hwide : (wide (10 - h) (total hash x)).length = 30 - h * 3 := by
    rw [length_wide]
    omega
  rw [hwide] at hload
  unfold FullStepRow.indexArrays
  rw [hcount, hbytes]
  exact hload

theorem distinctIndices (hx : Stands hash h x a) (hy : Stands hash h y b) (hxl : x.length = 2 ^ h)
    (hyl : y.length = 2 ^ h) (hh : h ≤ 9) :
    FullStepRow.distinctIndices a b (30 - h * 3) (4 * 2 ^ h) = some (decide (x ++ y).Nodup) := by
  unfold FullStepRow.distinctIndices
  rw [hx.indexArrays hxl hh, hy.indexArrays hyl hh]
  change some ((x.map ehIndexToArray).all fun u => (y.map ehIndexToArray).all fun v => u != v) = _
  refine congrArg some ?_
  rw [Bool.eq_iff_iff, decide_eq_true_iff, List.nodup_append', List.all_eq_true]
  constructor
  · intro hall
    refine ⟨hx.nodup, hy.nodup, fun i hi hj => ?_⟩
    have := List.all_eq_true.mp (hall _ (List.mem_map_of_mem hi)) _ (List.mem_map_of_mem hj)
    exact bne_iff_ne.mp this rfl
  · rintro ⟨-, -, hdisjoint⟩ u hu
    refine List.all_eq_true.mpr fun v hv => bne_iff_ne.mpr ?_
    obtain ⟨i, hi, rfl⟩ := List.mem_map.mp hu
    obtain ⟨j, hj, rfl⟩ := List.mem_map.mp hv
    exact fun heq => hdisjoint hi (ehIndexToArray_inj.mp heq ▸ hj)

theorem merge (hx : Stands hash h x a) (hy : Stands hash h y b) (hxl : x.length = 2 ^ h)
    (hyl : y.length = 2 ^ h) (hh : h < 9) (hcancels : Cancels hash 21 9 h x y)
    (hnodup : (x ++ y).Nodup) (hbefore : memcmpLt (indexBytes x) (indexBytes y) = true) :
    ∃ row, FullStepRow.merge a b (30 - h * 3) (4 * 2 ^ h) 3 = some row ∧
      Stands hash (h + 1) (x ++ y) row := by
  obtain ⟨restx, hbx⟩ := hx.hash_cons (by omega)
  obtain ⟨resty, hby⟩ := hy.hash_cons (by omega)
  set front := digit (total hash x / 2 ^ (21 * (9 - h)) % 2 ^ 21)
  set left := wide (9 - h) (total hash (x ++ y))
  -- the digits that are left
  have hxor : List.zipWith (· ^^^ ·) (wide (9 - h) (total hash x)) (wide (9 - h) (total hash y)) =
      left := by rw [wide_xor, ← total_append]
  have hlenleft : left.length = 30 - h * 3 - 3 := by rw [length_wide]; omega
  have hla : Buffer.load a.hash 3 (30 - h * 3 - 3) = some (wide (9 - h) (total hash x)) := by
    rw [hbx]
    exact Buffer.load_append _ _ _ (length_digit _).symm (by rw [length_wide]; omega)
  have hlb : Buffer.load b.hash 3 (30 - h * 3 - 3) = some (wide (9 - h) (total hash y)) := by
    rw [hby]
    exact Buffer.load_append _ _ _ (length_digit _).symm (by rw [length_wide]; omega)
  -- there is room for the digits and for all the indices
  have hxi : (indexBytes x).length = 4 * 2 ^ h := by rw [length_indexBytes, hxl]
  have hyi : (indexBytes y).length = 4 * 2 ^ h := by rw [length_indexBytes, hyl]
  have hroom : 30 - h * 3 - 3 + 4 * 2 ^ h + 4 * 2 ^ h ≤ finalFullWidth := by
    have : ∀ h < 9, 30 - h * 3 - 3 + 4 * 2 ^ h + 4 * 2 ^ h ≤ finalFullWidth := by decide
    exact this h hh
  obtain ⟨row₁, _, hrow₁, hbytes₁⟩ := @FullStepRow.store_next a [] a.hash rfl 0 rfl left (by omega)
  obtain ⟨row₂, _, hrow₂, hbytes₂⟩ := @FullStepRow.store_next row₁ _ _ hbytes₁
    (30 - h * 3 - 3) hlenleft.symm (indexBytes x) (by omega)
  obtain ⟨row₃, rest, hrow₃, hbytes₃⟩ := @FullStepRow.store_next row₂ _ _ hbytes₂
    (30 - h * 3 - 3 + 4 * 2 ^ h) (by rw [List.length_append, List.nil_append, hlenleft, hxi])
    (indexBytes y) (by omega)
  refine ⟨row₃, ?_, hnodup, ?_, rest, ?_⟩
  · unfold FullStepRow.merge
    rw [hla, hlb, hx.load_indices hxl (by omega), hy.load_indices hyl (by omega),
      hx.indicesBefore hy hxl hyl (by omega), hbefore]
    change (do
      let row ← a.store 0 (List.zipWith (· ^^^ ·) (wide (9 - h) (total hash x))
        (wide (9 - h) (total hash y)))
      let row ← row.store (30 - h * 3 - 3) (indexBytes x)
      row.store (30 - h * 3 - 3 + 4 * 2 ^ h) (indexBytes y)) = _
    rw [hxor, hrow₁]
    change (row₁.store (30 - h * 3 - 3) (indexBytes x)).bind (fun row =>
      row.store (30 - h * 3 - 3 + 4 * 2 ^ h) (indexBytes y)) = _
    rw [hrow₂]
    exact hrow₃
  · rw [show 10 - (h + 1) = 9 - h by omega]
    exact hcancels
  · rw [hbytes₃, show 10 - (h + 1) = 9 - h by omega, List.nil_append, indexBytes_append]
    simp only [List.append_assoc]
    rfl

end Stands

/-! ## A round -/

instance asymm_lt : Std.Asymm (LT.lt : UInt32 → UInt32 → Prop) :=
  ⟨fun _ _ h => Nat.lt_asymm (UInt32.lt_iff_toNat_lt.mp h) ∘ UInt32.lt_iff_toNat_lt.mp⟩

instance trichotomous_lt : Std.Trichotomous (LT.lt : UInt32 → UInt32 → Prop) :=
  ⟨fun _ _ h h' => by
    by_contra hne
    exact (UInt32.lt_or_lt_of_ne hne).elim h h'⟩

/-- When rows stand for blocks of indices, whether those may meet. -/
def Meets (hash : UInt32 → ℕ) (h : ℕ) (x y : List UInt32) : Prop :=
  Cancels hash 21 9 h x y ∧ (x ++ y).Nodup ∧ HeadLt x y

/-- Different blocks are compared by their first indices. -/
theorem memcmpLt_indexBytes_iff {h : ℕ} {x y : List UInt32} (hxl : x.length = 2 ^ h)
    (hyl : y.length = 2 ^ h) (hnodup : (x ++ y).Nodup) :
    memcmpLt (indexBytes x) (indexBytes y) = true ↔ HeadLt x y := by
  have hpos := Nat.two_pow_pos h
  obtain ⟨i, x, rfl⟩ := List.exists_cons_of_length_pos (hxl ▸ hpos)
  obtain ⟨j, y, rfl⟩ := List.exists_cons_of_length_pos (hyl ▸ hpos)
  have hne : i ≠ j := by
    rintro rfl
    exact (List.nodup_append'.mp hnodup).2.2 List.mem_cons_self List.mem_cons_self
  rw [memcmpLt_indexBytes hne]
  constructor
  · exact fun hlt => ⟨i, rfl, j, rfl, hlt⟩
  · rintro ⟨i', hi, j', hj, hlt⟩
    obtain rfl := Option.some.inj hi
    obtain rfl := Option.some.inj hj
    exact hlt

theorem FullStepRow.join_eq {h : ℕ} {a b : FullStepRow} {collides after distinct : Bool}
    (hcollides : hasCollision a b 3 = some collides)
    (hafter : b.indicesBefore a (30 - h * 3) (4 * 2 ^ h) = some after)
    (hdistinct : distinctIndices a b (30 - h * 3) (4 * 2 ^ h) = some distinct) :
    join h a b = if collides = true ∧ after = false ∧ distinct = true then
      access (merge a b (30 - h * 3) (4 * 2 ^ h) 3) else .error .invalid := by
  unfold join
  dsimp only [collisionByteLength_eq, hashLength_eq]
  rw [hcollides, hafter, hdistinct]
  cases collides
  · rfl
  · cases after
    · cases distinct <;> rfl
    · rfl

/-- **The body of the loop** decides whether two rows may meet, and what it makes of them stands for
the indices of both. -/
theorem join_decides (hash : UInt32 → ℕ) :
    Decides FullStepRow.join .invalid (Stands hash) (Meets hash) 9 := by
  intro h hh x y a b hxl hyl hx hy
  have hjoin := FullStepRow.join_eq (hx.hasCollision hy hh)
    (hy.indicesBefore hx hyl hxl (by omega)) (hx.distinctIndices hy hxl hyl (by omega))
  simp only [decide_eq_true_eq] at hjoin
  constructor
  · rintro ⟨hcancels, hnodup, hlt⟩
    have hbefore := (memcmpLt_indexBytes_iff hxl hyl hnodup).mpr hlt
    have hafter : memcmpLt (indexBytes y) (indexBytes x) = false := by
      rw [Bool.eq_false_iff, ne_eq,
        memcmpLt_indexBytes_iff hyl hxl (List.perm_append_comm.nodup_iff.mp hnodup)]
      exact hlt.asymm
    obtain ⟨row, hrow, hstands⟩ := hx.merge hy hxl hyl hh hcancels hnodup hbefore
    rw [if_pos ⟨hcancels, hafter, hnodup⟩, hrow] at hjoin
    exact ⟨row, hjoin, hstands⟩
  · intro hnot
    rw [hjoin, if_neg]
    rintro ⟨hcancels, hafter, hnodup⟩
    refine hnot ⟨hcancels, hnodup, ?_⟩
    have hpos := Nat.two_pow_pos h
    have hne : ∀ {z : List UInt32}, z.length = 2 ^ h → z ≠ [] := fun hz hnil =>
      absurd (hz ▸ hpos) (by rw [hnil]; exact lt_irrefl 0)
    rcases headLt_or_headLt (hne hxl) (hne hyl) (List.nodup_append'.mp hnodup).2.2 with hlt | hlt
    · exact hlt
    · have := (memcmpLt_indexBytes_iff hyl hxl (List.perm_append_comm.nodup_iff.mp hnodup)).mpr hlt
      exact absurd this (Bool.eq_false_iff.mp hafter)

end AionPool.Native
