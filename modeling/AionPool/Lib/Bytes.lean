import Mathlib.Data.Nat.Digits.Lemmas
import Mathlib.Data.Nat.Size
import Mathlib.Tactic.Linarith
import Mathlib.Tactic.Ring

/-!
# Numbers as byte sequences

Byte sequences are read with the least significant byte first.

* `unsigned` and `signed` read a sequence as a natural number and as a two's complement.
* `bytes k n` writes `n` with `k` bytes; `unsigned_bytes` and `bytes_unsigned` are inverse readings.
* `twos n` is the shortest two's complement of an integer, and `unsigned_twos_of_nonneg` says that
  a number that is not negative is read back without the sign.
* `unsigned_append_zeros`: zero bytes at the significant end change nothing.
-/

namespace AionPool.Lib.Bytes

/-- The natural number a sequence reads as. -/
def unsigned (bs : List UInt8) : ℕ := Nat.ofDigits 256 (bs.map UInt8.toNat)

/-- The integer a two's complement reads as. -/
def signed (bs : List UInt8) : ℤ :=
  if 2 * unsigned bs < 256 ^ bs.length then unsigned bs
  else (unsigned bs : ℤ) - 256 ^ bs.length

/-- `n` in `k` bytes. -/
def bytes : ℕ → ℕ → List UInt8
  | 0, _ => []
  | k + 1, n => UInt8.ofNat n :: bytes k (n / 256)

/-- How many bytes the shortest two's complement of `n` has. -/
def width (n : ℤ) : ℕ := (if 0 ≤ n then n else -n - 1).toNat.size / 8 + 1

/-- The shortest two's complement of `n`. -/
def twos (n : ℤ) : List UInt8 := bytes (width n) (n % 256 ^ width n).toNat

/-! ## Unsigned -/

theorem length_bytes (k n : ℕ) : (bytes k n).length = k := by
  induction k generalizing n with
  | zero => rfl
  | succ k ih => rw [bytes, List.length_cons, ih]

@[simp] theorem unsigned_nil : unsigned [] = 0 := rfl

theorem unsigned_cons (b : UInt8) (bs : List UInt8) :
    unsigned (b :: bs) = b.toNat + 256 * unsigned bs := Nat.ofDigits_cons

theorem unsigned_bytes {k n : ℕ} (h : n < 256 ^ k) : unsigned (bytes k n) = n := by
  induction k generalizing n with
  | zero => exact (Nat.lt_one_iff.mp h).symm
  | succ k ih =>
    have hdiv : n / 256 < 256 ^ k := Nat.div_lt_of_lt_mul (by rwa [pow_succ'] at h)
    rw [bytes, unsigned_cons, ih hdiv, UInt8.toNat_ofNat']
    exact Nat.mod_add_div n 256

theorem unsigned_lt (bs : List UInt8) : unsigned bs < 256 ^ bs.length := by
  have h := Nat.ofDigits_lt_base_pow_length (b := 256) (l := bs.map UInt8.toNat) (by norm_num)
    (fun d hd => by
      obtain ⟨b, -, rfl⟩ := List.mem_map.mp hd
      exact b.toNat_lt)
  rwa [List.length_map] at h

theorem unsigned_append (bs cs : List UInt8) :
    unsigned (bs ++ cs) = unsigned bs + 256 ^ bs.length * unsigned cs := by
  unfold unsigned
  rw [List.map_append, Nat.ofDigits_append, List.length_map]

/-- A sequence is what its number is written with. -/
theorem bytes_unsigned (bs : List UInt8) : bytes bs.length (unsigned bs) = bs := by
  induction bs with
  | nil => rfl
  | cons b bs ih =>
    have hb : b.toNat < 256 := b.toNat_lt
    have hdiv : unsigned (b :: bs) / 256 = unsigned bs := by
      rw [unsigned_cons]
      omega
    have hlow : UInt8.ofNat (unsigned (b :: bs)) = b := by
      rw [unsigned_cons]
      refine UInt8.toNat_inj.mp ?_
      rw [UInt8.toNat_ofNat']
      omega
    rw [List.length_cons, bytes, hdiv, hlow, ih]

/-- Zero bytes at the significant end change nothing. -/
theorem unsigned_append_zeros (bs : List UInt8) (k : ℕ) :
    unsigned (bs ++ List.replicate k 0) = unsigned bs := by
  unfold unsigned
  rw [List.map_append, List.map_replicate]
  exact Nat.ofDigits_append_replicate_zero _

/-! ## Two's complement -/

theorem lt_pow_width {n : ℤ} (h : 0 ≤ n) : n < 256 ^ width n := by
  have hsize : n.toNat < 2 ^ n.toNat.size := Nat.lt_size_self n.toNat
  have hle : 2 ^ n.toNat.size ≤ 256 ^ width n := by
    rw [show 256 = 2 ^ 8 from rfl, ← pow_mul]
    refine Nat.pow_le_pow_right (by norm_num) ?_
    unfold width
    rw [if_pos h]
    omega
  have : n.toNat < 256 ^ width n := hsize.trans_le hle
  calc n = (n.toNat : ℤ) := (Int.toNat_of_nonneg h).symm
    _ < ((256 ^ width n : ℕ) : ℤ) := by exact_mod_cast this
    _ = 256 ^ width n := by push_cast; rfl

theorem length_twos (n : ℤ) : (twos n).length = width n := length_bytes _ _

/-- What a two's complement reads as without its sign. -/
theorem unsigned_twos (n : ℤ) : unsigned (twos n) = (n % 256 ^ width n).toNat := by
  refine unsigned_bytes ?_
  have hpos : (0 : ℤ) < 256 ^ width n := by positivity
  have hlt := Int.emod_lt_of_pos n hpos
  have hnn := Int.emod_nonneg n hpos.ne'
  zify
  rwa [Int.toNat_of_nonneg hnn]

theorem unsigned_twos_of_nonneg {n : ℤ} (h : 0 ≤ n) : (unsigned (twos n) : ℤ) = n := by
  rw [unsigned_twos, Int.emod_eq_of_lt h (lt_pow_width h), Int.toNat_of_nonneg h]

/-- The shortest two's complement has at most the bytes any two's complement needs. -/
theorem width_le {n : ℤ} {k : ℕ} (hlo : -(2 ^ (8 * k + 7)) ≤ n) (hhi : n < 2 ^ (8 * k + 7)) :
    width n ≤ k + 1 := by
  have hsize : (if 0 ≤ n then n else -n - 1).toNat.size ≤ 8 * k + 7 := by
    refine Nat.size_le.mpr ?_
    zify
    split
    · rename_i h
      rwa [Int.toNat_of_nonneg h]
    · rename_i h
      rw [Int.toNat_of_nonneg (by omega)]
      omega
  unfold width
  omega

end AionPool.Lib.Bytes
