import AionPool.Lib.Bytes
import Mathlib.Data.Nat.Bitwise

/-!
# Numbers as bit sequences

Bit sequences have the most significant bit first.

* `bits w n` are the lowest `w` bits of `n`, and `value` reads them: `value_bits`, `bits_value`.
* `digits w` cuts a sequence into numbers of `w` bits. **`digits_flatMap`**, **`flatMap_digits`**:
  it undoes writing numbers one behind the other, and is undone by it.
* `or_shifted`, `xor_shifted`: numbers whose bits do not overlap are joined by adding them.
* `unsigned_xor`: the exclusive or of two byte sequences, byte by byte, is that of their numbers.
-/

namespace AionPool.Lib.Bits

open AionPool.Lib.Bytes

theorem two_pow_eight_mul (k : ℕ) : 2 ^ (8 * k) = 256 ^ k := by
  rw [show 256 = 2 ^ 8 from rfl, ← pow_mul]

theorem or_shifted {k x : ℕ} (h : x < 2 ^ k) (y : ℕ) : x ||| 2 ^ k * y = 2 ^ k * y + x := by
  rw [Nat.lor_comm, Nat.two_pow_add_eq_or_of_lt h]

theorem xor_shifted {k x : ℕ} (h : x < 2 ^ k) (y : ℕ) : x ^^^ 2 ^ k * y = 2 ^ k * y + x := by
  refine Nat.eq_of_testBit_eq fun i => ?_
  rw [Nat.testBit_xor, Nat.testBit_two_pow_mul_add y h, Nat.testBit_two_pow_mul]
  by_cases hi : i < k
  · simp [hi, Nat.not_le.mpr hi]
  · have hx : x.testBit i = false :=
      Nat.testBit_lt_two_pow (h.trans_le (Nat.pow_le_pow_right (by decide) (Nat.not_lt.mp hi)))
    simp [hi, hx, Nat.not_lt.mp hi]

/-- Two digits at a time. -/
theorem xor_digits {k a b : ℕ} (ha : a < 2 ^ k) (hb : b < 2 ^ k) (x y : ℕ) :
    (2 ^ k * x + a) ^^^ (2 ^ k * y + b) = 2 ^ k * (x ^^^ y) + (a ^^^ b) := by
  refine Nat.eq_of_testBit_eq fun i => ?_
  rw [Nat.testBit_xor, Nat.testBit_two_pow_mul_add x ha, Nat.testBit_two_pow_mul_add y hb,
    Nat.testBit_two_pow_mul_add _ (Nat.xor_lt_two_pow ha hb), Nat.testBit_xor, Nat.testBit_xor]
  split <;> rfl

theorem unsigned_xor {bs cs : List UInt8} (h : bs.length = cs.length) :
    unsigned (List.zipWith (· ^^^ ·) bs cs) = unsigned bs ^^^ unsigned cs := by
  induction bs generalizing cs with
  | nil =>
    obtain rfl := List.eq_nil_of_length_eq_zero h.symm
    rfl
  | cons b bs ih =>
    match cs, h with
    | c :: cs, h =>
      have hlen := Nat.succ.inj h
      have hdigits := xor_digits (k := 8) b.toNat_lt c.toNat_lt (unsigned bs) (unsigned cs)
      rw [List.zipWith_cons_cons, unsigned_cons, unsigned_cons, unsigned_cons, ih hlen,
        UInt8.toNat_xor, Nat.add_comm b.toNat, Nat.add_comm c.toNat, Nat.add_comm]
      exact hdigits.symm

theorem bytes_eq_map_range (k n : ℕ) :
    bytes k n = (List.range k).map fun j => UInt8.ofNat (n / 256 ^ j) := by
  induction k generalizing n with
  | zero => rfl
  | succ k ih =>
    rw [bytes, ih, List.range_succ_eq_map, List.map_cons, List.map_map, pow_zero, Nat.div_one]
    refine congrArg _ (List.map_congr_left fun j _ => ?_)
    rw [Function.comp_apply, Nat.div_div_eq_div_mul, pow_succ']

theorem bytes_xor (k m n : ℕ) :
    List.zipWith (· ^^^ ·) (bytes k m) (bytes k n) = bytes k (m ^^^ n) := by
  induction k generalizing m n with
  | zero => rfl
  | succ k ih =>
    have hdiv : (m ^^^ n) / 256 = m / 256 ^^^ n / 256 := Nat.xor_div_two_pow (n := 8)
    rw [bytes, bytes, bytes, List.zipWith_cons_cons, ih, UInt8.ofNat_xor, hdiv]

/-! ## Bits -/

/-- The lowest `w` bits of a number. -/
def bits : ℕ → ℕ → List Bool
  | 0, _ => []
  | w + 1, n => n.testBit w :: bits w n

/-- The number a sequence reads as. -/
def value (l : List Bool) : ℕ := l.foldl (fun n b => 2 * n + b.toNat) 0

@[simp] theorem length_bits (w n : ℕ) : (bits w n).length = w := by
  induction w with
  | zero => rfl
  | succ w ih => rw [bits, List.length_cons, ih]

theorem bits_congr {w m n : ℕ} (h : ∀ i < w, m.testBit i = n.testBit i) : bits w m = bits w n := by
  induction w with
  | zero => rfl
  | succ w ih =>
    rw [bits, bits, h w (Nat.lt_succ_self w), ih fun i hi => h i (Nat.lt_succ_of_lt hi)]

theorem testBit_of_bits_eq {w m n : ℕ} (h : bits w m = bits w n) :
    ∀ i < w, m.testBit i = n.testBit i := by
  induction w with
  | zero => exact fun i hi => absurd hi (Nat.not_lt_zero i)
  | succ w ih =>
    intro i hi
    obtain ⟨htop, hrest⟩ := List.cons.inj h
    rcases Nat.eq_or_lt_of_le (Nat.le_of_lt_succ hi) with rfl | hlt
    · exact htop
    · exact ih hrest i hlt

/-- A number is determined by its bits. -/
theorem bits_inj {w m n : ℕ} (hm : m < 2 ^ w) (hn : n < 2 ^ w) (h : bits w m = bits w n) :
    m = n := by
  refine Nat.eq_of_testBit_eq fun i => ?_
  by_cases hi : i < w
  · exact testBit_of_bits_eq h i hi
  · have hle : 2 ^ w ≤ 2 ^ i := Nat.pow_le_pow_right (by decide) (Nat.not_lt.mp hi)
    rw [Nat.testBit_lt_two_pow (hm.trans_le hle), Nat.testBit_lt_two_pow (hn.trans_le hle)]

theorem bits_add (v w n : ℕ) : bits (v + w) n = bits v (n / 2 ^ w) ++ bits w n := by
  induction v with
  | zero => rw [Nat.zero_add, bits, List.nil_append]
  | succ v ih =>
    rw [Nat.succ_add, bits, ih, bits, List.cons_append, Nat.testBit_div_two_pow]

/-- Two numbers, one behind the other. -/
theorem bits_append {v w m n : ℕ} (hn : n < 2 ^ w) :
    bits v m ++ bits w n = bits (v + w) (2 ^ w * m + n) := by
  have hhigh : (2 ^ w * m + n) / 2 ^ w = m := by
    rw [Nat.mul_add_div (Nat.two_pow_pos w), Nat.div_eq_of_lt hn, Nat.add_zero]
  have hlow : bits w (2 ^ w * m + n) = bits w n :=
    bits_congr fun i hi => by rw [Nat.testBit_two_pow_mul_add m hn, if_pos hi]
  rw [bits_add, hhigh, hlow]

theorem value_append_singleton (l : List Bool) (b : Bool) :
    value (l ++ [b]) = 2 * value l + b.toNat := by
  unfold value
  rw [List.foldl_append]
  rfl

theorem bits_value (l : List Bool) : bits l.length (value l) = l := by
  induction l using List.reverseRecOn with
  | nil => rfl
  | append_singleton l b ih =>
    have hb : bits 1 b.toNat = [b] := by cases b <;> rfl
    have hlt : b.toNat < 2 ^ 1 := b.toNat_lt
    have happend := bits_append (v := l.length) (m := value l) hlt
    rw [ih, hb, pow_one] at happend
    rw [value_append_singleton, List.length_append, List.length_singleton, ← happend]

theorem value_lt (l : List Bool) : value l < 2 ^ l.length := by
  induction l using List.reverseRecOn with
  | nil => exact Nat.one_pos
  | append_singleton l b ih =>
    have hb := b.toNat_lt
    rw [value_append_singleton, List.length_append, List.length_singleton, pow_succ]
    omega

theorem value_bits {w n : ℕ} (h : n < 2 ^ w) : value (bits w n) = n := by
  have hlt := value_lt (bits w n)
  have hbits := bits_value (bits w n)
  rw [length_bits] at hlt hbits
  exact bits_inj hlt h hbits

/-! ## Digits -/

/-- The numbers of `w` bits a sequence begins with. -/
def digits (w : ℕ) (l : List Bool) : List ℕ :=
  if _h : 0 < w ∧ w ≤ l.length then value (l.take w) :: digits w (l.drop w) else []
termination_by l.length
decreasing_by
  rw [List.length_drop]
  omega

theorem digits_of_lt {w : ℕ} {l : List Bool} (h : l.length < w) : digits w l = [] := by
  rw [digits, dif_neg (by omega)]

/-- Numbers that were written one behind the other, with some bits left. -/
theorem digits_flatMap {w : ℕ} (ns : List ℕ) (hns : ∀ n ∈ ns, n < 2 ^ w) {rest : List Bool}
    (hrest : rest.length < w) : digits w (ns.flatMap (bits w) ++ rest) = ns := by
  induction ns with
  | nil => exact digits_of_lt hrest
  | cons n ns ih =>
    have hw : 0 < w := Nat.zero_lt_of_lt hrest
    have hcons :
        (n :: ns).flatMap (bits w) ++ rest = bits w n ++ (ns.flatMap (bits w) ++ rest) := by
      rw [List.flatMap_cons, List.append_assoc]
    have hle : w ≤ (bits w n ++ (ns.flatMap (bits w) ++ rest)).length := by
      rw [List.length_append, length_bits]
      exact Nat.le_add_right _ _
    rw [hcons, digits, dif_pos ⟨hw, hle⟩, List.take_left' (length_bits w n),
      List.drop_left' (length_bits w n), value_bits (hns n List.mem_cons_self),
      ih fun m hm => hns m (List.mem_cons_of_mem n hm)]

/-- Numbers that were written one behind the other, with no bits left. -/
theorem digits_flatMap_bits {w : ℕ} (hw : 0 < w) (ns : List ℕ) (hns : ∀ n ∈ ns, n < 2 ^ w) :
    digits w (ns.flatMap (bits w)) = ns := by
  have := digits_flatMap ns hns (show ([] : List Bool).length < w from hw)
  rwa [List.append_nil] at this

/-- The bits of the digits, when there are no bits left. -/
theorem flatMap_digits {w : ℕ} {l : List Bool} (h : w ∣ l.length) :
    (digits w l).flatMap (bits w) = l := by
  induction l using digits.induct w with
  | case1 l hle ih =>
    have hlen : (l.take w).length = w := by rw [List.length_take]; omega
    have hdvd : w ∣ (l.drop w).length := by
      rw [List.length_drop]
      exact Nat.dvd_sub h (dvd_refl w)
    have hfirst : bits w (value (l.take w)) = l.take w := by
      have := bits_value (l.take w)
      rwa [hlen] at this
    rw [digits, dif_pos hle, List.flatMap_cons, ih hdvd, hfirst, List.take_append_drop]
  | case2 l hlt =>
    have hnil : l = [] := by
      refine List.eq_nil_of_length_eq_zero ?_
      rcases Nat.eq_zero_or_pos w with rfl | hw
      · exact Nat.eq_zero_of_zero_dvd h
      · exact Nat.eq_zero_of_dvd_of_lt h (by omega)
    rw [digits, dif_neg hlt, hnil]
    rfl

theorem length_digits {w : ℕ} (hw : 0 < w) (l : List Bool) :
    (digits w l).length = l.length / w := by
  induction l using digits.induct w with
  | case1 l hle ih =>
    rw [digits, dif_pos hle, List.length_cons, ih, List.length_drop]
    exact (Nat.div_eq_sub_div hw hle.2).symm
  | case2 l hlt =>
    rw [digits, dif_neg hlt, Nat.div_eq_of_lt (by omega)]
    rfl

theorem digits_lt {w : ℕ} {l : List Bool} : ∀ n ∈ digits w l, n < 2 ^ w := by
  induction l using digits.induct w with
  | case1 l hle ih =>
    intro n hn
    rw [digits, dif_pos hle] at hn
    rcases List.mem_cons.mp hn with rfl | hn
    · have := value_lt (l.take w)
      rwa [List.length_take, Nat.min_eq_left hle.2] at this
    · exact ih n hn
  | case2 l hlt =>
    intro n hn
    rw [digits, dif_neg hlt] at hn
    exact absurd hn List.not_mem_nil

/-! ## Places -/

/-- The lowest `n` digits of a number in base `2 ^ w`, with the most significant one first. -/
def places (w : ℕ) : ℕ → ℕ → List ℕ
  | 0, _ => []
  | n + 1, v => v / 2 ^ (w * n) % 2 ^ w :: places w n v

theorem places_lt {w n v : ℕ} : ∀ d ∈ places w n v, d < 2 ^ w := by
  induction n with
  | zero => exact fun d hd => absurd hd List.not_mem_nil
  | succ n ih =>
    intro d hd
    rcases List.mem_cons.mp hd with rfl | hd
    · exact Nat.mod_lt _ (Nat.two_pow_pos w)
    · exact ih d hd

theorem flatMap_places (w n v : ℕ) : (places w n v).flatMap (bits w) = bits (w * n) v := by
  induction n with
  | zero => rfl
  | succ n ih =>
    have hlow : bits w (v / 2 ^ (w * n) % 2 ^ w) = bits w (v / 2 ^ (w * n)) :=
      bits_congr fun i hi => by rw [Nat.testBit_mod_two_pow, decide_eq_true hi, Bool.true_and]
    rw [places, List.flatMap_cons, ih, hlow, Nat.mul_succ, Nat.add_comm, bits_add]

/-- The digits of a number that was written with some bits behind it. -/
theorem digits_bits {w n : ℕ} (v : ℕ) {rest : List Bool} (hrest : rest.length < w) :
    digits w (bits (w * n) v ++ rest) = places w n v := by
  rw [← flatMap_places, digits_flatMap _ places_lt hrest]

/-- Digits sort as numbers do. -/
theorem places_lt_places_iff {w n a b : ℕ} :
    places w n a < places w n b ↔ a % 2 ^ (w * n) < b % 2 ^ (w * n) := by
  induction n with
  | zero =>
    rw [Nat.mul_zero, pow_zero, Nat.mod_one, Nat.mod_one]
    exact iff_of_false (List.not_lt_nil _) (lt_irrefl 0)
  | succ n ih =>
    have hlow : ∀ v, v % 2 ^ (w * n) < 2 ^ (w * n) := fun v => Nat.mod_lt v (Nat.two_pow_pos _)
    rw [places, places, List.cons_lt_cons_iff, ih, Nat.mul_succ, pow_add, Nat.mod_mul, Nat.mod_mul]
    generalize a / 2 ^ (w * n) % 2 ^ w = x
    generalize b / 2 ^ (w * n) % 2 ^ w = y
    have ha := hlow a
    have hb := hlow b
    constructor
    · rintro (hlt | ⟨rfl, hlt⟩)
      · have := Nat.mul_le_mul_left (2 ^ (w * n)) (Nat.succ_le_of_lt hlt)
        rw [Nat.mul_succ] at this
        omega
      · omega
    · intro hlt
      rcases lt_trichotomy x y with hxy | rfl | hyx
      · exact .inl hxy
      · exact .inr ⟨rfl, by omega⟩
      · have := Nat.mul_le_mul_left (2 ^ (w * n)) (Nat.succ_le_of_lt hyx)
        rw [Nat.mul_succ] at this
        omega

/-- A number is below a power of the base if its leading digits are zero. -/
theorem place_eq_zero_iff {w n v : ℕ} (h : v < 2 ^ (w * (n + 1))) :
    v / 2 ^ (w * n) % 2 ^ w = 0 ↔ v < 2 ^ (w * n) := by
  have hlt : v / 2 ^ (w * n) < 2 ^ w := by
    rw [Nat.div_lt_iff_lt_mul (Nat.two_pow_pos _), ← pow_add, Nat.add_comm, ← Nat.mul_succ]
    exact h
  rw [Nat.mod_eq_of_lt hlt, Nat.div_eq_zero_iff_lt (Nat.two_pow_pos _)]

end AionPool.Lib.Bits
