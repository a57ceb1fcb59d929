import AionPool.Lib.Binary64
import AionPool.Lib.Bytes

/-!
# Strings and the bytes they spell

`StringExtensions` decodes hexadecimal text without looking whether it is hexadecimal: `GetHexVal`
turns every character into a number, and the ones that are no digits alias digits.

* `hexPairs_append`: an even prefix is decoded on its own.
* `lower_eq_of_hexPairs_eq`: texts of hexadecimal digits that decode to the same bytes differ at
  most in upper and lower case.
* `hexPairs_byteToHex`: lower-case hexadecimal text decodes to the bytes it was made from.
* `parseHex_hexNumber`, `parseDecimal_decimalNumber`: the digits of a number are read as the number.

Models `StringExtensions.cs:37-74`.
-/

namespace AionPool.Extensions

open AionPool.Lib

/-- A .NET string: its UTF-16 code units. -/
abbrev Text := List UInt16

/-- An ASCII literal. -/
def ascii (s : String) : Text := s.toList.map fun c => UInt16.ofNat c.toNat

/-- `if (str.StartsWith("0x")) str = str.Substring(2)`. -/
def skip0x (str : Text) : Text := if str.take 2 = ascii "0x" then str.drop 2 else str

/-- `GetHexVal`. -/
def getHexVal (hex : UInt16) : ℤ :=
  let val : ℤ := hex.toNat
  val - (if val < 58 then 48 else if val < 97 then 55 else 87)

/-- `(byte) ((GetHexVal(hi) << 4) + GetHexVal(lo))`. -/
def hexPair (hi lo : UInt16) : UInt8 := UInt8.ofInt (getHexVal hi * 16 + getHexVal lo)

/-- The loop over the characters, two at a time; an odd one at the end is left. -/
def hexPairs : Text → List UInt8
  | hi :: lo :: str => hexPair hi lo :: hexPairs str
  | _ => []

/-- `HexToByteArray`. -/
def hexToByteArray (str : Text) : List UInt8 := hexPairs (skip0x str)

/-- `HexToReverseByteArray`. -/
def hexToReverseByteArray (str : Text) : List UInt8 := (hexPairs (skip0x str)).reverse

/-! ## Digits -/

/-- Whether a character is a hexadecimal digit. -/
def isHexDigit (c : UInt16) : Bool :=
  (48 ≤ c.toNat ∧ c.toNat ≤ 57) ∨ (65 ≤ c.toNat ∧ c.toNat ≤ 70) ∨
    (97 ≤ c.toNat ∧ c.toNat ≤ 102)

/-- The lower case of a hexadecimal digit. -/
def lowerHex (c : UInt16) : UInt16 := if 65 ≤ c.toNat ∧ c.toNat ≤ 70 then c + 32 else c

/-- What the code takes from the current culture. `ToLower` is only known on hexadecimal text: what
it makes of other letters depends on the culture. -/
structure Culture where
  toLower : Text → Text
  toLower_hex : ∀ t, (∀ c ∈ t, isHexDigit c = true) → toLower t = t.map lowerHex
  formatDouble : Binary64.Double → String

/-- The lower-case digit of a number below 16. -/
def lowerDigit (d : ℕ) : UInt16 := UInt16.ofNat (if 9 < d then d + 0x37 + 0x20 else d + 0x30)

/-- The upper-case digit of a number below 16. -/
def upperDigit (d : ℕ) : UInt16 := UInt16.ofNat (if 9 < d then d + 0x37 else d + 0x30)

theorem getHexVal_lowerDigit : ∀ {d : ℕ}, d < 16 → getHexVal (lowerDigit d) = d := by
  decide

theorem getHexVal_upperDigit : ∀ {d : ℕ}, d < 16 → getHexVal (upperDigit d) = d := by
  decide

theorem isHexDigit_lowerDigit : ∀ {d : ℕ}, d < 16 → isHexDigit (lowerDigit d) = true := by
  decide

theorem isHexDigit_upperDigit : ∀ {d : ℕ}, d < 16 → isHexDigit (upperDigit d) = true := by
  decide

/-- A digit stands for a number below 16, and the number for its lower case. -/
theorem digit_spec {c : UInt16} (h : isHexDigit c = true) :
    ∃ d < 16, getHexVal c = (d : ℕ) ∧ lowerHex c = lowerDigit d := by
  have hc := of_decide_eq_true h
  have hle : c.toNat ≤ 102 := by omega
  obtain ⟨n, hn, rfl⟩ : ∃ n : ℕ, n ≤ 102 ∧ c = UInt16.ofNat n :=
    ⟨c.toNat, hle, (UInt16.ofNat_toNat).symm⟩
  clear hle hc
  revert h
  decide +revert

/-! ## Decoding -/

theorem toNat_hexPair {a b : UInt16} {d e : ℕ} (ha : getHexVal a = d) (hb : getHexVal b = e)
    (hd : d < 16) (he : e < 16) : (hexPair a b).toNat = d * 16 + e := by
  unfold hexPair UInt8.ofInt
  rw [ha, hb, UInt8.toNat_ofNat']
  omega

/-- An even prefix is decoded on its own. -/
theorem hexPairs_append : ∀ {s t : Text}, s.length % 2 = 0 →
    hexPairs (s ++ t) = hexPairs s ++ hexPairs t
  | [], _, _ => rfl
  | [_], _, h => absurd h (by simp)
  | a :: b :: s, t, h => by
    have hs : s.length % 2 = 0 := by
      simp only [List.length_cons] at h
      omega
    rw [List.cons_append, List.cons_append, hexPairs, hexPairs, hexPairs_append hs,
      List.cons_append]

/-- **Hexadecimal texts that decode to the same bytes have the same lower case.** -/
theorem lower_eq_of_hexPairs_eq : ∀ {s t : Text}, s.length = t.length → s.length % 2 = 0 →
    (∀ c ∈ s, isHexDigit c = true) → (∀ c ∈ t, isHexDigit c = true) → hexPairs s = hexPairs t →
    s.map lowerHex = t.map lowerHex
  | [], [], _, _, _, _, _ => rfl
  | [_], _, _, heven, _, _, _ => absurd heven (by simp)
  | _, [_], hlen, heven, _, _, _ => absurd (hlen ▸ heven) (by simp)
  | a :: b :: s, a' :: b' :: t, hlen, heven, hs, ht, h => by
    have hlen' : s.length = t.length := by simpa using hlen
    have heven' : s.length % 2 = 0 := by
      simp only [List.length_cons] at heven
      omega
    obtain ⟨hpair, hrest⟩ := List.cons.inj h
    have ih := lower_eq_of_hexPairs_eq hlen' heven' (fun c hc => hs c (by simp [hc]))
      (fun c hc => ht c (by simp [hc])) hrest
    obtain ⟨d, hd, hda, hla⟩ := digit_spec (hs a (by simp))
    obtain ⟨e, he, heb, hlb⟩ := digit_spec (hs b (by simp))
    obtain ⟨d', hd', hda', hla'⟩ := digit_spec (ht a' (by simp))
    obtain ⟨e', he', heb', hlb'⟩ := digit_spec (ht b' (by simp))
    have hval := congrArg UInt8.toNat hpair
    rw [toNat_hexPair hda heb hd he, toNat_hexPair hda' heb' hd' he'] at hval
    obtain rfl : d = d' := by omega
    obtain rfl : e = e' := by omega
    simp only [List.map_cons, hla, hlb, hla', hlb', ih]

/-- Two characters make a byte. -/
theorem length_hexPairs : ∀ s : Text, (hexPairs s).length = s.length / 2
  | [] => rfl
  | [_] => by simp [hexPairs]
  | _ :: _ :: s => by
    rw [hexPairs, List.length_cons, length_hexPairs s, List.length_cons, List.length_cons]
    omega

/-- `AionUtils.ByteToHex`. -/
def byteToHex (bs : List UInt8) : Text :=
  bs.flatMap fun b => [lowerDigit (b.toNat / 16), lowerDigit (b.toNat % 16)]

theorem hexPairs_byteToHex (bs : List UInt8) : hexPairs (byteToHex bs) = bs := by
  induction bs with
  | nil => rfl
  | cons b bs ih =>
    have hb := b.toNat_lt
    have hhi : b.toNat / 16 < 16 := by omega
    have hlo : b.toNat % 16 < 16 := Nat.mod_lt _ (by norm_num)
    have hpair : hexPair (lowerDigit (b.toNat / 16)) (lowerDigit (b.toNat % 16)) = b := by
      refine UInt8.toNat_inj.mp ?_
      rw [toNat_hexPair (getHexVal_lowerDigit hhi) (getHexVal_lowerDigit hlo) hhi hlo]
      omega
    unfold byteToHex at ih ⊢
    rw [List.flatMap_cons, List.cons_append, List.cons_append, List.nil_append, hexPairs, hpair, ih]

/-- Text of hexadecimal digits has no `0x` to skip. -/
theorem skip0x_of_digits {s : Text} (h : ∀ c ∈ s, isHexDigit c = true) : skip0x s = s := by
  refine if_neg fun htake => ?_
  have hx : (120 : UInt16) ∈ s.take 2 := by
    rw [htake]
    decide
  exact absurd (h 120 (List.mem_of_mem_take hx)) (by decide)

theorem skip0x_append (s : Text) : skip0x (ascii "0x" ++ s) = s := if_pos rfl

theorem isHexDigit_byteToHex {bs : List UInt8} {c : UInt16} (h : c ∈ byteToHex bs) :
    isHexDigit c = true := by
  obtain ⟨b, -, hc⟩ := List.mem_flatMap.mp h
  have hb := b.toNat_lt
  rcases List.mem_cons.mp hc with rfl | hc
  · exact isHexDigit_lowerDigit (by omega)
  · rw [List.mem_singleton.mp hc]
    exact isHexDigit_lowerDigit (Nat.mod_lt _ (by norm_num))

theorem length_byteToHex (bs : List UInt8) : (byteToHex bs).length = 2 * bs.length := by
  unfold byteToHex
  rw [List.length_flatMap]
  simp [mul_comm]

/-- Hexadecimal text is decoded to the bytes it was made from. -/
theorem hexToReverseByteArray_byteToHex (bs : List UInt8) :
    hexToReverseByteArray (byteToHex bs) = bs.reverse := by
  unfold hexToReverseByteArray
  rw [skip0x_of_digits fun _ => isHexDigit_byteToHex, hexPairs_byteToHex]

/-! ## Numbers -/

/-- The number a text of hexadecimal digits writes. -/
def parseHex? (s : Text) : Option ℕ :=
  if s ≠ [] ∧ s.all isHexDigit then
    some (Nat.ofDigits 16 (s.reverse.map fun c => (getHexVal c).toNat))
  else none

/-- The number that digits write. -/
def hexValue (s : Text) : ℕ := Nat.ofDigits 16 (s.reverse.map fun c => (getHexVal c).toNat)

theorem parseHex_eq_some_iff {s : Text} {n : ℕ} :
    parseHex? s = some n ↔ s ≠ [] ∧ (∀ c ∈ s, isHexDigit c = true) ∧ hexValue s = n := by
  unfold parseHex?
  rw [Option.ite_none_right_eq_some, List.all_eq_true, Option.some_inj, and_assoc]
  rfl

theorem hexValue_append (s t : Text) :
    hexValue (s ++ t) = hexValue s * 16 ^ t.length + hexValue t := by
  unfold hexValue
  rw [List.reverse_append, List.map_append, Nat.ofDigits_append, List.length_map,
    List.length_reverse, Nat.add_comm, Nat.mul_comm]

theorem hexValue_cons (c : UInt16) (s : Text) :
    hexValue (c :: s) = (getHexVal c).toNat * 16 ^ s.length + hexValue s := by
  rw [← List.singleton_append, hexValue_append]
  rfl

@[simp] theorem hexValue_replicate_zero (k : ℕ) : hexValue (List.replicate k 48) = 0 := by
  induction k with
  | zero => rfl
  | succ k ih =>
    rw [List.replicate_succ, hexValue_cons, ih]
    exact Nat.zero_mul _

theorem hexValue_lt {s : Text} (h : ∀ c ∈ s, isHexDigit c = true) :
    hexValue s < 16 ^ s.length := by
  have hlt := Nat.ofDigits_lt_base_pow_length (b := 16)
    (l := s.reverse.map fun c => (getHexVal c).toNat) (by norm_num) (fun d hd => by
      obtain ⟨c, hc, rfl⟩ := List.mem_map.mp hd
      obtain ⟨d, hd, hval, -⟩ := digit_spec (h c (List.mem_reverse.mp hc))
      rw [hval]
      exact hd)
  rwa [List.length_map, List.length_reverse] at hlt

/-- The first digit is at least 8 when the number is at least half of what the digits can write. -/
theorem leading_iff {c : UInt16} {s : Text} (h : ∀ c' ∈ c :: s, isHexDigit c' = true) :
    8 ≤ getHexVal c ↔ 8 * 16 ^ s.length ≤ hexValue (c :: s) := by
  obtain ⟨d, -, hval, -⟩ := digit_spec (h c List.mem_cons_self)
  have hlt := hexValue_lt fun c' hc' => h c' (List.mem_cons_of_mem _ hc')
  rw [hexValue_cons, hval]
  constructor
  · intro hd
    have hd' : 8 ≤ d := by omega
    exact (Nat.mul_le_mul_right _ hd').trans (Nat.le_add_right _ _)
  · intro hle
    by_contra hd
    have hd' : d + 1 ≤ 8 := by omega
    have := Nat.mul_le_mul_right (16 ^ s.length) hd'
    rw [Nat.add_mul, Nat.one_mul] at this
    rw [Int.toNat_natCast] at hle
    omega

/-- The bytes of an even number of digits are the number. -/
theorem unsigned_hexPairs : ∀ {s : Text}, s.length % 2 = 0 →
    (∀ c ∈ s, isHexDigit c = true) → Bytes.unsigned (hexPairs s).reverse = hexValue s
  | [], _, _ => rfl
  | [_], heven, _ => absurd heven (by simp)
  | a :: b :: s, heven, h => by
    have heven' : s.length % 2 = 0 := by
      simp only [List.length_cons] at heven
      omega
    have ih := unsigned_hexPairs heven' fun c hc => h c (by simp [hc])
    obtain ⟨d, hd, hda, -⟩ := digit_spec (h a (by simp))
    obtain ⟨e, he, heb, -⟩ := digit_spec (h b (by simp))
    have hpow : 256 ^ (s.length / 2) = 16 ^ s.length := by
      rw [show 256 = 16 ^ 2 from rfl, ← pow_mul, show 2 * (s.length / 2) = s.length by omega]
    rw [hexPairs, List.reverse_cons, Bytes.unsigned_append, ih, List.length_reverse,
      length_hexPairs, hpow, Bytes.unsigned_cons, toNat_hexPair hda heb hd he, hexValue_cons,
      hexValue_cons, hda, heb, List.length_cons, Bytes.unsigned_nil]
    simp only [Int.toNat_natCast]
    ring

/-- `ToString("X")` of a number that is not negative. -/
def hexNumber (n : ℕ) : Text :=
  if n = 0 then ascii "0" else (Nat.digits 16 n).reverse.map upperDigit

theorem isHexDigit_hexNumber {n : ℕ} {c : UInt16} (h : c ∈ hexNumber n) :
    isHexDigit c = true := by
  unfold hexNumber at h
  split at h
  · rw [List.mem_singleton.mp h]
    rfl
  · obtain ⟨d, hd, rfl⟩ := List.mem_map.mp h
    exact isHexDigit_upperDigit (Nat.digits_lt_base (by norm_num) (List.mem_reverse.mp hd))

theorem hexNumber_ne_nil (n : ℕ) : hexNumber n ≠ [] := by
  unfold hexNumber
  split
  · exact List.cons_ne_nil _ _
  · rename_i hn
    simp [Nat.digits_ne_nil_iff_ne_zero.mpr hn]

/-- The digits of a number, in a base up to 16, have its value. -/
theorem ofDigits_map_upperDigit {b : ℕ} (hb : 1 < b) (hle : b ≤ 16) (n : ℕ) :
    Nat.ofDigits b
      (((Nat.digits b n).reverse.map upperDigit).reverse.map fun c => (getHexVal c).toNat) = n := by
  have hval : (Nat.digits b n).map ((fun c => (getHexVal c).toNat) ∘ upperDigit) =
      Nat.digits b n := by
    refine (List.map_congr_left fun d hd => ?_).trans (List.map_id _)
    rw [Function.comp_apply, getHexVal_upperDigit ((Nat.digits_lt_base hb hd).trans_le hle)]
    rfl
  rw [← List.map_reverse, List.reverse_reverse, List.map_map, hval, Nat.ofDigits_digits]

/-- The digits of a number are read as the number. -/
theorem parseHex_hexNumber (n : ℕ) : parseHex? (hexNumber n) = some n := by
  unfold parseHex?
  rw [if_pos ⟨hexNumber_ne_nil n, List.all_eq_true.mpr fun _ => isHexDigit_hexNumber⟩]
  congr 1
  unfold hexNumber
  split
  · rename_i hn
    rw [hn]
    rfl
  · exact ofDigits_map_upperDigit (by norm_num) le_rfl n

/-- A zero in front of digits, of whatever base, changes nothing. -/
theorem digits_zero_cons {isDigit : UInt16 → Bool} (hzero : isDigit 48 = true) {b : ℕ} {s : Text}
    {n : ℕ}
    (h : (if s ≠ [] ∧ s.all isDigit = true then
      some (Nat.ofDigits b (s.reverse.map fun c => (getHexVal c).toNat)) else none) = some n) :
    (if 48 :: s ≠ [] ∧ (48 :: s).all isDigit = true then
      some (Nat.ofDigits b ((48 :: s).reverse.map fun c => (getHexVal c).toNat)) else none) =
        some n := by
  split at h
  · rename_i hs
    have hdigits : (48 :: s : Text).all isDigit = true := by
      rw [List.all_cons, hs.2, hzero]
      rfl
    rw [if_pos ⟨List.cons_ne_nil _ _, hdigits⟩, List.reverse_cons, List.map_append, ← h]
    exact congrArg some (Nat.ofDigits_append_zero _)
  · exact absurd h (by simp)

/-- A zero in front of the digits changes nothing. -/
theorem parseHex_zero_cons {s : Text} {n : ℕ} (h : parseHex? s = some n) :
    parseHex? (48 :: s) = some n := digits_zero_cons rfl h

/-- `ToString("x")` of a number that is not negative. -/
def hexLower (n : ℕ) : Text := (hexNumber n).map lowerHex

/-- `ToString("x" + width)` of a number that is not negative. -/
def hexPadded (width n : ℕ) : Text := List.leftpad width 48 ((hexNumber n).map lowerHex)

theorem isHexDigit_lowerHex {c : UInt16} (h : isHexDigit c = true) :
    isHexDigit (lowerHex c) = true := by
  obtain ⟨d, hd, -, hlower⟩ := digit_spec h
  rw [hlower]
  exact isHexDigit_lowerDigit hd

theorem lowerHex_upperDigit : ∀ {d : ℕ}, d < 16 → lowerHex (upperDigit d) = lowerDigit d := by
  decide

theorem hexLower_of_pos {n : ℕ} (h : 0 < n) :
    hexLower n = (Nat.digits 16 n).reverse.map lowerDigit := by
  unfold hexLower hexNumber
  rw [if_neg h.ne', List.map_map]
  refine List.map_congr_left fun d hd => ?_
  exact lowerHex_upperDigit (Nat.digits_lt_base (by norm_num) (List.mem_reverse.mp hd))

theorem isHexDigit_hexLower {n : ℕ} {c : UInt16} (h : c ∈ hexLower n) : isHexDigit c = true := by
  obtain ⟨c', hc', rfl⟩ := List.mem_map.mp h
  exact isHexDigit_lowerHex (isHexDigit_hexNumber hc')

theorem getHexVal_lowerHex {c : UInt16} (h : isHexDigit c = true) :
    getHexVal (lowerHex c) = getHexVal c := by
  obtain ⟨d, hd, hval, hlower⟩ := digit_spec h
  rw [hlower, hval]
  exact getHexVal_lowerDigit hd

/-- The case of the digits changes nothing. -/
theorem parseHex_map_lowerHex {s : Text} {n : ℕ} (h : parseHex? s = some n) :
    parseHex? (s.map lowerHex) = some n := by
  unfold parseHex? at h ⊢
  split at h
  · rename_i hs
    have hdigit : ∀ c ∈ s, isHexDigit c = true := List.all_eq_true.mp hs.2
    have hlower : ∀ c ∈ s.map lowerHex, isHexDigit c = true := fun c hc => by
      obtain ⟨c', hc', rfl⟩ := List.mem_map.mp hc
      exact isHexDigit_lowerHex (hdigit c' hc')
    rw [if_pos ⟨by simpa using hs.1, List.all_eq_true.mpr hlower⟩, ← List.map_reverse,
      List.map_map, ← h]
    refine congrArg (fun ds => some (Nat.ofDigits 16 ds)) (List.map_congr_left fun c hc => ?_)
    rw [Function.comp_apply, getHexVal_lowerHex (hdigit c (List.mem_reverse.mp hc))]
  · exact absurd h (by simp)

theorem hexValue_hexLower (n : ℕ) : hexValue (hexLower n) = n :=
  (parseHex_eq_some_iff.mp (parseHex_map_lowerHex (parseHex_hexNumber n))).2.2

theorem parseHex_hexPadded (width n : ℕ) : parseHex? (hexPadded width n) = some n := by
  unfold hexPadded List.leftpad
  induction width - ((hexNumber n).map lowerHex).length with
  | zero => exact parseHex_map_lowerHex (parseHex_hexNumber n)
  | succ k ih => exact parseHex_zero_cons ih

theorem hexPadded_injective {width n m : ℕ} (h : hexPadded width n = hexPadded width m) :
    n = m := by
  have hparse := parseHex_hexPadded width n
  rw [h, parseHex_hexPadded] at hparse
  exact (Option.some.inj hparse).symm

def isDigit (c : UInt16) : Bool := 48 ≤ c.toNat ∧ c.toNat ≤ 57

/-- The number a text of decimal digits writes. -/
def parseDecimal? (s : Text) : Option ℕ :=
  if s ≠ [] ∧ s.all isDigit then
    some (Nat.ofDigits 10 (s.reverse.map fun c => (getHexVal c).toNat))
  else none

/-- `ToString()` of a number that is not negative. -/
def decimalNumber (n : ℕ) : Text :=
  if n = 0 then ascii "0" else (Nat.digits 10 n).reverse.map upperDigit

theorem isDigit_upperDigit : ∀ {d : ℕ}, d < 10 → isDigit (upperDigit d) = true := by
  decide

/-- A decimal digit is a hexadecimal one. -/
theorem isHexDigit_of_isDigit {c : UInt16} (h : isDigit c = true) : isHexDigit c = true :=
  decide_eq_true (.inl (of_decide_eq_true h))

theorem isDigit_decimalNumber {n : ℕ} {c : UInt16} (h : c ∈ decimalNumber n) :
    isDigit c = true := by
  unfold decimalNumber at h
  split at h
  · rw [List.mem_singleton.mp h]
    rfl
  · obtain ⟨d, hd, rfl⟩ := List.mem_map.mp h
    exact isDigit_upperDigit (Nat.digits_lt_base (by norm_num) (List.mem_reverse.mp hd))

theorem decimalNumber_ne_nil (n : ℕ) : decimalNumber n ≠ [] := by
  unfold decimalNumber
  split
  · exact List.cons_ne_nil _ _
  · rename_i hn
    simp [Nat.digits_ne_nil_iff_ne_zero.mpr hn]

/-- The decimal digits of a number are read as the number. -/
theorem parseDecimal_decimalNumber (n : ℕ) : parseDecimal? (decimalNumber n) = some n := by
  unfold parseDecimal?
  rw [if_pos ⟨decimalNumber_ne_nil n, List.all_eq_true.mpr fun _ => isDigit_decimalNumber⟩]
  congr 1
  unfold decimalNumber
  split
  · rename_i hn
    rw [hn]
    rfl
  · exact ofDigits_map_upperDigit (by norm_num) (by norm_num) n

/-- A zero in front of the decimal digits changes nothing. -/
theorem parseDecimal_zero_cons {s : Text} {n : ℕ} (h : parseDecimal? s = some n) :
    parseDecimal? (48 :: s) = some n := digits_zero_cons rfl h

end AionPool.Extensions
