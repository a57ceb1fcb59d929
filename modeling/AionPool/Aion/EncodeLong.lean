import AionPool.Aion.Transaction
import AionPool.Aion.Utils

/-!
# Energy limit and price

`EncodeLong` reads a number as a two's complement: a text with a first digit of 8 or more is
negative, and its bytes are encoded as they are, like those of a small number. Other numbers are
written anew and padded by `PadTo16Bytes`, whose loop compares its counter with a length that grows
with every round, so that 16 digits come out of 9 or 10 digits only.

* `hexToByteArray_padTo16Bytes`: the digits that are decoded, and how many they are.
* `length_bigIntegerHex_le_iff`: how many digits a number has, with the zero in front.
* **`encodesEnergy_iff`**: which numbers are encoded, and in eight bytes where they are large.

About `CustomRLP.cs:12-23` and `:48-61`.
-/

namespace AionPool.Aion.CustomRLP

open AionPool.Extensions
open AionPool.Lib
open AionPool.Lib.Bytes (unsigned)

/-- The threshold of the four-byte branch. -/
def sizeThreshold : ℕ := 0xFFFFFFFF

/-- The number is encoded: the bytes have its value, and they are eight when it is large. -/
def EncodesEnergy (rlp : RLP) (number : Text) (n : ℕ) : Prop :=
  ∃ bs, encodeLong rlp (some number) = .ok (Rlp.element bs) ∧ unsigned bs.reverse = n ∧
    (sizeThreshold ≤ n → bs.length = 8)

/-- The first digit of the text makes it negative. -/
def readsNegative (number : Text) : Bool := 8 ≤ getHexVal ((skip0x number).headD 0)

/-! ## Padding -/

theorem padRounds_eq (rounds : ℕ) {i : ℕ} {hexNumber : Text}
    (h : 17 ≤ hexNumber.length + i + rounds) :
    padRounds rounds i hexNumber =
      List.replicate ((18 - hexNumber.length - i) / 2) 48 ++ hexNumber := by
  induction rounds generalizing i hexNumber with
  | zero =>
    rw [padRounds, show (18 - hexNumber.length - i) / 2 = 0 by omega]
    rfl
  | succ rounds ih =>
    rw [padRounds]
    split
    · rename_i hlt
      rw [ih (by rw [List.length_cons]; omega), List.length_cons,
        show (18 - hexNumber.length - i) / 2 = (18 - (hexNumber.length + 1) - (i + 1)) / 2 + 1 by
          omega,
        List.replicate_succ', List.append_assoc]
      rfl
    · rename_i hge
      rw [show (18 - hexNumber.length - i) / 2 = 0 by omega]
      rfl

/-- How many zeros `PadTo16Bytes` writes before a text, behind `0x`. -/
def zeros (length : ℕ) : ℕ := 2 + (18 - (length + length % 2)) / 2 + length % 2

theorem padTo16Bytes_eq (hexNumber : Text) :
    padTo16Bytes hexNumber =
      ascii "0x" ++ (List.replicate (zeros hexNumber.length) 48 ++ hexNumber) := by
  have heven : (if hexNumber.length % 2 ≠ 0 then 48 :: hexNumber else hexNumber) =
      List.replicate (hexNumber.length % 2) 48 ++ hexNumber := by
    rcases Nat.mod_two_eq_zero_or_one hexNumber.length with hmod | hmod
    · rw [hmod]
      rfl
    · rw [hmod]
      rfl
  have hstart : ascii "0x00" = ascii "0x" ++ List.replicate 2 48 := rfl
  unfold padTo16Bytes zeros
  dsimp only
  rw [heven, padRounds_eq 17 (by omega), List.length_append, List.length_replicate, hstart,
    Nat.add_comm (hexNumber.length % 2), Nat.sub_zero, List.replicate_add, List.replicate_add]
  simp only [List.append_assoc]

/-- What is decoded of a padded text. -/
theorem hexToByteArray_padTo16Bytes (hexNumber : Text) :
    hexToByteArray (padTo16Bytes hexNumber) =
      hexPairs (List.replicate (zeros hexNumber.length) 48 ++ hexNumber) := by
  unfold hexToByteArray
  rw [padTo16Bytes_eq, skip0x_append]

/-! ## The digits of a number -/

/-- The first digit of a number is not zero. -/
theorem pow_le_of_hexLower {n : ℕ} {c : UInt16} {s : Text} (hpos : 0 < n)
    (h : hexLower n = c :: s) : 16 ^ s.length ≤ n := by
  have hlen := length_hexLower hpos
  rw [h, List.length_cons] at hlen
  exact (Nat.lt_digits_length_iff (by norm_num) n).mp (by omega)

/-- A number has a digit more when it would read as negative. -/
theorem length_bigIntegerHex_le_iff {n k : ℕ} (hpos : 0 < n) :
    (bigIntegerHex n).length ≤ k + 1 ↔ n < 8 * 16 ^ k := by
  have hdigits : ∀ c ∈ hexLower n, isHexDigit c = true := fun _ => isHexDigit_hexLower
  have hval := hexValue_hexLower n
  unfold bigIntegerHex
  dsimp only
  cases hs : hexLower n with
  | nil =>
    rw [hs] at hval
    exact absurd hval hpos.ne
  | cons c s =>
    rw [hs] at hval hdigits
    have hlead := leading_iff hdigits
    have hlt := hexValue_lt hdigits
    have hge := pow_le_of_hexLower hpos hs
    have hmono : ∀ {a b : ℕ}, a ≤ b → 16 ^ a ≤ 16 ^ b := fun h =>
      Nat.pow_le_pow_right (by norm_num) h
    rw [hval] at hlead hlt
    rw [List.length_cons, pow_succ] at hlt
    rw [List.headD_cons]
    split
    · rename_i hc
      have hge' := hlead.mp hc
      rw [List.length_cons, List.length_cons]
      constructor
      · intro hle
        have := hmono (show s.length + 1 ≤ k by omega)
        rw [pow_succ] at this
        omega
      · intro hn
        by_contra hle
        have := hmono (show k ≤ s.length by omega)
        omega
    · rename_i hc
      have hlt' := not_le.mp fun h => hc (hlead.mpr h)
      rw [List.length_cons]
      constructor
      · intro hle
        have := hmono (show s.length ≤ k by omega)
        omega
      · intro hn
        by_contra hle
        have := hmono (show k + 1 ≤ s.length by omega)
        rw [pow_succ] at this
        omega

/-! ## What is encoded -/

/-- The bytes of a text that writes an even number of digits. -/
theorem unsigned_hexToByteArray {number : Text} {n : ℕ} (hwrites : number? number = some n)
    (heven : (skip0x number).length % 2 = 0) : unsigned (hexToByteArray number).reverse = n := by
  obtain ⟨-, hdigits, hval⟩ := parseHex_eq_some_iff.mp hwrites
  exact (unsigned_hexPairs heven hdigits).trans hval

/-- An odd digit at the end is lost. -/
theorem unsigned_hexPairs_of_odd {s : Text} (hodd : s.length % 2 = 1)
    (hdigits : ∀ c ∈ s, isHexDigit c = true) (hpos : 0 < hexValue s) :
    unsigned (hexPairs s).reverse < hexValue s := by
  induction s using List.reverseRecOn with
  | nil => exact absurd hodd (by simp)
  | append_singleton t c _ =>
    rw [List.length_append, List.length_singleton] at hodd
    have ht := unsigned_hexPairs (s := t) (by omega) fun c' hc' =>
      hdigits c' (List.mem_append_left _ hc')
    rw [hexPairs_append (by omega), show hexPairs [c] = [] from rfl, List.append_nil, ht]
    rw [hexValue_append, List.length_singleton, pow_one] at hpos ⊢
    have : hexValue [c] = 0 ∨ 0 < hexValue [c] := Nat.eq_zero_or_pos _
    omega

section Encode

variable {rlp : RLP} {number : Text} {n : ℕ}

/-- A text that reads as negative, or as a number below the threshold, is encoded as it is. -/
theorem encodeLong_of_small (hrlp : rlp.Standard) (hwrites : number? number = some n)
    (h : readsNegative number = true ∨ n < sizeThreshold) :
    encodeLong rlp (some number) = .ok (Rlp.element (hexToByteArray number)) := by
  obtain ⟨-, hdigits, hval⟩ := parseHex_eq_some_iff.mp hwrites
  have hlt := hexValue_lt hdigits
  have hsmall : (if 8 ≤ getHexVal ((skip0x number).headD 0) then
      (n : ℤ) - 16 ^ (skip0x number).length else n) < 0xFFFFFFFF := by
    rw [hval] at hlt
    split
    · have : (n : ℤ) < 16 ^ (skip0x number).length := by exact_mod_cast hlt
      omega
    · rename_i hpos
      have hthreshold := h.resolve_left fun hneg => hpos (of_decide_eq_true hneg)
      exact_mod_cast hthreshold
  unfold encodeLong
  dsimp only
  rw [parseBigInteger_of_parse hwrites, ok_bind, if_pos hsmall, hrlp.encodeElement_eq]
  rfl

/-- Other texts are written anew, and padded. -/
theorem encodeLong_of_large (hrlp : rlp.Standard) (hwrites : number? number = some n)
    (hpos : readsNegative number = false) (hlarge : sizeThreshold ≤ n) :
    encodeLong rlp (some number) = .ok (Rlp.element
      (hexPairs (List.replicate (zeros (bigIntegerHex n).length) 48 ++ bigIntegerHex n))) := by
  have hnot : ¬ 8 ≤ getHexVal ((skip0x number).headD 0) := of_decide_eq_false hpos
  have hge : ¬ (n : ℤ) < 0xFFFFFFFF := by
    unfold sizeThreshold at hlarge
    omega
  unfold encodeLong
  dsimp only
  rw [parseBigInteger_of_parse hwrites, if_neg hnot, ok_bind, if_neg hge, Int.toNat_natCast,
    hrlp.encodeElement_eq, Option.getD_some, hexToByteArray_padTo16Bytes]
  rfl

theorem encodesEnergy_iff_of_eq {bs : List UInt8} (hshort : bs.length < 56)
    (h : encodeLong rlp (some number) = .ok (Rlp.element bs)) :
    EncodesEnergy rlp number n ↔
      unsigned bs.reverse = n ∧ (sizeThreshold ≤ n → bs.length = 8) := by
  constructor
  · rintro ⟨cs, hcs, hval, hlen⟩
    obtain rfl := Rlp.element_inj_of_short hshort (Except.ok.inj (h.symm.trans hcs))
    exact ⟨hval, hlen⟩
  · rintro ⟨hval, hlen⟩
    exact ⟨bs, h, hval, hlen⟩

/-- A large number that is written anew gets its eight bytes when it has nine or ten digits. -/
theorem encodesEnergy_of_large (hrlp : rlp.Standard) (hn : n < 2 ^ 64)
    (hwrites : number? number = some n) (hpos : readsNegative number = false)
    (hlarge : sizeThreshold ≤ n) : EncodesEnergy rlp number n ↔ n < 2 ^ 39 := by
  have hthreshold : 2 ^ 31 ≤ n := (by decide : 2 ^ 31 ≤ sizeThreshold).trans hlarge
  have hn0 : 0 < n := by omega
  have hmin := (length_bigIntegerHex_le_iff (k := 7) hn0).not.mpr (by omega)
  have hmax := (length_bigIntegerHex_le_iff (k := 16) hn0).mpr (by omega)
  have hten := length_bigIntegerHex_le_iff (k := 9) hn0
  have hdigits : ∀ c ∈ List.replicate (zeros (bigIntegerHex n).length) 48 ++ bigIntegerHex n,
      isHexDigit c = true := fun c hc => by
    rcases List.mem_append.mp hc with hc | hc
    · rw [(List.mem_replicate.mp hc).2]
      rfl
    · exact isHexDigit_bigIntegerHex hc
  have hval : hexValue (List.replicate (zeros (bigIntegerHex n).length) 48 ++ bigIntegerHex n) =
      n := by
    rw [hexValue_append, hexValue_replicate_zero, hexValue_bigIntegerHex, Nat.zero_mul,
      Nat.zero_add]
  have htotal : (List.replicate (zeros (bigIntegerHex n).length) 48 ++ bigIntegerHex n).length =
      zeros (bigIntegerHex n).length + (bigIntegerHex n).length := by
    rw [List.length_append, List.length_replicate]
  have heq := encodeLong_of_large hrlp hwrites hpos hlarge
  generalize List.replicate (zeros (bigIntegerHex n).length) 48 ++ bigIntegerHex n = s at *
  unfold zeros at htotal
  rw [encodesEnergy_iff_of_eq (by rw [length_hexPairs]; omega) heq, length_hexPairs]
  rcases Nat.mod_two_eq_zero_or_one s.length with heven | hodd
  · have hbytes := (unsigned_hexPairs heven hdigits).trans hval
    constructor
    · rintro ⟨-, hlen⟩
      have := hlen hlarge
      omega
    · intro hlt
      exact ⟨hbytes, fun _ => by omega⟩
  · have hbytes := unsigned_hexPairs_of_odd hodd hdigits (by omega)
    constructor
    · rintro ⟨heq, -⟩
      omega
    · intro hlt
      omega

/-- **Which numbers are encoded**: small ones, large ones that read as negative and fill eight
bytes, and large ones that do not and are below `2 ^ 39`. -/
theorem encodesEnergy_iff (hrlp : rlp.Standard) (hn : n < 2 ^ 64)
    (hwrites : number? number = some n) (heven : (skip0x number).length % 2 = 0) :
    EncodesEnergy rlp number n ↔
      n < sizeThreshold ∨ if readsNegative number then 2 ^ 63 ≤ n else n < 2 ^ 39 := by
  rcases Nat.lt_or_ge n sizeThreshold with hsmall | hlarge
  · refine iff_of_true ⟨_, encodeLong_of_small hrlp hwrites (Or.inr hsmall),
      unsigned_hexToByteArray hwrites heven, fun h => ?_⟩ (Or.inl hsmall)
    exact absurd hsmall (not_lt.mpr h)
  rw [or_iff_right (not_lt.mpr hlarge)]
  cases hneg : readsNegative number with
  | false => exact encodesEnergy_of_large hrlp hn hwrites hneg hlarge
  | true =>
    -- a text that reads as negative has no zeros in front
    obtain ⟨hne, hdigits, hval⟩ := parseHex_eq_some_iff.mp hwrites
    obtain ⟨c, s, hs⟩ := List.exists_cons_of_ne_nil hne
    have hhead : 8 ≤ getHexVal ((skip0x number).headD 0) := of_decide_eq_true hneg
    have hbytes : (hexToByteArray number).length = (skip0x number).length / 2 := length_hexPairs _
    rw [hs] at hdigits hval hhead heven hbytes
    rw [List.length_cons] at heven hbytes
    have hlead := (leading_iff hdigits).mp hhead
    have hlt := hexValue_lt hdigits
    rw [hval] at hlead hlt
    rw [List.length_cons, pow_succ] at hlt
    have hmono : ∀ {a b : ℕ}, a ≤ b → 16 ^ a ≤ 16 ^ b := fun h =>
      Nat.pow_le_pow_right (by norm_num) h
    have hmax : s.length ≤ 15 := by
      by_contra hlong
      have := hmono (show 16 ≤ s.length by omega)
      omega
    rw [if_pos rfl, encodesEnergy_iff_of_eq (by omega)
      (encodeLong_of_small hrlp hwrites (Or.inl hneg)), hbytes]
    have hcount : (s.length + 1) / 2 = 8 ↔ 2 ^ 63 ≤ n := by
      constructor
      · intro h
        have := hmono (show 15 ≤ s.length by omega)
        omega
      · intro h
        by_contra hshort
        have := hmono (show s.length ≤ 13 by omega)
        omega
    rw [← hcount]
    exact ⟨fun h => h.2 hlarge, fun h => ⟨unsigned_hexToByteArray hwrites (by
      rw [hs, List.length_cons]
      exact heven), fun _ => h⟩⟩

end Encode

theorem encodesEnergy_transfer : EncodesEnergy AionTransaction.standardRLP (ascii "0x5208") 21000 :=
  (encodesEnergy_iff AionTransaction.standardRLP_standard (by norm_num) (by decide) (by decide)).mpr
    (Or.inl (by decide))

/-- **An odd digit is lost**: `2 ^ 40` is encoded as `2 ^ 36`. -/
theorem encodesEnergy_fails : ∃ (rlp : RLP) (number : Text) (n : ℕ), rlp.Standard ∧ n < 2 ^ 64 ∧
    number? number = some n ∧ number = appendHexStart (hexNumber n) ∧
    encodeLong rlp (some number) = .ok (Rlp.element [0, 0, 0, 16, 0, 0, 0, 0]) ∧
    ¬ EncodesEnergy rlp number n := by
  have hencode : encodeLong AionTransaction.standardRLP (some (ascii "0x010000000000")) =
      .ok (Rlp.element [0, 0, 0, 16, 0, 0, 0, 0]) := by decide +kernel
  refine ⟨AionTransaction.standardRLP, ascii "0x010000000000", 2 ^ 40,
    AionTransaction.standardRLP_standard, by norm_num, by decide +kernel, by decide +kernel,
    hencode, fun ⟨bs, hbs, hval, _⟩ => ?_⟩
  obtain rfl := Rlp.element_inj_of_short (by decide) (Except.ok.inj (hencode.symm.trans hbs))
  exact absurd hval (by decide +kernel)

end AionPool.Aion.CustomRLP
