import AionPool.Aion.Utils
import AionPool.Extensions.Strings
import AionPool.Lib.Rlp
import AionPool.Runtime

/-!
# `AionTransaction` and `CustomRLP`

`Serialize` encodes the nine fields of a transaction with Nethereum's RLP, `GetEncodedRaw` the eight
that are signed with `CustomRLP.EncodeList`, which writes the header of the list itself: a payload
below 56 bytes gets four bytes (`BitConverter.GetBytes`), and a longer one the hexadecimal text of
its length, whose last digit is lost when the number of digits is odd.

Models `AionTransaction.cs:14-71` and `CustomRLP.cs:12-61`. Out of scope: the signature, a
parameter.
-/

namespace AionPool.Aion

open AionPool.Extensions
open AionPool.Lib
open AionPool.Lib.Bytes (bytes)

/-- Nethereum's `RLP`; `none` is a null array. -/
structure RLP where
  encodeElement : Option (List UInt8) → List UInt8
  encodeList : List (List UInt8) → List UInt8

/-- It is standard RLP, and a null array is an empty one. -/
structure RLP.Standard (rlp : RLP) : Prop where
  encodeElement_eq : ∀ bs, rlp.encodeElement bs = Rlp.element (bs.getD [])
  encodeList_eq : ∀ items, rlp.encodeList items = Rlp.list items

/-- `HexToByteArray` of a string that may be null. -/
def hexBytes : Option Text → Except Exn (List UInt8)
  | none => throw .nullReference
  | some str => return hexToByteArray str

/-- `BigInteger.Parse(s, NumberStyles.AllowHexSpecifier)`: a two's complement, whose sign is the
first digit's. Null characters at the end are left out. -/
def parseBigInteger (s : Text) : Except Exn ℤ :=
  let digits := (s.reverse.dropWhile (· = 0)).reverse
  match parseHex? digits with
  | none => throw .format
  | some n =>
    if 8 ≤ getHexVal (digits.headD 0) then return (n : ℤ) - 16 ^ digits.length
    else return n

/-- `BigInteger.ToString("x")` of a number that is not negative: a zero keeps it from reading as
negative. -/
def bigIntegerHex (n : ℕ) : Text :=
  let digits := hexLower n
  if 8 ≤ getHexVal (digits.headD 0) then 48 :: digits else digits

theorem isHexDigit_bigIntegerHex {n : ℕ} {c : UInt16} (h : c ∈ bigIntegerHex n) :
    isHexDigit c = true := by
  unfold bigIntegerHex at h
  dsimp only at h
  split at h
  · rcases List.mem_cons.mp h with rfl | h
    · rfl
    · exact isHexDigit_hexLower h
  · exact isHexDigit_hexLower h

theorem bigIntegerHex_ne_nil (n : ℕ) : bigIntegerHex n ≠ [] := by
  unfold bigIntegerHex
  dsimp only
  split
  · exact List.cons_ne_nil _ _
  · exact fun h => hexNumber_ne_nil n (List.map_eq_nil_iff.mp h)

theorem hexValue_bigIntegerHex (n : ℕ) : hexValue (bigIntegerHex n) = n := by
  unfold bigIntegerHex
  dsimp only
  split
  · rw [hexValue_cons, hexValue_hexLower, show (getHexVal 48).toNat = 0 from rfl, Nat.zero_mul,
      Nat.zero_add]
  · exact hexValue_hexLower n

theorem parseBigInteger_of_parse {s : Text} {n : ℕ} (h : parseHex? s = some n) :
    parseBigInteger s =
      .ok (if 8 ≤ getHexVal (s.headD 0) then (n : ℤ) - 16 ^ s.length else n) := by
  have hdigits := isHexDigit_of_parse h
  unfold parseBigInteger
  simp only [dropNulls_of_digits hdigits, h]
  split
  · rfl
  · rfl

namespace CustomRLP

/-- The rounds of the loop of `PadTo16Bytes`, from `i` on; the text grows with each. -/
def padRounds : ℕ → ℕ → Text → Text
  | 0, _, hexNumber => hexNumber
  | rounds + 1, i, hexNumber =>
    if (i : ℤ) < 16 - hexNumber.length + 1 then padRounds rounds (i + 1) (48 :: hexNumber)
    else hexNumber

/-- `PadTo16Bytes`; the loop ends before its seventeenth round. -/
def padTo16Bytes (hexNumber : Text) : Text :=
  let hexNumber := if hexNumber.length % 2 ≠ 0 then 48 :: hexNumber else hexNumber
  ascii "0x00" ++ padRounds 17 0 hexNumber

/-- `EncodeLong`. -/
def encodeLong (rlp : RLP) : Option Text → Except Exn (List UInt8)
  | none => throw .nullReference
  | some number => do
    let bigNumber ← parseBigInteger (skip0x number)
    if bigNumber < 0xFFFFFFFF then return rlp.encodeElement (some (hexToByteArray number))
    else
      return rlp.encodeElement
        (some (hexToByteArray (padTo16Bytes (bigIntegerHex bigNumber.toNat))))

/-- `Combine`; `Sum` is checked. -/
def combine (arrays : List (List UInt8)) : Except Exn (List UInt8) :=
  if (arrays.map List.length).sum < 2 ^ 31 then return arrays.flatten
  else throw (.overflow "Arithmetic operation resulted in an overflow.")

/-- `EncodeLength`. -/
def encodeLength (len offset : ℕ) : List UInt8 :=
  if len < 56 then (bytes 4 (len + offset)).reverse
  else
    let hexLength := hexLower len
    let lLength := hexLength.length / 2
    let firstByte := hexLower (offset + 55 + lLength)
    hexToByteArray (firstByte ++ hexLength)

/-- `EncodeList`. -/
def encodeList (input : List (List UInt8)) : Except Exn (List UInt8) := do
  let buf ← combine input
  combine [encodeLength buf.length 192, buf]

end CustomRLP

/-- `AionTransaction`; `none` is null, and `toAddress` is `To`. -/
structure AionTransaction where
  toAddress : Option Text := none
  value : Option Text := none
  data : Option Text := some []
  gas : Option Text := some []
  gasPrice : Option Text := some []
  timestamp : Option Text := some []
  nonce : Option Text := some []
  type : Option Text := some []
  signature : Option (List UInt8) := none

namespace AionTransaction

/-- `Serialize`. -/
def serialize (rlp : RLP) (tx : AionTransaction) : Except Exn Text := do
  let nonce ← hexBytes tx.nonce
  let toAddress ← hexBytes tx.toAddress
  let value ← hexBytes tx.value
  let data ← hexBytes tx.data
  let timestamp ← hexBytes tx.timestamp
  let gas ← CustomRLP.encodeLong rlp tx.gas
  let gasPrice ← CustomRLP.encodeLong rlp tx.gasPrice
  let type ← hexBytes tx.type
  return ascii "0x" ++ byteToHex (rlp.encodeList
    [rlp.encodeElement (some nonce),
      rlp.encodeElement (some toAddress),
      rlp.encodeElement (some value),
      rlp.encodeElement (some data),
      rlp.encodeElement (some timestamp),
      gas,
      gasPrice,
      rlp.encodeElement (some type),
      rlp.encodeElement tx.signature])

/-- `GetEncodedRaw`. -/
def getEncodedRaw (rlp : RLP) (tx : AionTransaction) : Except Exn (List UInt8) := do
  let nonce ← hexBytes tx.nonce
  let toAddress ← hexBytes tx.toAddress
  let value ← hexBytes tx.value
  let data ← hexBytes tx.data
  let timestamp ← hexBytes tx.timestamp
  let gas ← CustomRLP.encodeLong rlp tx.gas
  let gasPrice ← CustomRLP.encodeLong rlp tx.gasPrice
  let type ← hexBytes tx.type
  CustomRLP.encodeList
    [rlp.encodeElement (some nonce),
      rlp.encodeElement (some toAddress),
      rlp.encodeElement (some value),
      rlp.encodeElement (some data),
      rlp.encodeElement (some timestamp),
      gas,
      gasPrice,
      rlp.encodeElement (some type)]

end AionTransaction

/-! ## The header as a text -/

/-- The two lowest hexadecimal digits are those of the lowest byte. -/
theorem digits_pair {n : ℕ} (h : 16 ≤ n) :
    Nat.digits 16 n = n % 16 :: n / 16 % 16 :: Nat.digits 16 (n / 256) := by
  rw [Nat.digits_def' (by norm_num) (by omega), Nat.digits_def' (by norm_num) (by omega),
    Nat.div_div_eq_div_mul]

/-- A number is nothing, one digit, or a pair of digits behind the number without its last byte. -/
theorem byteInduction {P : ℕ → Prop} (zero : P 0) (digit : ∀ n, 0 < n → n < 16 → P n)
    (byte : ∀ n, 16 ≤ n → P (n / 256) → P n) (n : ℕ) : P n := by
  induction n using Nat.strongRecOn with
  | ind n ih =>
    rcases Nat.eq_zero_or_pos n with rfl | hpos
    · exact zero
    rcases Nat.lt_or_ge n 16 with hlt | hge
    · exact digit n hpos hlt
    · exact byte n hge (ih (n / 256) (by omega))

theorem length_hexLower {n : ℕ} (h : 0 < n) : (hexLower n).length = (Nat.digits 16 n).length := by
  rw [hexLower_of_pos h, List.length_map, List.length_reverse]

/-- Two hexadecimal digits are one byte, and an odd one takes a byte too. -/
theorem length_bigEndian (n : ℕ) :
    (Rlp.bigEndian n).length = ((Nat.digits 16 n).length + 1) / 2 := by
  induction n using byteInduction with
  | zero =>
    rw [Rlp.bigEndian_zero, Nat.digits_zero]
    rfl
  | digit n hpos hlt =>
    rw [Rlp.bigEndian_of_lt hpos (by omega), Nat.digits_of_lt 16 n hpos.ne' hlt]
    simp
  | byte n hge ih =>
    rw [Rlp.bigEndian_step (by omega), digits_pair hge, List.length_append, ih]
    simp only [List.length_cons, List.length_nil]
    omega

/-- **An even number of hexadecimal digits decodes to the bytes of the number.** -/
theorem hexPairs_hexLower {n : ℕ} (hpos : 0 < n) (heven : (Nat.digits 16 n).length % 2 = 0) :
    hexPairs (hexLower n) = Rlp.bigEndian n := by
  rw [hexLower_of_pos hpos]
  clear hpos
  induction n using byteInduction with
  | zero =>
    rw [Rlp.bigEndian_zero, Nat.digits_zero]
    rfl
  | digit n hpos hlt =>
    rw [Nat.digits_of_lt 16 n hpos.ne' hlt] at heven
    exact absurd heven (by simp)
  | byte n hge ih =>
    have hpos : 0 < n := by omega
    have hpair : (hexPair (lowerDigit (n / 16 % 16)) (lowerDigit (n % 16))) =
        UInt8.ofNat (n % 256) := by
      refine UInt8.toNat_inj.mp ?_
      rw [toNat_hexPair (getHexVal_lowerDigit (by omega)) (getHexVal_lowerDigit (by omega))
        (by omega) (by omega), UInt8.toNat_ofNat']
      omega
    rw [digits_pair hge, List.length_cons, List.length_cons] at heven
    have heven' : (Nat.digits 16 (n / 256)).length % 2 = 0 := by omega
    rw [digits_pair hge, List.reverse_cons, List.reverse_cons, List.map_append, List.map_append,
      List.append_assoc, hexPairs_append (by simpa using heven'), ih heven',
      Rlp.bigEndian_step hpos, ← hpair]
    rfl

namespace CustomRLP

/-- The header of a long payload: the first byte, and the digits of the length two at a time. -/
theorem encodeLength_of_le {n : ℕ} (hlong : 56 ≤ n) (h : n < 2 ^ 31) :
    encodeLength n 192 =
      UInt8.ofNat (192 + 55 + (Nat.digits 16 n).length / 2) :: hexPairs (hexLower n) := by
  have hdigits : (Nat.digits 16 n).length ≤ 8 :=
    (Nat.digits_length_le_iff (by norm_num) n).mpr (by omega)
  have hfirst : ∀ m : ℕ, 192 + 55 ≤ m → m < 256 →
      (Nat.digits 16 m).length % 2 = 0 := fun m hlo hhi => by
    rw [digits_pair (by omega), Nat.div_eq_of_lt hhi, Nat.digits_zero]
    simp
  have hlower : ∀ {s t : Text}, (∀ c ∈ s, isHexDigit c = true) → (∀ c ∈ t, isHexDigit c = true) →
      skip0x (s ++ t) = s ++ t := fun hs ht =>
    skip0x_of_digits fun c hc => (List.mem_append.mp hc).elim (hs c) (ht c)
  have hcount := length_hexLower (n := n) (by omega)
  have heven := hfirst (192 + 55 + (Nat.digits 16 n).length / 2) (by omega) (by omega)
  unfold encodeLength
  rw [if_neg (by omega)]
  dsimp only
  rw [hcount]
  unfold hexToByteArray
  rw [hlower (fun _ => isHexDigit_hexLower) (fun _ => isHexDigit_hexLower),
    hexPairs_append (by rwa [length_hexLower (by omega)]), hexPairs_hexLower (by omega) heven,
    Rlp.bigEndian_of_lt (by omega) (by omega)]
  rfl

/-- The payload lengths whose header is standard: from 56 on, with an even number of hexadecimal
digits, and an encoding that is not too long for `Sum`. -/
def HeaderFits (n : ℕ) : Prop :=
  56 ≤ n ∧ (Nat.digits 16 n).length % 2 = 0 ∧ n + 1 + (Nat.digits 16 n).length / 2 < 2 ^ 31

instance (n : ℕ) : Decidable (HeaderFits n) := inferInstanceAs (Decidable (_ ∧ _ ∧ _))

/-- The header is standard exactly for a long payload with an even number of digits. -/
theorem encodeLength_eq_iff {n : ℕ} (h : n < 2 ^ 31) :
    encodeLength n 192 = Rlp.header 192 n ↔ 56 ≤ n ∧ (Nat.digits 16 n).length % 2 = 0 := by
  rcases Nat.lt_or_ge n 56 with hshort | hlong
  · -- four bytes against one
    refine iff_of_false (fun heq => ?_) fun hfits => by omega
    have hlen := congrArg List.length heq
    rw [Rlp.length_header, if_pos hshort, encodeLength, if_pos hshort, List.length_reverse,
      Bytes.length_bytes] at hlen
    omega
  rw [encodeLength_of_le hlong h]
  constructor
  · -- an odd digit is lost, where the standard header has a byte for it
    intro heq
    have hlen := congrArg List.length heq
    rw [Rlp.length_header, if_neg (by omega), List.length_cons, length_hexPairs,
      length_hexLower (by omega), length_bigEndian] at hlen
    exact ⟨hlong, by omega⟩
  · rintro ⟨-, heven⟩
    unfold Rlp.header
    rw [if_neg (by omega), hexPairs_hexLower (by omega) heven, length_bigEndian,
      show ((Nat.digits 16 n).length + 1) / 2 = (Nat.digits 16 n).length / 2 by omega]

theorem combine_of_lt {arrays : List (List UInt8)} (h : arrays.flatten.length < 2 ^ 31) :
    combine arrays = .ok arrays.flatten := by
  unfold combine
  rw [← List.length_flatten, if_pos h]
  rfl

theorem combine_of_le {arrays : List (List UInt8)} (h : 2 ^ 31 ≤ arrays.flatten.length) :
    combine arrays = .error (.overflow "Arithmetic operation resulted in an overflow.") := by
  unfold combine
  rw [← List.length_flatten, if_neg (by omega)]
  rfl

/-- **The list is encoded as standard RLP exactly when its payload has a length that fits.** -/
theorem encodeList_eq_iff (items : List (List UInt8)) :
    encodeList items = .ok (Rlp.list items) ↔ HeaderFits items.flatten.length := by
  unfold encodeList HeaderFits
  rcases Nat.lt_or_ge items.flatten.length (2 ^ 31) with hlt | hge
  · have hflat : [encodeLength items.flatten.length 192, items.flatten].flatten =
        encodeLength items.flatten.length 192 ++ items.flatten := by simp
    rw [combine_of_lt hlt]
    change combine _ = _ ↔ _
    constructor
    · intro h
      have htotal := Nat.lt_or_ge
        [encodeLength items.flatten.length 192, items.flatten].flatten.length (2 ^ 31)
      rcases htotal with htotal | htotal
      · rw [combine_of_lt htotal, hflat] at h
        rw [hflat, List.length_append] at htotal
        have hheader := List.append_cancel_right (Except.ok.inj h)
        obtain ⟨hlong, heven⟩ := (encodeLength_eq_iff hlt).mp hheader
        rw [hheader, Rlp.length_header, if_neg (by omega), length_bigEndian] at htotal
        exact ⟨hlong, heven, by omega⟩
      · rw [combine_of_le htotal] at h
        exact nomatch h
    · rintro ⟨hlong, heven, hfits⟩
      have hheader := (encodeLength_eq_iff hlt).mpr ⟨hlong, heven⟩
      rw [combine_of_lt, hflat, hheader]
      · rfl
      · rw [hflat, hheader, List.length_append, Rlp.length_header, if_neg (by omega),
          length_bigEndian]
        omega
  · rw [combine_of_le hge]
    exact iff_of_false (fun h => nomatch h) fun h => by omega

/-- A number is encoded as a byte string. -/
theorem encodeLong_element {rlp : RLP} (hrlp : rlp.Standard) {number : Option Text}
    {item : List UInt8} (h : encodeLong rlp number = .ok item) : ∃ bs, item = Rlp.element bs := by
  cases number with
  | none => exact nomatch h
  | some number =>
    obtain ⟨bigNumber, -, h⟩ := bind_eq_ok.mp h
    split at h
    · exact ⟨_, (Except.ok.inj h).symm.trans (hrlp.encodeElement_eq _)⟩
    · exact ⟨_, (Except.ok.inj h).symm.trans (hrlp.encodeElement_eq _)⟩

end CustomRLP

/-! ## What is signed and what is sent -/

namespace AionTransaction

/-- The encodings of the eight fields that are signed. -/
def signedItems (rlp : RLP) (tx : AionTransaction) : Except Exn (List (List UInt8)) := do
  let nonce ← hexBytes tx.nonce
  let toAddress ← hexBytes tx.toAddress
  let value ← hexBytes tx.value
  let data ← hexBytes tx.data
  let timestamp ← hexBytes tx.timestamp
  let gas ← CustomRLP.encodeLong rlp tx.gas
  let gasPrice ← CustomRLP.encodeLong rlp tx.gasPrice
  let type ← hexBytes tx.type
  let element := fun bs => rlp.encodeElement (some bs)
  return [nonce, toAddress, value, data, timestamp].map element ++ [gas, gasPrice, element type]

theorem serialize_eq (rlp : RLP) (tx : AionTransaction) :
    tx.serialize rlp = do
      let items ← tx.signedItems rlp
      return ascii "0x" ++
        byteToHex (rlp.encodeList (items ++ [rlp.encodeElement tx.signature])) := by
  simp only [signedItems, bind_assoc, pure_bind]
  rfl

theorem getEncodedRaw_eq (rlp : RLP) (tx : AionTransaction) :
    tx.getEncodedRaw rlp = tx.signedItems rlp >>= CustomRLP.encodeList := by
  simp only [signedItems, bind_assoc, pure_bind]
  rfl

theorem signedItems_spec {rlp : RLP} (hrlp : rlp.Standard) {tx : AionTransaction}
    {items : List (List UInt8)} (h : tx.signedItems rlp = .ok items) :
    items.length = 8 ∧ ∀ item ∈ items, ∃ bs, item = Rlp.element bs := by
  obtain ⟨nonce, -, h⟩ := bind_eq_ok.mp h
  obtain ⟨toAddress, -, h⟩ := bind_eq_ok.mp h
  obtain ⟨value, -, h⟩ := bind_eq_ok.mp h
  obtain ⟨data, -, h⟩ := bind_eq_ok.mp h
  obtain ⟨timestamp, -, h⟩ := bind_eq_ok.mp h
  obtain ⟨gas, hgas, h⟩ := bind_eq_ok.mp h
  obtain ⟨gasPrice, hgasPrice, h⟩ := bind_eq_ok.mp h
  obtain ⟨type, -, h⟩ := bind_eq_ok.mp h
  obtain rfl := Except.ok.inj h
  refine ⟨rfl, fun item hitem => ?_⟩
  rcases List.mem_append.mp hitem with hitem | hitem
  · obtain ⟨bs, -, rfl⟩ := List.mem_map.mp hitem
    exact ⟨_, hrlp.encodeElement_eq _⟩
  · simp only [List.mem_cons, List.not_mem_nil, or_false] at hitem
    obtain rfl | rfl | rfl := hitem
    · exact CustomRLP.encodeLong_element hrlp hgas
    · exact CustomRLP.encodeLong_element hrlp hgasPrice
    · exact ⟨_, hrlp.encodeElement_eq _⟩

/-- **What is signed is the standard encoding of the first eight fields of the list that is sent
exactly when their encodings have a total length that fits.** The same is said of every list of
encoded items. -/
theorem getEncodedRaw_canonical_iff {rlp : RLP} (hrlp : rlp.Standard) :
    (∀ items, CustomRLP.encodeList items = .ok (Rlp.list items) ↔
      CustomRLP.HeaderFits items.flatten.length) ∧
    ∀ {tx : AionTransaction} {items : List (List UInt8)}, tx.signedItems rlp = .ok items →
      (items.length = 8 ∧ ∀ item ∈ items, ∃ bs, item = Rlp.element bs) ∧
      tx.serialize rlp = .ok (ascii "0x" ++
        byteToHex (Rlp.list (items ++ [Rlp.element (tx.signature.getD [])]))) ∧
      (tx.getEncodedRaw rlp = .ok (Rlp.list items) ↔
        CustomRLP.HeaderFits items.flatten.length) := by
  refine ⟨CustomRLP.encodeList_eq_iff, fun {tx items} h => ⟨signedItems_spec hrlp h, ?_, ?_⟩⟩
  · rw [serialize_eq, h, ← hrlp.encodeElement_eq, ← hrlp.encodeList_eq]
    rfl
  · rw [getEncodedRaw_eq, h]
    exact CustomRLP.encodeList_eq_iff items

/-- Nethereum's RLP as the standard one. -/
def standardRLP : RLP := ⟨fun bs => Rlp.element (bs.getD []), Rlp.list⟩

theorem standardRLP_standard : standardRLP.Standard := ⟨fun _ => rfl, fun _ => rfl⟩

/-- A payout. -/
def samplePayout : AionTransaction where
  nonce := some (ascii "0x05")
  toAddress := some (ascii "0xa0" ++ List.replicate 62 48)
  value := some (ascii "0x0de0b6b3a7640000")
  gas := some (ascii "0x55f0")
  gasPrice := some (ascii "0x02540be400")
  timestamp := some (ascii "0x08d9a1b2c3d4e5f6")
  type := some (ascii "0x01")
  signature := some (List.replicate 96 7)

/-- The fields of a payout take 66 bytes. -/
theorem getEncodedRaw_samplePayout : ∃ items, samplePayout.signedItems standardRLP = .ok items ∧
    samplePayout.getEncodedRaw standardRLP = .ok (Rlp.list items) :=
  ⟨_, rfl, ((getEncodedRaw_canonical_iff standardRLP_standard).2 rfl).2.2.mpr
    (by decide +kernel)⟩

/-- A small value at a low gas price. -/
def sampleCheap : AionTransaction :=
  { samplePayout with value := some (ascii "0x01"), gasPrice := some (ascii "0x0a") }

/-- **A short transaction gets three zero bytes in front of its list.** Its fields take 50 bytes. -/
theorem getEncodedRaw_sampleCheap : standardRLP.Standard ∧
    ∃ items, sampleCheap.signedItems standardRLP = .ok items ∧
    (∃ text, sampleCheap.serialize standardRLP = .ok text) ∧
    sampleCheap.getEncodedRaw standardRLP = .ok ([0, 0, 0] ++ Rlp.list items) ∧
    sampleCheap.getEncodedRaw standardRLP ≠ .ok (Rlp.list items) :=
  ⟨standardRLP_standard, _, rfl, ⟨_, rfl⟩, by decide +kernel, by decide +kernel⟩

end AionTransaction

end AionPool.Aion
