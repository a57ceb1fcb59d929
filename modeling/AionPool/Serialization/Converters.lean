import AionPool.Aion.Job
import AionPool.Aion.Transaction

/-!
# The converters of daemon numbers

The three `JsonConverter`s of the daemon's answers. What they read and write are boxed values, which
they tell apart by their types: a reader gives an integer as an `Int64`, and the format `x` only
means something to values that are `IFormattable`.

* `HexToIntegralTypeJsonConverter`: `readsBack_uint64`, `readsBack_bigInteger`.
* `HexToByteArrayJsonConverter`: `readsBack_iff_typeName`; a byte array is written as the name of
  its type.
* `ToUlongJsonConverter`: `readsForms_iff`; an integer token is read as zero.
* **`readsBack_iff`**: which values each of them reads back.

Models `HexToIntegralTypeJsonConverter.cs:19-45`, `HexToByteArrayJsonConverter.cs:15-30` and
`ToUlongJsonConverter.cs:14-42`.
-/

namespace AionPool.Serialization

open AionPool.Extensions AionPool.Aion

/-! ## Values and tokens -/

/-- A boxed value, with its type. -/
inductive Obj where
  | null
  | string (s : Text)
  | int64 (n : Int64)
  | uint64 (n : UInt64)
  | bigInteger (n : ℤ)
  | uint256 (n : Bytes32)
  | byteArray (bs : List UInt8)
  deriving DecidableEq

/-- A token of the JSON text. -/
inductive Token where
  | null
  | string (s : Text)
  | integer (n : ℤ)

/-- `reader.Value` at a token: an integer is an `Int64` when it fits. -/
def Token.value : Token → Obj
  | .null => .null
  | .string s => .string s
  | .integer n => if -2 ^ 63 ≤ n ∧ n < 2 ^ 63 then .int64 (Int64.ofInt n) else .bigInteger n

/-- `(string) value`; `none` is a null string. -/
def Obj.castString : Obj → Except Exn (Option Text)
  | .null => .ok none
  | .string s => .ok (some s)
  | _ => .error .invalidCast

/-- The digit that adds up to 15 with this one. -/
def complementDigit (c : UInt16) : UInt16 := lowerDigit (15 - (getHexVal c).toNat)

/-- `BigInteger.ToString("x")`; a negative number is written in two's complement. -/
def bigIntegerFormatHex (n : ℤ) : Text :=
  if 0 ≤ n then bigIntegerHex n.toNat else (bigIntegerHex (-n - 1).toNat).map complementDigit

/-- The digits of an integer. -/
def integerText (n : ℤ) : Text :=
  if 0 ≤ n then decimalNumber n.toNat else ascii "-" ++ decimalNumber (-n).toNat

/-- `ToString()`. -/
def Obj.text : Obj → Text
  | .null => []
  | .string s => s
  | .int64 n => integerText n.toInt
  | .uint64 n => decimalNumber n.toNat
  | .bigInteger n => integerText n
  | .uint256 n => byteToHex n.1.reverse
  | .byteArray _ => ascii "System.Byte[]"

/-- The value in an interpolated string, in the format `x`; a value that is not `IFormattable` is
written as without a format. -/
def Obj.formatHex : Obj → Text
  | .int64 n => hexLower n.toUInt64.toNat
  | .uint64 n => hexLower n.toNat
  | .bigInteger n => bigIntegerFormatHex n
  | value => value.text

/-! ## Parsing -/

/-- `BigInteger.Parse(s, NumberStyles.HexNumber)`. -/
def parseBigIntegerHex (s : Text) : Except Exn ℤ := parseBigInteger (trim s)

/-- A number that is an `ulong`. -/
def toUInt64 : Option ℕ → Except Exn UInt64
  | none => .error .format
  | some n =>
    if n < 2 ^ 64 then .ok (UInt64.ofNat n)
    else .error (.overflow "Value was either too large or too small for a UInt64.")

/-- `ulong.Parse(s, NumberStyles.HexNumber)`. -/
def parseUInt64Hex (s : Text) : Except Exn UInt64 := toUInt64 (parseHex? (trim s))

/-- `ulong.Parse(s, NumberStyles.None)`. Null characters at the end are left out. -/
def parseUInt64 (s : Text) : Except Exn UInt64 :=
  toUInt64 (parseDecimal? (s.reverse.dropWhile (· = 0)).reverse)

/-! ## The converters -/

namespace HexToIntegralTypeJsonConverter

/-- The types `T` that the repository has converters for, and `uint256`, which the code knows. -/
inductive IntegralType where
  | ulong
  | nullableUlong
  | bigInteger
  | uint256

/-- `default(T)`. -/
def IntegralType.default : IntegralType → Obj
  | .ulong => .uint64 0
  | .nullableUlong => .null
  | .bigInteger => .bigInteger 0
  | .uint256 => .null

def writeJson : Obj → Token
  | .null => .string (ascii "null")
  | value => .string (ascii "0x" ++ value.formatHex)

def readJson (t : IntegralType) (value : Obj) : Except Exn Obj := do
  let str ← value.castString
  match str with
  | none | some [] => .ok t.default
  | some str =>
    let str := skip0x str
    match t with
    | .bigInteger => (parseBigIntegerHex (ascii "0" ++ str)).map .bigInteger
    | .uint256 => (Aion.uint256 (hexToReverseByteArray str)).map .uint256
    | .ulong | .nullableUlong => (parseUInt64Hex (ascii "0" ++ str)).map .uint64

end HexToIntegralTypeJsonConverter

namespace HexToByteArrayJsonConverter

def writeJson (value : Obj) : Token := .string (ascii "0x" ++ value.formatHex)

def readJson (value : Obj) : Except Exn Obj := do
  let str ← value.castString
  match str with
  | none => .error .nullReference
  | some str =>
    let str := skip0x str
    if str = [] then .ok .null else .ok (.byteArray (hexToByteArray str))

end HexToByteArrayJsonConverter

namespace ToUlongJsonConverter

def writeJson : Obj → Token
  | .null => .string (ascii "null")
  | value => .string value.text

def readJson : Obj → Except Exn Obj
  | .null => .error .nullReference
  | .string str =>
    if str = [] then .ok (.uint64 0)
    else if str.take 2 = ascii "0x" then
      (parseUInt64Hex (ascii "0" ++ str.drop 2)).map .uint64
    else (parseUInt64 (ascii "0" ++ str)).map .uint64
  | .uint64 v => .ok (.uint64 v)
  | _ => .ok (.uint64 0)

end ToUlongJsonConverter

/-! ## What is read back -/

theorem toUInt64_toNat (v : UInt64) : toUInt64 (some v.toNat) = .ok v := by
  unfold toUInt64
  dsimp only
  rw [if_pos v.toNat_lt, UInt64.ofNat_toNat]

/-- The digits of an `ulong` are read as it, with a zero in front. -/
theorem parseUInt64Hex_hexLower (v : UInt64) :
    parseUInt64Hex (ascii "0" ++ hexLower v.toNat) = .ok v := by
  have hparse : parseHex? (ascii "0" ++ hexLower v.toNat) = some v.toNat :=
    parseHex_zero_cons (parseHex_map_lowerHex (parseHex_hexNumber v.toNat))
  unfold parseUInt64Hex
  rw [trim_of_digits (isHexDigit_of_parse hparse), hparse, toUInt64_toNat]

theorem parseUInt64_decimalNumber (v : UInt64) :
    parseUInt64 (ascii "0" ++ decimalNumber v.toNat) = .ok v := by
  have hparse : parseDecimal? (ascii "0" ++ decimalNumber v.toNat) = some v.toNat :=
    parseDecimal_zero_cons (parseDecimal_decimalNumber v.toNat)
  have hdigits : ∀ c ∈ ascii "0" ++ decimalNumber v.toNat, isHexDigit c = true := fun c hc => by
    rcases List.mem_append.mp hc with hc | hc
    · rw [List.mem_singleton.mp hc]
      rfl
    · exact isHexDigit_of_isDigit (isDigit_decimalNumber hc)
  unfold parseUInt64
  rw [dropNulls_of_digits hdigits, hparse, toUInt64_toNat]

/-- The zero in front keeps the number from being read as negative. -/
theorem parseBigIntegerHex_bigIntegerHex (n : ℕ) :
    parseBigIntegerHex (ascii "0" ++ bigIntegerHex n) = .ok n := by
  have hparse : parseHex? (bigIntegerHex n) = some n :=
    parseHex_eq_some_iff.mpr
      ⟨bigIntegerHex_ne_nil n, fun _ => isHexDigit_bigIntegerHex, hexValue_bigIntegerHex n⟩
  have hzero := parseHex_zero_cons hparse
  have hpositive : ¬ 8 ≤ getHexVal ((48 :: bigIntegerHex n).headD 0) :=
    (by decide : ¬ 8 ≤ getHexVal 48)
  unfold parseBigIntegerHex
  rw [show ascii "0" ++ bigIntegerHex n = 48 :: bigIntegerHex n from rfl,
    trim_of_digits (isHexDigit_of_parse hzero), parseBigInteger_of_parse hzero, if_neg hpositive]

namespace HexToIntegralTypeJsonConverter

/-- `ReadJson` of what `WriteJson` writes. -/
def ReadsBack (t : IntegralType) (value : Obj) : Prop :=
  readJson t (writeJson value).value = .ok value

/-- What is read of a text behind `0x`. -/
theorem readJson_hex (t : IntegralType) (s : Text) :
    readJson t (.string (ascii "0x" ++ s)) =
      match t with
      | .bigInteger => (parseBigIntegerHex (ascii "0" ++ s)).map .bigInteger
      | .uint256 => (Aion.uint256 (hexToReverseByteArray s)).map .uint256
      | .ulong | .nullableUlong => (parseUInt64Hex (ascii "0" ++ s)).map .uint64 := by
  have hread : readJson t (.string (ascii "0x" ++ s)) =
      match t with
      | .bigInteger => (parseBigIntegerHex (ascii "0" ++ skip0x (ascii "0x" ++ s))).map .bigInteger
      | .uint256 =>
        (Aion.uint256 (hexToReverseByteArray (skip0x (ascii "0x" ++ s)))).map .uint256
      | .ulong | .nullableUlong =>
        (parseUInt64Hex (ascii "0" ++ skip0x (ascii "0x" ++ s))).map .uint64 := rfl
  rw [hread, skip0x_append]

/-- **An `ulong` is read back.** -/
theorem readsBack_uint64 (v : UInt64) : ReadsBack .ulong (.uint64 v) := by
  have hread := readJson_hex .ulong (hexLower v.toNat)
  rw [parseUInt64Hex_hexLower] at hread
  exact hread

/-- **A `BigInteger` that is not negative is read back.** -/
theorem readsBack_bigInteger (n : ℕ) : ReadsBack .bigInteger (.bigInteger n) := by
  have hwrite : (writeJson (.bigInteger n)).value = .string (ascii "0x" ++ bigIntegerHex n) := by
    have hformat : bigIntegerFormatHex n = bigIntegerHex n := if_pos (Int.natCast_nonneg n)
    rw [← hformat]
    rfl
  have hread := readJson_hex .bigInteger (bigIntegerHex n)
  rw [parseBigIntegerHex_bigIntegerHex] at hread
  unfold ReadsBack
  rw [hwrite]
  exact hread

end HexToIntegralTypeJsonConverter

namespace HexToByteArrayJsonConverter

/-- `ReadJson` of what `WriteJson` writes. -/
def ReadsBack (bs : List UInt8) : Prop :=
  readJson (writeJson (.byteArray bs)).value = .ok (.byteArray bs)

/-- What is decoded of the name of the type. -/
def typeNameBytes : List UInt8 := [0xE2, 0xDD, 0xF6, 0xEB, 0x3D, 0x04]

/-- Every byte array is written as the name of its type. -/
theorem writeJson_byteArray (bs : List UInt8) :
    writeJson (.byteArray bs) = .string (ascii "0xSystem.Byte[]") := rfl

theorem readJson_typeName :
    readJson (.string (ascii "0xSystem.Byte[]")) = .ok (.byteArray typeNameBytes) := by
  decide +kernel

/-- **A byte array is not read back**, unless it is what the name of its type decodes to. -/
theorem readsBack_iff_typeName (bs : List UInt8) : ReadsBack bs ↔ bs = typeNameBytes := by
  unfold ReadsBack
  rw [writeJson_byteArray, Token.value, readJson_typeName]
  constructor
  · intro h
    exact (Obj.byteArray.inj (Except.ok.inj h)).symm
  · rintro rfl
    rfl

end HexToByteArrayJsonConverter

namespace ToUlongJsonConverter

/-- The forms in which the daemon may give a number are all read as it. -/
structure ReadsForms (v : UInt64) : Prop where
  decimal : readJson (Token.string (decimalNumber v.toNat)).value = .ok (.uint64 v)
  hex : readJson (Token.string (ascii "0x" ++ hexLower v.toNat)).value = .ok (.uint64 v)
  integer : readJson (Token.integer v.toNat).value = .ok (.uint64 v)

theorem readJson_decimal (v : UInt64) :
    readJson (Token.string (decimalNumber v.toNat)).value = .ok (.uint64 v) := by
  have hdigits : (decimalNumber v.toNat).take 2 ≠ ascii "0x" := fun h => by
    have hx : (120 : UInt16) ∈ (decimalNumber v.toNat).take 2 := by
      rw [h]
      decide
    exact absurd (isDigit_decimalNumber (List.mem_of_mem_take hx)) (by decide)
  rw [Token.value, readJson, if_neg (decimalNumber_ne_nil v.toNat), if_neg hdigits,
    parseUInt64_decimalNumber]
  rfl

theorem readJson_hex (v : UInt64) :
    readJson (Token.string (ascii "0x" ++ hexLower v.toNat)).value = .ok (.uint64 v) := by
  have hread : readJson (Token.string (ascii "0x" ++ hexLower v.toNat)).value =
      (parseUInt64Hex (ascii "0" ++ hexLower v.toNat)).map .uint64 := rfl
  rw [hread, parseUInt64Hex_hexLower]
  rfl

/-- **An integer token is read as zero**: its value is no `ulong`. -/
theorem readJson_integer (n : ℤ) : readJson (Token.integer n).value = .ok (.uint64 0) := by
  have hvalue : (Token.integer n).value =
      if -2 ^ 63 ≤ n ∧ n < 2 ^ 63 then .int64 (Int64.ofInt n) else .bigInteger n := rfl
  rw [hvalue]
  split
  · rfl
  · rfl

theorem readsForms_iff (v : UInt64) : ReadsForms v ↔ v = 0 := by
  constructor
  · intro h
    have hinteger := h.integer
    rw [readJson_integer] at hinteger
    exact (Obj.uint64.inj (Except.ok.inj hinteger)).symm
  · rintro rfl
    exact ⟨readJson_decimal 0, readJson_hex 0, readJson_integer _⟩

end ToUlongJsonConverter

/-- **What the converters read back**: every `ulong` and every `BigInteger` that is not negative;
of the byte arrays one; and in all forms only zero, since the texts of a number are read as it, and
its integer token as zero. -/
theorem readsBack_iff (v : UInt64) (n : ℕ) (bs : List UInt8) :
    HexToIntegralTypeJsonConverter.ReadsBack .ulong (.uint64 v) ∧
    HexToIntegralTypeJsonConverter.ReadsBack .bigInteger (.bigInteger n) ∧
    (HexToByteArrayJsonConverter.ReadsBack bs ↔
      bs = HexToByteArrayJsonConverter.typeNameBytes) ∧
    (ToUlongJsonConverter.ReadsForms v ↔ v = 0) :=
  ⟨HexToIntegralTypeJsonConverter.readsBack_uint64 v,
    HexToIntegralTypeJsonConverter.readsBack_bigInteger n,
    HexToByteArrayJsonConverter.readsBack_iff_typeName bs, ToUlongJsonConverter.readsForms_iff v⟩

/-- An empty array is written as the name of its type, and the integer 1 is read as zero. -/
theorem not_readsBack :
    HexToByteArrayJsonConverter.readJson
        (HexToByteArrayJsonConverter.writeJson (.byteArray [])).value =
      .ok (.byteArray [0xE2, 0xDD, 0xF6, 0xEB, 0x3D, 0x04]) ∧
    ToUlongJsonConverter.readJson (Token.integer 1).value = .ok (.uint64 0) ∧
    ¬ HexToByteArrayJsonConverter.ReadsBack [] ∧ ¬ ToUlongJsonConverter.ReadsForms 1 := by
  refine ⟨HexToByteArrayJsonConverter.readJson_typeName, ToUlongJsonConverter.readJson_integer 1,
    fun h => ?_, fun h => ?_⟩
  · exact absurd ((HexToByteArrayJsonConverter.readsBack_iff_typeName []).mp h) (by decide)
  · exact absurd ((ToUlongJsonConverter.readsForms_iff 1).mp h) (by decide)

end AionPool.Serialization
