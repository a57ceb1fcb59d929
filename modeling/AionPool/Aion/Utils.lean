import AionPool.Extensions.Strings
import AionPool.Runtime

/-!
# `AionUtils`

Hexadecimal numbers, and the target of a difficulty.

* `fromHex_of_number`: a count that fits 32 bits is read with its bits, a larger one throws.
* `number_appendHexStart`: the texts of `AppendHexStart` name the number they were made from.

Models `AionUtils.cs:11-74`.
-/

namespace AionPool.Aion

open AionPool.Extensions AionPool.Lib.Bytes
open AionPool.Lib.Binary64 (Double)

/-! ## Hexadecimal numbers -/

/-- What `int.Parse` leaves out around a number. -/
def isWhite (c : UInt16) : Bool := c = 32 ∨ (9 ≤ c.toNat ∧ c.toNat ≤ 13)

/-- The text without white space around it, and without null characters at its end. -/
def trim (s : Text) : Text :=
  (((s.dropWhile isWhite).reverse.dropWhile (· = 0)).dropWhile isWhite).reverse

/-- `int.Parse(s, NumberStyles.HexNumber)`. -/
def parseInt32 (s : Text) : Except Exn Int32 :=
  match parseHex? (trim s) with
  | none => throw .format
  | some n =>
    if n < 2 ^ 32 then return (UInt32.ofNat n).toInt32
    else throw (.overflow "Value was either too large or too small for an Int32.")

/-- `fromHex`. -/
def fromHex (hex : Text) : Except Exn Int32 := parseInt32 (skip0x hex)

/-- `AppendHexStart`. -/
def appendHexStart (hex : Text) : Text :=
  let hex := skip0x hex
  ascii "0x" ++ (if hex.length % 2 ≠ 0 then ascii "0" ++ hex else hex)

/-- The number a text names, with or without `0x`. -/
def number? (s : Text) : Option ℕ := parseHex? (skip0x s)

theorem isHexDigit_of_parse {s : Text} {n : ℕ} (h : parseHex? s = some n) :
    ∀ c ∈ s, isHexDigit c = true := by
  unfold parseHex? at h
  split at h
  · rename_i hs
    exact List.all_eq_true.mp hs.2
  · exact absurd h (by simp)

theorem dropWhile_of_digits {p : UInt16 → Bool} (hp : ∀ c, isHexDigit c = true → p c = false) :
    ∀ {s : Text}, (∀ c ∈ s, isHexDigit c = true) → s.dropWhile p = s
  | [], _ => rfl
  | c :: s, h => by
    rw [List.dropWhile_cons, hp c (h c List.mem_cons_self)]
    rfl

theorem ne_zero_of_isHexDigit {c : UInt16} (h : isHexDigit c = true) : decide (c = 0) = false := by
  refine decide_eq_false ?_
  rintro rfl
  exact absurd h (by decide)

/-- Hexadecimal digits have no null characters behind them. -/
theorem dropNulls_of_digits {s : Text} (h : ∀ c ∈ s, isHexDigit c = true) :
    (s.reverse.dropWhile (· = 0)).reverse = s := by
  rw [dropWhile_of_digits (fun _ => ne_zero_of_isHexDigit) fun c hc => h c (List.mem_reverse.mp hc),
    List.reverse_reverse]

/-- Hexadecimal digits have nothing to trim. -/
theorem trim_of_digits {s : Text} (h : ∀ c ∈ s, isHexDigit c = true) : trim s = s := by
  have hwhite : ∀ c, isHexDigit c = true → isWhite c = false := by
    intro c hc
    have := of_decide_eq_true hc
    refine decide_eq_false ?_
    rintro (rfl | hw)
    · exact absurd hc (by decide)
    · omega
  have hrev : ∀ c ∈ s.reverse, isHexDigit c = true := fun c hc => h c (List.mem_reverse.mp hc)
  unfold trim
  rw [dropWhile_of_digits hwhite h, dropWhile_of_digits (fun _ => ne_zero_of_isHexDigit) hrev,
    dropWhile_of_digits hwhite hrev, List.reverse_reverse]

/-- A number that fits 32 bits is read with its bits, a larger one throws. -/
theorem fromHex_of_number {s : Text} {n : ℕ} (h : number? s = some n) :
    fromHex s = if n < 2 ^ 32 then .ok (UInt32.ofNat n).toInt32
      else .error (.overflow "Value was either too large or too small for an Int32.") := by
  unfold fromHex parseInt32
  rw [trim_of_digits (isHexDigit_of_parse h), show parseHex? (skip0x s) = some n from h]
  rfl

/-- What `AppendHexStart` makes of the digits of a number names the number. -/
theorem number_appendHexStart (n : ℕ) : number? (appendHexStart (hexNumber n)) = some n := by
  unfold number? appendHexStart
  dsimp only
  rw [skip0x_append, skip0x_of_digits fun _ => isHexDigit_hexNumber]
  split
  · exact parseHex_zero_cons (parseHex_hexNumber n)
  · exact parseHex_hexNumber n

/-! ## Targets -/

/-- `new BigInteger(diff)`. -/
def bigInteger : Double → Except Exn ℤ
  | .nan => throw (.overflow "BigInteger cannot represent NaN.")
  | .inf _ => throw (.overflow "BigInteger cannot represent infinity.")
  | .fin q => return if 0 ≤ q then ⌊q⌋ else ⌈q⌉

/-- What `diffToTarget` makes of the bytes of the target, most significant first: 32 bytes, of zeros
where the number has more. -/
def targetBytes (bytes : List UInt8) : List UInt8 :=
  if bytes.length = 32 then bytes
  else
    let start := if bytes[0]? = some 0 then 1 else 0
    let count := bytes.length - start
    if 32 < count then List.replicate 32 0
    else List.replicate (32 - count) 0 ++ bytes.drop start

/-- `diffToTarget`. -/
def diffToTarget (diff : Double) : Except Exn Text := do
  let divisor ← bigInteger diff
  if divisor = 0 then throw .divideByZero
  else return byteToHex (targetBytes (twos ((2 ^ 256 : ℤ).tdiv divisor)).reverse)

end AionPool.Aion
