import Mathlib.Data.Nat.Digits.Lemmas

/-!
# Recursive length prefix

The standard encoding of byte strings and lists (RLP). A list is given by its encoded items.

* `bigEndian n` is the number without leading zero bytes; `bigEndian_step` is its last byte.
* `header offset n` announces `n` bytes, of a string at the offset 128 and of a list at 192: one
  byte up to 55 bytes, otherwise the length of the length and the length (`length_header`).
* `element` and `list` put the header in front of the bytes; a byte below 128 is its own encoding.
  `element_inj_of_short`: the encoding of a short string is no other string's.
-/

namespace AionPool.Lib.Rlp

/-- `n` with its most significant byte first, without leading zeros. -/
def bigEndian (n : ℕ) : List UInt8 := ((Nat.digits 256 n).map UInt8.ofNat).reverse

/-- The header in front of `n` bytes. -/
def header (offset n : ℕ) : List UInt8 :=
  if n < 56 then [UInt8.ofNat (offset + n)]
  else UInt8.ofNat (offset + 55 + (bigEndian n).length) :: bigEndian n

/-- The encoding of a byte string. -/
def element : List UInt8 → List UInt8
  | [b] => if b < 128 then [b] else header 128 1 ++ [b]
  | bs => header 128 bs.length ++ bs

/-- The encoding of a list of encoded items. -/
def list (items : List (List UInt8)) : List UInt8 :=
  header 192 items.flatten.length ++ items.flatten

@[simp] theorem bigEndian_zero : bigEndian 0 = [] := by
  unfold bigEndian
  rw [Nat.digits_zero]
  rfl

/-- The last byte is the remainder. -/
theorem bigEndian_step {n : ℕ} (h : 0 < n) :
    bigEndian n = bigEndian (n / 256) ++ [UInt8.ofNat (n % 256)] := by
  unfold bigEndian
  rw [Nat.digits_def' (by norm_num) h, List.map_cons, List.reverse_cons]

/-- A number below 256 is one byte. -/
theorem bigEndian_of_lt {n : ℕ} (hpos : 0 < n) (h : n < 256) : bigEndian n = [UInt8.ofNat n] := by
  rw [bigEndian_step hpos, Nat.div_eq_of_lt h, bigEndian_zero, Nat.mod_eq_of_lt h]
  rfl

theorem length_bigEndian (n : ℕ) : (bigEndian n).length = (Nat.digits 256 n).length := by
  unfold bigEndian
  rw [List.length_reverse, List.length_map]

theorem length_header (offset n : ℕ) :
    (header offset n).length = if n < 56 then 1 else 1 + (bigEndian n).length := by
  unfold header
  split
  · rfl
  · rw [List.length_cons, Nat.add_comm]

theorem element_of_one {b : UInt8} (h : b < 128) : element [b] = [b] := if_pos h

theorem element_of_header {bs : List UInt8} (h : ∀ b, bs = [b] → ¬ b < 128) :
    element bs = header 128 bs.length ++ bs := by
  match bs with
  | [] => rfl
  | [b] => exact if_neg (h b rfl)
  | _ :: _ :: _ => rfl

/-- A string is its own encoding, or has a header in front. -/
theorem element_cases (bs : List UInt8) :
    (∃ b, bs = [b] ∧ b < 128 ∧ element bs = [b]) ∨ element bs = header 128 bs.length ++ bs := by
  by_cases h : ∃ b, bs = [b] ∧ b < 128
  · obtain ⟨b, rfl, hb⟩ := h
    exact Or.inl ⟨b, rfl, hb, element_of_one hb⟩
  · exact Or.inr (element_of_header fun b hbs hb => h ⟨b, hbs, hb⟩)

/-- The encoding of a short string is no other string's. -/
theorem element_inj_of_short {bs cs : List UInt8} (hshort : bs.length < 56)
    (h : element bs = element cs) : bs = cs := by
  -- the empty string is one byte too, but not one below 128
  have hapart : ∀ {b : UInt8} {ds : List UInt8}, b < 128 →
      [b] ≠ header 128 ds.length ++ ds := by
    intro b ds hb heq
    have hlen := congrArg List.length heq
    rw [List.length_append, length_header, List.length_singleton] at hlen
    cases ds with
    | nil =>
      obtain rfl := List.singleton_inj.mp heq
      exact absurd hb (by decide)
    | cons d ds =>
      rw [List.length_cons] at hlen
      split at hlen
      · omega
      · omega
  rcases element_cases bs with ⟨b, rfl, hb, hbs⟩ | hbs
  · rcases element_cases cs with ⟨c, rfl, -, hcs⟩ | hcs
    · exact hbs.symm.trans (h.trans hcs)
    · exact absurd (hbs.symm.trans (h.trans hcs)) (hapart hb)
  · rcases element_cases cs with ⟨c, rfl, hc, hcs⟩ | hcs
    · exact absurd (hcs.symm.trans (h.symm.trans hbs)) (hapart hc)
    · have heq := hbs.symm.trans (h.trans hcs)
      have hlen := congrArg List.length heq
      rw [List.length_append, List.length_append, length_header, length_header,
        if_pos hshort] at hlen
      have hlen' : bs.length = cs.length := by
        split at hlen
        · omega
        · omega
      rw [hlen'] at heq
      exact List.append_cancel_left heq

end AionPool.Lib.Rlp
