import AionPool.Extensions.Strings
import AionPool.Lib.Bits

/-!
# `CorrelationIdGenerator`

An id is thirteen digits in base 32, of a 64-bit counter that starts at the time of the start.

* `generateId_eq`: the digits are those of the number with its sign taken along.
* **`generateId_lt_iff`**: texts sort as the counters do, taken without a sign.
* `generateId_injective`: no two counters have one id.
* **`drawn_sorted`**: ids sort in the order they were drawn, over all starts of the pool.

Models `CorrelationIdGenerator.cs:36-66`.
-/

namespace AionPool.Util.CorrelationIdGenerator

open AionPool.Extensions AionPool.Lib.Bits

/-- `_encode32Chars`. -/
def encode32Chars : Text := ascii "0123456789ABCDEFGHIJKLMNOPQRSTUV"

/-- `_encode32Chars[(int) v & 31]`. -/
def encode32 (v : Int64) : UInt16 := encode32Chars.getD (v.toInt32 &&& 31).toInt.toNat 0

/-- `GenerateId`. -/
def generateId (id : Int64) : Text :=
  [id >>> 60, id >>> 55, id >>> 50, id >>> 45, id >>> 40, id >>> 35, id >>> 30, id >>> 25,
    id >>> 20, id >>> 15, id >>> 10, id >>> 5, id].map encode32

/-- `GetNextId`: the new `_lastId`, and its text. -/
def getNextId (lastId : Int64) : Int64 × Text := (lastId + 1, generateId (lastId + 1))

/-- The ids of so many calls of `GetNextId`. -/
def drawn : ℕ → Int64 → List Text
  | 0, _ => []
  | n + 1, lastId => (getNextId lastId).2 :: drawn n (getNextId lastId).1

/-! ## The digits -/

/-- The character of a digit. -/
def digit (d : ℕ) : UInt16 := encode32Chars.getD d 0

theorem toInt_and_31 (v : Int64) : (v.toInt32 &&& 31).toInt = v.toInt % 32 := by
  have h31 : (31 : Int32).toBitVec = BitVec.ofNat 32 (2 ^ 5 - 1) := rfl
  have hnat : (v.toInt32 &&& 31).toBitVec.toNat = v.toBitVec.toNat % 32 := by
    rw [Int32.toBitVec_and, h31, BitVec.toNat_and, BitVec.toNat_ofNat,
      Nat.mod_eq_of_lt (show 2 ^ 5 - 1 < 2 ^ 32 by decide), Nat.and_two_pow_sub_one_eq_mod,
      Int64.toBitVec_toInt32, BitVec.signExtend_eq_setWidth_of_le _ (by decide),
      BitVec.toNat_setWidth, Nat.mod_mod_of_dvd _ (by decide)]
  rw [← Int32.toInt_toBitVec, BitVec.toInt_eq_toNat_of_lt (by rw [hnat]; omega), hnat,
    ← Int64.toInt_toBitVec, BitVec.toInt_eq_toNat_bmod, Int.bmod_def]
  split <;> omega

theorem toInt_shiftRight (id : Int64) {s : Int64} {k : ℕ} (h : (s.toBitVec.smod 64).toNat = k) :
    (id >>> s).toInt = id.toInt / 2 ^ k := by
  rw [← Int64.toInt_toBitVec, Int64.toBitVec_shiftRight, BitVec.toInt_sshiftRight', h,
    Int64.toInt_toBitVec, Int.shiftRight_eq_div_pow]
  rfl

/-- The number the digits are taken from. -/
def counter (id : Int64) : ℕ := (id.toInt % 2 ^ 65).toNat

theorem encode32_eq {id v : Int64} {k : ℕ} (hk : k ≤ 60) (hv : v.toInt = id.toInt / 2 ^ k) :
    encode32 v = digit (counter id / 2 ^ k % 2 ^ 5) := by
  unfold encode32 digit
  refine congrArg (encode32Chars.getD · 0) ?_
  rw [toInt_and_31, hv]
  have hsplit : (2 : ℤ) ^ 65 = 2 ^ k * (32 * 2 ^ (60 - k)) := by
    rw [show (32 : ℤ) = 2 ^ 5 from rfl, ← pow_add, ← pow_add]
    congr 1
    omega
  have hdiv : id.toInt % 2 ^ 65 / 2 ^ k % 32 = id.toInt / 2 ^ k % 32 := by
    have hwhole : id.toInt % 2 ^ 65 =
        id.toInt + 2 ^ k * (32 * (-(2 ^ (60 - k) * (id.toInt / 2 ^ 65)))) := by
      rw [Int.emod_def, sub_eq_add_neg]
      nth_rewrite 1 [hsplit]
      ring
    rw [hwhole, Int.add_mul_ediv_left _ _ (by positivity), Int.add_mul_emod_self_left]
  have hcounter : ((counter id : ℕ) : ℤ) = id.toInt % 2 ^ 65 := by
    unfold counter
    exact Int.toNat_of_nonneg (Int.emod_nonneg _ (by norm_num))
  rw [← hdiv, ← hcounter]
  norm_cast

/-- **An id** is the digits of the counter. -/
theorem generateId_eq (id : Int64) : generateId id = (places 5 13 (counter id)).map digit := by
  have hdigit : ∀ {s : Int64} {k : ℕ}, k ≤ 60 → (s.toBitVec.smod 64).toNat = k →
      encode32 (id >>> s) = digit (counter id / 2 ^ k % 2 ^ 5) := fun hk hs =>
    encode32_eq hk (toInt_shiftRight id hs)
  have hlast : encode32 id = digit (counter id / 2 ^ 0 % 2 ^ 5) :=
    encode32_eq (by decide) (by rw [pow_zero, Int.ediv_one])
  simp only [generateId, places, List.map_cons, List.map_nil]
  rw [hlast, @hdigit 60 60 (by decide) rfl, @hdigit 55 55 (by decide) rfl,
    @hdigit 50 50 (by decide) rfl, @hdigit 45 45 (by decide) rfl, @hdigit 40 40 (by decide) rfl,
    @hdigit 35 35 (by decide) rfl, @hdigit 30 30 (by decide) rfl, @hdigit 25 25 (by decide) rfl,
    @hdigit 20 20 (by decide) rfl, @hdigit 15 15 (by decide) rfl, @hdigit 10 10 (by decide) rfl,
    @hdigit 5 5 (by decide) rfl]

/-! ## The order of the ids -/

theorem digit_lt_iff : ∀ d < 2 ^ 5, ∀ e < 2 ^ 5, (digit d < digit e ↔ d < e) := by decide

theorem digit_inj : ∀ d < 2 ^ 5, ∀ e < 2 ^ 5, (digit d = digit e ↔ d = e) := by decide

theorem map_digit_lt_iff : ∀ {ds es : List ℕ}, (∀ d ∈ ds, d < 2 ^ 5) → (∀ e ∈ es, e < 2 ^ 5) →
    (ds.map digit < es.map digit ↔ ds < es)
  | [], [], _, _ => iff_of_false (List.not_lt_nil _) (List.not_lt_nil _)
  | [], _ :: _, _, _ => iff_of_true (List.nil_lt_cons _ _) (List.nil_lt_cons _ _)
  | _ :: _, [], _, _ => iff_of_false (List.not_lt_nil _) (List.not_lt_nil _)
  | d :: ds, e :: es, hds, hes => by
    obtain ⟨hd, hds⟩ := List.forall_mem_cons.mp hds
    obtain ⟨he, hes⟩ := List.forall_mem_cons.mp hes
    rw [List.map_cons, List.map_cons, List.cons_lt_cons_iff, List.cons_lt_cons_iff,
      digit_lt_iff d hd e he, digit_inj d hd e he, map_digit_lt_iff hds hes]

theorem counter_lt_iff (a b : Int64) : counter a < counter b ↔ a.toUInt64 < b.toUInt64 := by
  have hunsigned : ∀ v : Int64, (v.toUInt64.toNat : ℤ) = v.toInt % 2 ^ 64 := fun v => by
    rw [← Int64.toInt_toBitVec, BitVec.toInt_eq_toNat_bmod, Int.bmod_def]
    have := v.toUInt64.toNat_lt
    have hsame : v.toBitVec.toNat = v.toUInt64.toNat := rfl
    split <;> omega
  have ha := hunsigned a
  have hb := hunsigned b
  have hlow := Int64.le_toInt
  have hhigh := Int64.toInt_lt
  rw [UInt64.lt_iff_toNat_lt]
  unfold counter
  have := hlow a
  have := hlow b
  have := hhigh a
  have := hhigh b
  omega

/-- **Texts sort as the counters do** that are taken without a sign: the ids of one start in the
order they were made. -/
theorem generateId_lt_iff (a b : Int64) :
    generateId a < generateId b ↔ a.toUInt64 < b.toUInt64 := by
  have hlt : ∀ v, counter v % 2 ^ (5 * 13) = counter v := fun v => by
    refine Nat.mod_eq_of_lt ?_
    unfold counter
    have := Int.emod_lt_of_pos v.toInt (show (0 : ℤ) < 2 ^ 65 by norm_num)
    omega
  rw [generateId_eq, generateId_eq, map_digit_lt_iff places_lt places_lt, places_lt_places_iff,
    hlt, hlt, counter_lt_iff]

theorem generateId_injective : Function.Injective generateId := fun a b h => by
  have hirrefl : ∀ {c d : Int64}, generateId c = generateId d → ¬ c.toUInt64 < d.toUInt64 :=
    fun {c d} hcd hlt => List.lt_irrefl _ (hcd ▸ (generateId_lt_iff c d).mpr hlt)
  have hsame : a.toUInt64 = b.toUInt64 :=
    UInt64.le_antisymm (UInt64.not_lt.mp (hirrefl h.symm)) (UInt64.not_lt.mp (hirrefl h))
  exact congrArg Int64.ofUInt64 hsame

/-! ## Starts of the pool -/

theorem generateId_lt_of_lt {a b : Int64} (ha : 0 ≤ a.toInt) (h : a.toInt < b.toInt) :
    generateId a < generateId b := by
  have hunsigned : ∀ v : Int64, 0 ≤ v.toInt → (v.toUInt64.toNat : ℤ) = v.toInt := fun v hv => by
    rw [← Int64.toInt_toBitVec] at hv ⊢
    have hlt := v.toUInt64.toNat_lt
    have hsame : v.toBitVec.toNat = v.toUInt64.toNat := rfl
    rw [BitVec.toInt_eq_toNat_bmod, Int.bmod_def] at hv ⊢
    split at hv <;> split <;> omega
  rw [generateId_lt_iff, UInt64.lt_iff_toNat_lt]
  have := hunsigned a ha
  have := hunsigned b (ha.trans h.le)
  omega

theorem toInt_succ {v : Int64} (h : v.toInt + 1 < 2 ^ 63) : (v + 1).toInt = v.toInt + 1 := by
  have := v.le_toInt
  rw [Int64.toInt_add, Int64.toInt_one, Int.bmod_def]
  split <;> omega

/-- The ids are those of the counters behind the last one. -/
theorem exists_of_mem_drawn {id : Text} : ∀ {n : ℕ} {lastId : Int64}, lastId.toInt + n < 2 ^ 63 →
    id ∈ drawn n lastId →
    ∃ v : Int64, id = generateId v ∧ lastId.toInt < v.toInt ∧ v.toInt ≤ lastId.toInt + n
  | 0, _, _, h => absurd h List.not_mem_nil
  | n + 1, lastId, hlt, h => by
    have hsucc : (lastId + 1).toInt = lastId.toInt + 1 := toInt_succ (by push_cast at hlt; omega)
    rcases List.mem_cons.mp h with rfl | h
    · exact ⟨lastId + 1, rfl, by omega, by push_cast; omega⟩
    · obtain ⟨v, rfl, hlow, hhigh⟩ := exists_of_mem_drawn (by
        push_cast at hlt
        rw [getNextId, hsucc]
        omega) h
      rw [getNextId, hsucc] at hlow hhigh
      exact ⟨v, rfl, by omega, by push_cast; omega⟩

/-- The ids of one start. -/
theorem drawn_pairwise : ∀ {n : ℕ} {lastId : Int64}, 0 ≤ lastId.toInt →
    lastId.toInt + n < 2 ^ 63 → (drawn n lastId).Pairwise (· < ·)
  | 0, _, _, _ => .nil
  | n + 1, lastId, hpos, hlt => by
    push_cast at hlt
    have hsucc : (lastId + 1).toInt = lastId.toInt + 1 := toInt_succ (by omega)
    refine List.pairwise_cons.mpr ⟨fun id hid => ?_, drawn_pairwise ?_ ?_⟩
    · obtain ⟨v, rfl, hlow, -⟩ := exists_of_mem_drawn (by rw [getNextId, hsucc]; omega) hid
      exact generateId_lt_of_lt (by omega) hlow
    · rw [getNextId, hsucc]
      omega
    · rw [getNextId, hsucc]
      omega

/-- **Ids sort in the order they were drawn**, over all starts of the pool, if no start draws more
of them than ticks go by until the next one. -/
theorem drawn_sorted {starts : List (Int64 × ℕ)}
    (hstarts : ∀ s ∈ starts, 0 ≤ s.1.toInt ∧ s.1.toInt + (s.2 : ℤ) < 2 ^ 63)
    (hlater : starts.Pairwise fun s t => s.1.toInt + (s.2 : ℤ) ≤ t.1.toInt) :
    (starts.flatMap fun s => drawn s.2 s.1).Pairwise (· < ·) := by
  refine List.pairwise_flatMap.mpr
    ⟨fun s hs => drawn_pairwise (hstarts s hs).1 (hstarts s hs).2, ?_⟩
  refine hlater.imp_of_mem fun {s t} hs ht hst x hx y hy => ?_
  obtain ⟨v, rfl, hlow, hhigh⟩ := exists_of_mem_drawn (hstarts s hs).2 hx
  obtain ⟨w, rfl, hlow', -⟩ := exists_of_mem_drawn (hstarts t ht).2 hy
  have := (hstarts s hs).1
  exact generateId_lt_of_lt (by omega) (by omega)

/-- A start and another one a second later. -/
theorem drawn_sorted_two :
    (([(0, 3), (10000000, 2)] : List (Int64 × ℕ)).flatMap fun s => drawn s.2 s.1).Pairwise
      (· < ·) :=
  drawn_sorted (by decide) (by decide)

end AionPool.Util.CorrelationIdGenerator
