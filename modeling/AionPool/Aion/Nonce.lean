import AionPool.Aion.Utils
import AionPool.Daemon

/-!
# The nonces of consecutive payouts

`getLatestNonce` numbers the transactions of an `AionPayoutHandler` from two fields and from the
transaction count the daemon reports. The report adopted last may be followed by one nonce that is
counted on from it; after that a report is adopted again unless it is the nonce returned last.

* `Names` says which count a report names, `Current` which sequences of counts keep the handler in
  step.
* `getLatestNonce_spec`: what one call returns, on the numbers the texts name.
* **`nonces_inOrder_iff`**: the nonces are those the account needs exactly when the account is not
  new, they fit 32 bits, and no report lags by two transactions or more where the handler would
  adopt it.

Models `AionPayoutHandler.cs:79-80` and `:390-401`.
-/

namespace AionPool.Aion

open AionPool.Extensions AionPool.Daemon

/-! ## The handler -/

/-- The fields `latestNonce` and `usedLatestNonce` of `AionPayoutHandler`. -/
structure NonceState where
  latestNonce : Int32
  usedLatestNonce : Bool

/-- The fields of a new handler. -/
def NonceState.init : NonceState := ⟨0, false⟩

/-- `getLatestNonce`. -/
def getLatestNonce (s : NonceState) (latest : DaemonResponse Text) :
    Except Exn (Text × NonceState) :=
  match latest.response with
  | none => throw .nullReference
  | some response => do
    let count ← fromHex response
    let s := if count = s.latestNonce ∨ s.usedLatestNonce then
        NonceState.mk (s.latestNonce + 1) false
      else NonceState.mk count true
    return (appendHexStart (hexNumber s.latestNonce.toUInt32.toNat), s)

/-- The nonces of consecutive payouts, one for each report. A call that throws leaves the fields
as they are. -/
def getLatestNonces : NonceState → List (DaemonResponse Text) → List (Except Exn Text)
  | _, [] => []
  | s, latest :: reports =>
    match getLatestNonce s latest with
    | .ok (nonce, s') => .ok nonce :: getLatestNonces s' reports
    | .error e => .error e :: getLatestNonces s reports

/-- The number of a nonce that was returned. -/
def nonceOf? : Except Exn Text → Option ℕ
  | .ok nonce => number? nonce
  | .error _ => none

/-! ## Reports -/

/-- A report names a transaction count. -/
def Names (latest : DaemonResponse Text) (count : ℕ) : Prop :=
  ∃ response, latest.response = some response ∧ number? response = some count

/-- The nonces are `n`, `n + 1` and so on: none is used again and none is left out. -/
def InOrder (n : ℕ) (nonces : List (Except Exn Text)) : Prop :=
  (nonces.map nonceOf?).Nodup ∧ nonces.map nonceOf? = (List.range' n nonces.length).map some

/-- When the handler stays in step: `next` is the nonce that is due, and `streak` counts the reports
just before that were up to date, which is to say that they counted every transaction sent. After an
even number of them a report must not lag by two. -/
def Current (next streak : ℕ) : List ℕ → Prop
  | [] => True
  | count :: counts => (streak % 2 = 1 ∨ next ≤ count + 1) ∧
      Current (next + 1) (if count = next then streak + 1 else 0) counts

/-! ## One call -/

/-- The nonce last returned, as a number. -/
def NonceState.number (s : NonceState) : ℕ := s.latestNonce.toUInt32.toNat

theorem number_lt (s : NonceState) : s.number < 2 ^ 32 := UInt32.toNat_lt _

theorem number_add_one (x : Int32) : (x + 1).toUInt32.toNat = (x.toUInt32.toNat + 1) % 2 ^ 32 := by
  rw [Int32.toUInt32_add, UInt32.toNat_add]
  rfl

/-- A count that fits 32 bits: the nonce is counted on when the report is the nonce returned last or
when that one was adopted, else the report is adopted. -/
theorem getLatestNonce_spec {s : NonceState} {latest : DaemonResponse Text} {count : ℕ}
    (h : Names latest count) (hlt : count < 2 ^ 32) :
    ∃ nonce s', getLatestNonce s latest = .ok (nonce, s') ∧ number? nonce = some s'.number ∧
      (s'.number, s'.usedLatestNonce) = if count = s.number ∨ s.usedLatestNonce then
        ((s.number + 1) % 2 ^ 32, false) else (count, true) := by
  obtain ⟨response, hresponse, hnumber⟩ := h
  have hcount : ((UInt32.ofNat count).toInt32 = s.latestNonce) ↔ count = s.number := by
    unfold NonceState.number
    constructor
    · intro hx
      rw [← hx, UInt32.toUInt32_toInt32, UInt32.toNat_ofNat_of_lt' hlt]
    · intro hx
      rw [hx, UInt32.ofNat_toNat, Int32.toInt32_toUInt32]
  unfold getLatestNonce
  rw [hresponse]
  dsimp only
  rw [fromHex_of_number hnumber, if_pos hlt]
  refine ⟨_, _, rfl, number_appendHexStart _, ?_⟩
  have hbranch := or_congr_left (c := s.usedLatestNonce = true) hcount
  by_cases hb : count = s.number ∨ s.usedLatestNonce = true
  · rw [if_pos (hbranch.mpr hb), if_pos hb]
    exact Prod.ext (number_add_one _) rfl
  · rw [if_neg (hbranch.not.mpr hb), if_neg hb]
    refine Prod.ext ?_ rfl
    unfold NonceState.number
    rw [UInt32.toUInt32_toInt32, UInt32.toNat_ofNat_of_lt' hlt]

/-- A count that does not fit 32 bits. -/
theorem getLatestNonce_of_large {s : NonceState} {latest : DaemonResponse Text} {count : ℕ}
    (h : Names latest count) (hlt : ¬ count < 2 ^ 32) :
    ∃ e, getLatestNonce s latest = .error e := by
  obtain ⟨response, hresponse, hnumber⟩ := h
  unfold getLatestNonce
  rw [hresponse]
  dsimp only
  rw [fromHex_of_number hnumber, if_neg hlt]
  exact ⟨_, rfl⟩

/-! ## Consecutive calls -/

theorem map_nonceOf_cons_of_ok {s s' : NonceState} {latest : DaemonResponse Text}
    {nonce : Text} (h : getLatestNonce s latest = .ok (nonce, s'))
    (latests : List (DaemonResponse Text)) :
    (getLatestNonces s (latest :: latests)).map nonceOf? =
      number? nonce :: (getLatestNonces s' latests).map nonceOf? := by
  rw [getLatestNonces, h]
  rfl

theorem map_nonceOf_cons_of_error {s : NonceState} {latest : DaemonResponse Text}
    {e : Exn} (h : getLatestNonce s latest = .error e) (latests : List (DaemonResponse Text)) :
    (getLatestNonces s (latest :: latests)).map nonceOf? =
      none :: (getLatestNonces s latests).map nonceOf? := by
  rw [getLatestNonces, h]
  rfl

theorem length_getLatestNonces (s : NonceState) (latests : List (DaemonResponse Text)) :
    (getLatestNonces s latests).length = latests.length := by
  induction latests generalizing s with
  | nil => rfl
  | cons latest latests ih =>
    unfold getLatestNonces
    split
    · rw [List.length_cons, List.length_cons, ih]
    · rw [List.length_cons, List.length_cons, ih]

/-- The fields after the nonce `next - 1` and `streak` reports up to date: a report was adopted last
after an odd number of them. -/
def NonceState.At (s : NonceState) (next streak : ℕ) : Prop :=
  s.number + 1 = next ∧ (s.usedLatestNonce = true ↔ streak % 2 = 1)

/-- The nonce that is due is returned when the report keeps the handler in step. -/
theorem getLatestNonce_due {s : NonceState} {next streak count : ℕ} (hs : s.At next streak)
    {latest : DaemonResponse Text} (hname : Names latest count) (hle : count ≤ next)
    (hfit : next < 2 ^ 32) (hcur : streak % 2 = 1 ∨ next ≤ count + 1) :
    ∃ nonce s', getLatestNonce s latest = .ok (nonce, s') ∧ number? nonce = some next ∧
      s'.At (next + 1) (if count = next then streak + 1 else 0) := by
  obtain ⟨hnext, hused⟩ := hs
  obtain ⟨nonce, s', hok, hnonce, hs'⟩ :=
    getLatestNonce_spec (s := s) hname (hle.trans_lt hfit)
  unfold NonceState.At
  by_cases hb : count = s.number ∨ s.usedLatestNonce = true
  · -- it is counted on
    rw [if_pos hb, Prod.mk.injEq] at hs'
    have hn : s'.number = next := by rw [hs'.1, hnext, Nat.mod_eq_of_lt hfit]
    refine ⟨nonce, s', hok, by rw [hnonce, hn], by rw [hn], ?_⟩
    rw [hs'.2]
    refine iff_of_false (by simp) ?_
    split
    · rcases hb with hb | hb
      · omega
      · have := hused.mp hb
        omega
    · omega
  · -- the report is adopted, which is up to date
    rw [if_neg hb, Prod.mk.injEq] at hs'
    obtain ⟨hne, hunused⟩ := not_or.mp hb
    have heven : ¬ streak % 2 = 1 := hused.not.mp hunused
    have hcount : count = next := by
      have := hcur.resolve_left heven
      omega
    have hn : s'.number = next := hs'.1.trans hcount
    refine ⟨nonce, s', hok, by rw [hnonce, hn], by rw [hn], ?_⟩
    rw [hs'.2, if_pos hcount]
    exact iff_of_true rfl (by omega)

/-- It is not returned when the report lags by two where it is adopted, or when it does not fit. -/
theorem getLatestNonce_not_due {s : NonceState} {next streak count : ℕ} (hs : s.At next streak)
    {latest : DaemonResponse Text} (hname : Names latest count)
    (hcur : ¬ (next < 2 ^ 32 ∧ (streak % 2 = 1 ∨ next ≤ count + 1))) {nonce : Text}
    {s' : NonceState} (hok : getLatestNonce s latest = .ok (nonce, s')) :
    number? nonce ≠ some next := by
  obtain ⟨hnext, hused⟩ := hs
  have hnumber := number_lt s'
  by_cases hlt : count < 2 ^ 32
  · obtain ⟨nonce', t, hok', hnonce, hs'⟩ := getLatestNonce_spec (s := s) hname hlt
    obtain ⟨rfl, rfl⟩ := Prod.mk.inj (Except.ok.inj (hok.symm.trans hok'))
    rw [hnonce]
    intro hdue
    have hn : s'.number = next := Option.some.inj hdue
    split at hs'
    · rename_i hb
      refine hcur ⟨by omega, ?_⟩
      rcases hb with hb | hb
      · exact Or.inr (by omega)
      · exact Or.inl (hused.mp hb)
    · obtain ⟨hc, -⟩ := Prod.mk.inj hs'
      exact hcur ⟨by omega, Or.inr (by omega)⟩
  · obtain ⟨e, he⟩ := getLatestNonce_of_large (s := s) hname hlt
    exact absurd (hok.symm.trans he) (by simp)

/-- The nonces that follow are those that are due exactly when the reports keep the handler in
step. -/
theorem map_nonceOf_eq_iff {latests : List (DaemonResponse Text)} {counts : List ℕ}
    (hnames : List.Forall₂ Names latests counts) :
    ∀ {s : NonceState} {next streak : ℕ}, s.At next streak →
      (∀ i c, counts[i]? = some c → c ≤ next + i) →
      ((getLatestNonces s latests).map nonceOf? = (List.range' next counts.length).map some ↔
        next + counts.length ≤ 2 ^ 32 ∧ Current next streak counts) := by
  induction hnames with
  | nil =>
    intro s next streak hs _
    have := number_lt s
    refine ⟨fun _ => ⟨?_, trivial⟩, fun _ => rfl⟩
    rw [List.length_nil, ← hs.1]
    omega
  | @cons latest count latests counts hname _ ih =>
    intro s next streak hs hle
    have hhead : count ≤ next := hle 0 count rfl
    have htail : ∀ i c, counts[i]? = some c → c ≤ next + 1 + i := fun i c hc => by
      have := hle (i + 1) c hc
      omega
    rw [List.length_cons, List.range'_succ, List.map_cons, Current]
    by_cases hcur : next < 2 ^ 32 ∧ (streak % 2 = 1 ∨ next ≤ count + 1)
    · obtain ⟨nonce, s', hok, hnonce, hs'⟩ := getLatestNonce_due hs hname hhead hcur.1 hcur.2
      rw [map_nonceOf_cons_of_ok hok, hnonce, List.cons.injEq, ih hs' htail]
      constructor
      · rintro ⟨-, hlen, hrest⟩
        exact ⟨by omega, hcur.2, hrest⟩
      · rintro ⟨hlen, -, hrest⟩
        exact ⟨rfl, by omega, hrest⟩
    · refine iff_of_false (fun h => ?_) fun h => hcur ⟨by omega, h.2.1⟩
      cases hcall : getLatestNonce s latest with
      | ok r =>
        rw [map_nonceOf_cons_of_ok hcall] at h
        exact getLatestNonce_not_due hs hname hcur hcall (List.cons.inj h).1
      | error e =>
        rw [map_nonceOf_cons_of_error hcall] at h
        exact absurd (List.cons.inj h).1 (by simp)

theorem inOrder_iff {n : ℕ} {nonces : List (Except Exn Text)} :
    InOrder n nonces ↔ nonces.map nonceOf? = (List.range' n nonces.length).map some := by
  refine ⟨And.right, fun h => ⟨?_, h⟩⟩
  rw [h]
  exact List.Nodup.map (Option.some_injective ℕ) List.nodup_range'

/-- **The nonces of consecutive payouts are those the account needs**, for an account with `n`
transactions, exactly when `n` is not zero, the nonces fit 32 bits and the reports keep the handler
in step. -/
theorem nonces_inOrder_iff {n : ℕ} {latests : List (DaemonResponse Text)} {counts : List ℕ}
    (hnames : List.Forall₂ Names latests counts)
    (hrange : ∀ i c, counts[i]? = some c → n ≤ c ∧ c ≤ n + i) :
    InOrder n (getLatestNonces NonceState.init latests) ↔
      counts = [] ∨ (n ≠ 0 ∧ n + counts.length ≤ 2 ^ 32 ∧ Current n 0 counts) := by
  rw [inOrder_iff, length_getLatestNonces, hnames.length_eq]
  cases hnames with
  | nil => exact iff_of_true rfl (Or.inl rfl)
  | @cons latest count latests counts hname hnames =>
    obtain ⟨hge, hle⟩ := hrange 0 count rfl
    obtain rfl : count = n := le_antisymm hle hge
    have htail : ∀ i c, counts[i]? = some c → c ≤ count + 1 + i := fun i c hc => by
      have := (hrange (i + 1) c hc).2
      omega
    rw [List.length_cons, List.range'_succ, List.map_cons, or_iff_right (List.cons_ne_nil _ _)]
    by_cases hlt : count < 2 ^ 32
    · obtain ⟨nonce, s', hok, hnonce, hs'⟩ :=
        getLatestNonce_spec (s := NonceState.init) hname hlt
      rw [map_nonceOf_cons_of_ok hok, hnonce, List.cons.injEq, Option.some.injEq]
      rw [show NonceState.init.number = 0 from rfl] at hs'
      by_cases hzero : count = 0
      · -- the report is the nonce a new handler holds
        rw [if_pos (Or.inl hzero), Prod.mk.injEq] at hs'
        refine iff_of_false ?_ fun h => h.1 hzero
        rintro ⟨he, -⟩
        rw [hs'.1, hzero] at he
        exact absurd he (by decide)
      · rw [if_neg (by rintro (h | h); exacts [hzero h, absurd h (by decide)]),
          Prod.mk.injEq] at hs'
        have hat : s'.At (count + 1) 1 := by
          refine ⟨by rw [hs'.1], ?_⟩
          rw [hs'.2]
          exact iff_of_true rfl rfl
        rw [map_nonceOf_eq_iff hnames hat htail, Current, if_pos rfl]
        constructor
        · rintro ⟨-, hlen, hcur⟩
          exact ⟨hzero, by omega, Or.inr (by omega), hcur⟩
        · rintro ⟨-, hlen, -, hcur⟩
          exact ⟨hs'.1, by omega, hcur⟩
    · obtain ⟨e, he⟩ := getLatestNonce_of_large (s := NonceState.init) hname hlt
      rw [map_nonceOf_cons_of_error he]
      refine iff_of_false ?_ ?_
      · intro h
        exact absurd (List.cons.inj h).1 (by simp)
      · rintro ⟨-, hlen, -⟩
        omega

/-- A report of `count` transactions. -/
def report (count : ℕ) : DaemonResponse Text := ⟨some (ascii "0x" ++ hexNumber count), none⟩

theorem names_report (count : ℕ) : Names (report count) count := by
  refine ⟨_, rfl, ?_⟩
  unfold number?
  rw [show skip0x (ascii "0x" ++ hexNumber count) = hexNumber count from if_pos rfl]
  exact parseHex_hexNumber count

theorem names_reports (counts : List ℕ) : List.Forall₂ Names (counts.map report) counts := by
  rw [List.forall₂_map_left_iff]
  exact List.forall₂_same.mpr fun count _ => names_report count

theorem nonces_inOrder_lagging :
    InOrder 5 (getLatestNonces NonceState.init ([5, 5, 6, 7].map report)) := by
  refine (nonces_inOrder_iff (names_reports [5, 5, 6, 7]) ?_).mpr
    (Or.inr ⟨by decide, by decide, by simp [Current]⟩)
  intro i c hc
  have hi : i < 4 := (List.getElem?_eq_some_iff.mp hc).1
  interval_cases i
  all_goals
    obtain rfl := Option.some.inj hc
    decide

/-- Three payouts of an account with five transactions, none of which the daemon counts in time:
the nonce of the first is given to the third. -/
theorem nonce_given_twice :
    ∃ (latests : List (DaemonResponse Text)) (counts : List ℕ), List.Forall₂ Names latests counts ∧
      (∀ i c, counts[i]? = some c → 5 ≤ c ∧ c ≤ 5 + i) ∧ counts.Pairwise (· ≤ ·) ∧
      (getLatestNonces NonceState.init latests).map nonceOf? = [some 5, some 6, some 5] ∧
      ¬ InOrder 5 (getLatestNonces NonceState.init latests) := by
  have h : (getLatestNonces NonceState.init ([5, 5, 5].map report)).map nonceOf? =
      [some 5, some 6, some 5] := by
    decide +kernel
  refine ⟨[5, 5, 5].map report, [5, 5, 5], names_reports _, ?_, by decide, h, fun hin => ?_⟩
  · intro i c hc
    have hi : i < 3 := (List.getElem?_eq_some_iff.mp hc).1
    interval_cases i
    all_goals
      obtain rfl := Option.some.inj hc
      decide
  · have hnodup := hin.1
    rw [h] at hnodup
    exact absurd hnodup (by decide)

end AionPool.Aion
