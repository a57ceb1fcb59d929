import AionPool.Aion.Payout

/-!
# When a balance is paid twice

A balance is debited in the transaction that follows the transfer, so a transfer whose transaction
never commits leaves the balance to be selected again.

* `Guard` excludes the steps that forget a transfer: an executed request without a transaction
  hash in its reply, giving up on the record of a transfer, and a restart before it is recorded.
* `Inv` is the ledger: what is left of a balance and what was transferred is covered by what was
  credited, up to the one transfer that is being recorded.
* **`transferred_le_credited`**: along guarded runs no address is transferred more than it was
  credited.

About `AionPayoutHandler.cs:212-256`, `:309-341` and `PayoutHandlerBase.cs:131-174`.
-/

namespace AionPool.Aion.Payout

open AionPool.Configuration AionPool.Persistence AionPool.Daemon
open AionPool.Lib.Run AionPool.Lib.FixedPoint
open BalanceRepository

/-- The outcome of a request is known, and what was sent is not a negative balance. -/
def Acknowledged (phase : Phase) : SendOutcome → Prop
  | .sent true reply => (txHashOf reply).isSome = true ∧
      match phase with
      | .payouts _ (balance :: _) => 0 ≤ balance.amount.units
      | _ => True
  | _ => True

instance (phase : Phase) : ∀ outcome, Decidable (Acknowledged phase outcome)
  | .sent true reply =>
    match phase with
    | .payouts _ (balance :: _) =>
      inferInstanceAs (Decidable ((txHashOf reply).isSome = true ∧ 0 ≤ balance.amount.units))
    | .payouts _ [] | .idle | .persisting _ _ _ =>
      inferInstanceAs (Decidable ((txHashOf reply).isSome = true ∧ True))
  | .sent false _ | .notSent => isTrue trivial

/-- A transfer that is not recorded is still being recorded afterwards. -/
def KeepsRecording (phase : Phase) (outcome : TxOutcome) (retried : Bool) : Prop :=
  match phase, outcome with
  | .persisting _ sent _, .rolledBack =>
    sent.recorded = true ∨ (retried = true ∧ sent.retries < retryCount)
  | _, _ => True

instance (phase : Phase) (outcome : TxOutcome) (retried : Bool) :
    Decidable (KeepsRecording phase outcome retried) :=
  match phase, outcome with
  | .persisting _ sent _, .rolledBack => inferInstanceAs
      (Decidable (sent.recorded = true ∨ (retried = true ∧ sent.retries < retryCount)))
  | .idle, _ | .payouts _ _, _ | .persisting _ _ _, .committed | .persisting _ _ _, .ackLost =>
    isTrue trivial

/-- No transfer is being recorded. -/
def NothingPending (phase : Phase) : Prop :=
  match phase with
  | .persisting _ sent _ => sent.recorded = true
  | _ => True

instance (phase : Phase) : Decidable (NothingPending phase) :=
  match phase with
  | .persisting _ sent _ => inferInstanceAs (Decidable (sent.recorded = true))
  | .idle | .payouts _ _ => isTrue trivial

/-- What a step must not do: leave a transfer without a record. -/
def Guard (s : State) : Event → Prop
  | .payout _ outcome => Acknowledged s.phase outcome
  | .persist _ outcome retried => KeepsRecording s.phase outcome retried
  | .restart => NothingPending s.phase
  | _ => True

instance (s : State) : ∀ e, Decidable (Guard s e)
  | .payout _ outcome => inferInstanceAs (Decidable (Acknowledged s.phase outcome))
  | .persist _ outcome retried =>
    inferInstanceAs (Decidable (KeepsRecording s.phase outcome retried))
  | .restart => inferInstanceAs (Decidable (NothingPending s.phase))
  | .credit _ _ _ | .startPayout _ _ | .minerInfoFails | .endPayout => isTrue trivial

/-! ## The invariant -/

/-- What the record of a payment will take off the balance of an address. -/
def owed (pool : PoolConfig) (balance : Balance) (poolId address : String) : ℚ :=
  if (poolId, address) = (pool.id, balance.address) then max 0 balance.amount.value else 0

/-- What may have been transferred to an address without a record yet. -/
def pending (phase : Phase) (poolId address : String) : ℚ :=
  match phase with
  | .persisting pool sent _ => if sent.recorded then 0 else owed pool sent.balance poolId address
  | _ => 0

/-- The balances still to be paid. -/
def queueOf : Phase → Option (PoolConfig × List Balance)
  | .idle => none
  | .payouts pool queue => some (pool, queue)
  | .persisting pool _ queue => some (pool, queue)

/-- The balances of a queue have addresses of their own, each with its amount left to transfer. -/
def Payable (db : Database) (transfers : List Transfer) (poolId : String) (queue : List Balance) :
    Prop :=
  (queue.map Balance.address).Nodup ∧ ∀ b ∈ queue,
    transferred transfers poolId b.address + b.amount.value ≤ credited db poolId b.address

/-- What holds of every state reached by guarded steps. -/
structure Inv (s : State) : Prop where
  ledger : ∀ p a, balanceOf s.db p a + transferred s.transfers p a ≤
    credited s.db p a + pending s.phase p a
  covered : ∀ p a, transferred s.transfers p a ≤ credited s.db p a
  payable : ∀ pool queue, queueOf s.phase = some (pool, queue) →
    Payable s.db s.transfers pool.id queue

theorem inv_init : Inv State.init where
  ledger := fun _ _ => le_rfl
  covered := fun _ _ => le_rfl
  payable := fun _ _ h => absurd h (by simp [State.init, queueOf])

theorem owed_nonneg (pool : PoolConfig) (balance : Balance) (p a : String) :
    0 ≤ owed pool balance p a := by
  unfold owed
  split
  · exact le_max_left _ _
  · exact le_rfl

/-! ## Credits and debits -/

theorem credited_addAmountAsync (db : Database) (p a p' a' : String) (amount : ℚ) :
    credited (addAmountAsync db p a amount) p' a' = credited db p' a' +
      if (p', a') = (p, a) then max 0 (Fixed.store 12 amount).value else 0 := by
  unfold credited addAmountAsync
  simp only [List.filter_append, List.map_append, List.sum_append]
  congr 1
  by_cases h : (p', a') = (p, a)
  · obtain ⟨rfl, rfl⟩ := Prod.mk.inj h
    simp
  · rw [if_neg h, List.filter_cons_of_neg]
    · rfl
    · rintro hk
      obtain ⟨rfl, rfl⟩ := of_decide_eq_true hk
      exact h rfl

theorem credited_le_addAmountAsync (db : Database) (p a p' a' : String) (amount : ℚ) :
    credited db p' a' ≤ credited (addAmountAsync db p a amount) p' a' := by
  rw [credited_addAmountAsync]
  split
  · linarith [le_max_left 0 (Fixed.store 12 amount).value]
  · linarith

/-- No addition raises a balance by more than it credits. -/
theorem balanceOf_addAmountAsync_le (db : Database) (p a p' a' : String) (amount : ℚ) :
    balanceOf (addAmountAsync db p a amount) p' a' + credited db p' a' ≤
      balanceOf db p' a' + credited (addAmountAsync db p a amount) p' a' := by
  rw [balanceOf_addAmountAsync, credited_addAmountAsync]
  split
  · rename_i h
    obtain ⟨rfl, rfl⟩ := Prod.mk.inj h
    obtain ⟨f, hf⟩ := balanceOf_eq_value db p' a'
    rw [hf]
    rcases le_total 0 amount with hpos | hneg
    · have := Fixed.store_add_le f hpos
      linarith [le_max_right 0 (Fixed.store 12 amount).value]
    · have := Fixed.store_add_nonpos f hneg
      linarith [le_max_left 0 (Fixed.store 12 amount).value]
  · linarith

/-- The record of a payment takes what was sent off the balance, and a negative amount is put on it
as a credit. -/
theorem balanceOf_persistPaymentsAsync_le (pool : PoolConfig) (balance : Balance)
    (txHash : String) (now : DateTime) (db : Database) (p a : String) :
    balanceOf (persistPaymentsAsync pool balance txHash now db) p a + credited db p a +
        owed pool balance p a ≤
      balanceOf db p a + credited (persistPaymentsAsync pool balance txHash now db) p a := by
  have hdebit : ∀ db' : Database, db'.balances = db.balances →
      db'.balanceChanges = db.balanceChanges →
      balanceOf (addAmountAsync db' pool.id balance.address (-balance.amount.value)) p a +
          credited db p a + owed pool balance p a ≤ balanceOf db p a +
        credited (addAmountAsync db' pool.id balance.address (-balance.amount.value)) p a := by
    intro db' hbalances hchanges
    have hcr : credited db' p a = credited db p a := by
      unfold credited
      rw [hchanges]
    have hbal : balanceOf db' p a = balanceOf db p a := by
      unfold balanceOf
      rw [hbalances]
    rw [credited_addAmountAsync, balanceOf_addAmountAsync, hcr, Fixed.store_neg_value]
    unfold owed
    split
    · rename_i h
      obtain ⟨rfl, rfl⟩ := Prod.mk.inj h
      obtain ⟨f, hf⟩ := balanceOf_eq_value db pool.id balance.address
      rw [hbal, hf, Fixed.store_sub_value]
      rcases le_total 0 balance.amount.value with hpos | hneg
      · rw [max_eq_right hpos, max_eq_left (by linarith)]
        linarith
      · rw [max_eq_left hneg, max_eq_right (by linarith)]
        linarith
    · linarith [hbal]
  unfold persistPaymentsAsync
  dsimp only
  split
  · exact hdebit _ rfl rfl
  · exact hdebit db rfl rfl

theorem credited_le_persistPaymentsAsync (pool : PoolConfig) (balance : Balance)
    (txHash : String) (now : DateTime) (db : Database) (p a : String) :
    credited db p a ≤ credited (persistPaymentsAsync pool balance txHash now db) p a := by
  unfold persistPaymentsAsync
  dsimp only
  split
  · exact credited_le_addAmountAsync (PaymentRepository.insertAsync db _) _ _ _ _ _
  · exact credited_le_addAmountAsync db _ _ _ _ _

/-! ## Transfers -/

theorem transferred_append (ts us : List Transfer) (p a : String) :
    transferred (ts ++ us) p a = transferred ts p a + transferred us p a := by
  unfold transferred
  rw [List.filter_append, List.map_append, List.sum_append]

/-- A balance that is not negative is sent exactly. -/
theorem sentValue_eq {balance : Balance} (h : 0 ≤ balance.amount.units) :
    (sentValue balance : ℚ) / Wei = balance.amount.value := by
  have hwei : balance.amount.value * Wei = ((balance.amount.units * 10 ^ 6 : ℤ) : ℚ) := by
    unfold Fixed.value Wei
    push_cast
    ring
  unfold sentValue readHex
  rw [hwei, Int.floor_intCast, if_pos (by positivity)]
  have hcast : (((balance.amount.units * 10 ^ 6).toNat : ℕ) : ℚ) =
      ((balance.amount.units * 10 ^ 6 : ℤ) : ℚ) := by
    have : 0 ≤ balance.amount.units * 10 ^ 6 := by positivity
    exact_mod_cast Int.toNat_of_nonneg this
  rw [hcast, ← hwei, mul_div_assoc, div_self (by norm_num [Wei]), mul_one]

theorem transferred_singleton {balance : Balance} (h : 0 ≤ balance.amount.units)
    (poolId p a : String) :
    transferred [⟨poolId, balance.address, sentValue balance⟩] p a =
      if (p, a) = (poolId, balance.address) then balance.amount.value else 0 := by
  unfold transferred
  split
  · rename_i hk
    obtain ⟨rfl, rfl⟩ := Prod.mk.inj hk
    simp [sentValue_eq h]
  · rename_i hk
    rw [List.filter_cons_of_neg]
    · rfl
    · rintro hk'
      obtain ⟨rfl, rfl⟩ := of_decide_eq_true hk'
      exact hk rfl

/-! ## One step -/

/-- A payable queue stays payable when more is credited and nothing of it transferred. -/
theorem Payable.mono {db db' : Database} {ts ts' : List Transfer} {p : String} {q : List Balance}
    (h : Payable db ts p q) (hcr : ∀ a, credited db p a ≤ credited db' p a)
    (ht : ∀ b ∈ q, transferred ts' p b.address = transferred ts p b.address) :
    Payable db' ts' p q := by
  refine ⟨h.1, fun b hb => ?_⟩
  rw [ht b hb]
  exact (h.2 b hb).trans (hcr b.address)

theorem Payable.tail {db : Database} {ts : List Transfer} {p : String} {b : Balance}
    {q : List Balance} (h : Payable db ts p (b :: q)) : Payable db ts p q :=
  ⟨(List.nodup_cons.mp h.1).2, fun c hc => h.2 c (List.mem_cons_of_mem b hc)⟩

variable {s : State}

theorem Inv.credit (hI : Inv s) (p a : String) (amount : ℚ) :
    Inv { s with db := addAmountAsync s.db p a amount } where
  ledger := fun p' a' => by
    have h₁ := hI.ledger p' a'
    have h₂ := balanceOf_addAmountAsync_le s.db p a p' a' amount
    dsimp only
    linarith
  covered := fun p' a' => (hI.covered p' a').trans (credited_le_addAmountAsync _ _ _ _ _ _)
  payable := fun pool queue h => (hI.payable pool queue h).mono
    (fun _ => credited_le_addAmountAsync _ _ _ _ _ _) fun _ _ => rfl

/-- The thread moves on without an effect on the tables or on the chain: what was pending still is,
and what is left to be paid was left before. -/
theorem Inv.moveOn (hI : Inv s) {phase : Phase}
    (hpending : ∀ p a, pending s.phase p a ≤ pending phase p a)
    (hqueue : ∀ pool queue, queueOf phase = some (pool, queue) →
      Payable s.db s.transfers pool.id queue) : Inv { s with phase } where
  ledger := fun p a => (hI.ledger p a).trans (by
    have := hpending p a
    dsimp only
    linarith)
  covered := hI.covered
  payable := hqueue

/-- It moves on to a queue that is payable, -/
theorem Inv.moveTo (hI : Inv s) {phase : Phase} {pool : PoolConfig} {queue : List Balance}
    (hqueue : queueOf phase = some (pool, queue))
    (hpending : ∀ p a, pending s.phase p a ≤ pending phase p a)
    (hpay : Payable s.db s.transfers pool.id queue) : Inv { s with phase } :=
  hI.moveOn hpending fun pool' queue' h => by
    obtain ⟨rfl, rfl⟩ := Prod.mk.inj (Option.some.inj (hqueue.symm.trans h))
    exact hpay

/-- or to the end of the payout. -/
theorem Inv.toIdle (hI : Inv s) (hpending : ∀ p a, pending s.phase p a = 0) :
    Inv { s with phase := .idle } :=
  hI.moveOn (fun p a => (hpending p a).le) fun _ _ h => absurd h (by simp [queueOf])

/-- The balances selected while nothing is pending are payable. -/
theorem Inv.selected (hI : Inv s) (hpending : ∀ p a, pending s.phase p a = 0) (poolId : String)
    (minimum : ℚ) : Payable s.db s.transfers poolId
      (getPoolBalancesOverThresholdAsync s.db poolId minimum) := by
  refine ⟨nodup_getPoolBalancesOverThresholdAsync _ _ _, fun b hb => ?_⟩
  obtain ⟨-, -, hbal⟩ := mem_getPoolBalancesOverThresholdAsync hb
  have h := hI.ledger poolId b.address
  rw [hpending, hbal] at h
  linarith

/-- An executed request whose reply has a hash. -/
theorem Inv.sent (hI : Inv s) {pool : PoolConfig} {balance : Balance} {queue : List Balance}
    (hphase : s.phase = .payouts pool (balance :: queue)) (hb : 0 ≤ balance.amount.units)
    (txHash : String) :
    Inv ⟨s.db, .persisting pool ⟨balance, txHash, 0, false⟩ queue,
      s.transfers ++ [⟨pool.id, balance.address, sentValue balance⟩]⟩ := by
  have hpay := hI.payable pool (balance :: queue) (by rw [hphase]; rfl)
  have hsum : ∀ p a,
      transferred (s.transfers ++ [⟨pool.id, balance.address, sentValue balance⟩]) p a =
        transferred s.transfers p a +
        if (p, a) = (pool.id, balance.address) then balance.amount.value else 0 := fun p a => by
    rw [transferred_append, transferred_singleton hb]
  refine ⟨fun p a => ?_, fun p a => ?_, fun pool' queue' h => ?_⟩
  · have h := hI.ledger p a
    rw [hphase] at h
    dsimp only [pending] at h ⊢
    rw [hsum, if_neg Bool.false_ne_true]
    unfold owed
    split
    · linarith [le_max_right 0 balance.amount.value]
    · linarith
  · dsimp only
    rw [hsum]
    split
    · rename_i hk
      obtain ⟨rfl, rfl⟩ := Prod.mk.inj hk
      exact hpay.2 balance List.mem_cons_self
    · rw [add_zero]
      exact hI.covered p a
  · obtain ⟨rfl, rfl⟩ := Prod.mk.inj (Option.some.inj h)
    refine hpay.tail.mono (fun _ => le_rfl) fun b hbq => ?_
    have hne : b.address ≠ balance.address := fun he =>
      (List.nodup_cons.mp hpay.1).1 (he ▸ List.mem_map_of_mem hbq)
    rw [hsum, if_neg (by simp [hne]), add_zero]

/-- A transaction that records a transfer commits. -/
theorem Inv.recorded (hI : Inv s) {pool : PoolConfig} {sent : Sent} {queue : List Balance}
    (hphase : s.phase = .persisting pool sent queue) (now : DateTime) {phase : Phase}
    (hpending : ∀ p a, pending phase p a = 0)
    (hqueue : queueOf phase = some (pool, queue)) :
    Inv { s with db := persistPaymentsAsync pool sent.balance sent.txHash now s.db, phase } where
  ledger := fun p a => by
    have h := hI.ledger p a
    have h' := balanceOf_persistPaymentsAsync_le pool sent.balance sent.txHash now s.db p a
    have howed := owed_nonneg pool sent.balance p a
    rw [hphase] at h
    dsimp only [pending] at h
    dsimp only
    rw [hpending]
    split at h
    · linarith
    · linarith
  covered := fun p a => (hI.covered p a).trans (credited_le_persistPaymentsAsync _ _ _ _ _ _ _)
  payable := fun pool' queue' h => by
    obtain ⟨rfl, rfl⟩ := Prod.mk.inj (Option.some.inj (hqueue.symm.trans h))
    exact (hI.payable pool queue (by rw [hphase]; rfl)).mono
      (fun _ => credited_le_persistPaymentsAsync _ _ _ _ _ _ _) fun _ _ => rfl

/-- A request is answered, executed or not. -/
theorem Inv.answered (hI : Inv s) {pool : PoolConfig} {balance : Balance} {queue : List Balance}
    (hphase : s.phase = .payouts pool (balance :: queue)) (reply : DaemonResponse String) :
    Inv { s with phase := afterSend pool balance queue reply } := by
  have hpay := (hI.payable pool (balance :: queue) (by rw [hphase]; rfl)).tail
  unfold afterSend
  split
  · refine hI.moveTo rfl (fun p a => ?_) hpay
    rw [hphase]
    exact le_rfl
  · refine hI.moveTo rfl (fun p a => ?_) hpay
    rw [hphase]
    exact owed_nonneg pool balance p a

/-- An attempt to record a transfer ends. -/
theorem Inv.attempted (hI : Inv s) {pool : PoolConfig} {sent : Sent} {queue : List Balance}
    (hphase : s.phase = .persisting pool sent queue) (retried : Bool)
    (h : sent.recorded = true ∨ (retried = true ∧ sent.retries < retryCount)) :
    Inv { s with phase := afterFailure pool sent queue retried } := by
  have hpay := hI.payable pool queue (by rw [hphase]; rfl)
  unfold afterFailure
  split
  · refine hI.moveTo rfl (fun p a => ?_) hpay
    rw [hphase]
    exact le_rfl
  · rename_i hgive
    have hrec : sent.recorded = true := h.resolve_right hgive
    refine hI.moveTo rfl (fun p a => ?_) hpay
    rw [hphase]
    dsimp only [pending]
    rw [if_pos hrec]

theorem queueOf_afterFailure (pool : PoolConfig) (sent : Sent) (queue : List Balance)
    (retried : Bool) : queueOf (afterFailure pool sent queue retried) = some (pool, queue) := by
  unfold afterFailure
  split
  · rfl
  · rfl

theorem pending_afterFailure {pool : PoolConfig} {sent : Sent} {queue : List Balance}
    (retried : Bool) (h : sent.recorded = true) (p a : String) :
    pending (afterFailure pool sent queue retried) p a = 0 := by
  unfold afterFailure
  split
  · dsimp only [pending]
    rw [if_pos h]
  · rfl

theorem pending_of_nothingPending {phase : Phase} (h : NothingPending phase) (p a : String) :
    pending phase p a = 0 := by
  unfold pending
  split
  · exact if_pos h
  · rfl

/-- The next balance of a payout is paid or passed over. -/
theorem Inv.payout (hI : Inv s) {pool : PoolConfig} {balance : Balance} {queue : List Balance}
    (hphase : s.phase = .payouts pool (balance :: queue)) {minimumPayment : Option ℚ}
    {outcome : SendOutcome} {s' : State} (hG : Acknowledged s.phase outcome)
    (h : step s (.payout minimumPayment outcome) = some s') : Inv s' := by
  obtain ⟨db, phase, transfers⟩ := s
  subst hphase
  have hpassed : Inv ⟨db, .payouts pool queue, transfers⟩ :=
    hI.moveTo rfl (fun _ _ => le_rfl) (hI.payable pool (balance :: queue) rfl).tail
  unfold step at h
  dsimp only at h
  split at h
  · obtain rfl := Option.some.inj h
    exact hpassed
  · cases outcome with
    | notSent =>
      obtain rfl := Option.some.inj h
      exact hpassed
    | sent executed reply =>
      obtain rfl := Option.some.inj h
      cases executed with
      | false => exact hI.answered rfl reply
      | true =>
        obtain ⟨hhash, hb⟩ := hG
        obtain ⟨txHash, hhash⟩ := Option.isSome_iff_exists.mp hhash
        have hsent := hI.sent rfl hb txHash
        rw [if_pos rfl]
        unfold afterSend
        rw [hhash]
        exact hsent

/-- A guarded step keeps the ledger. -/
theorem inv_step (s : State) (e : Event) (s' : State) (hI : Inv s) (hG : Guard s e)
    (h : step s e = some s') : Inv s' := by
  cases e with
  | credit poolId address amount =>
    obtain rfl := Option.some.inj h
    exact hI.credit poolId address amount
  | startPayout pool peers =>
    obtain ⟨db, phase, transfers⟩ := s
    cases phase with
    | idle =>
      obtain rfl := Option.some.inj h
      split
      · exact hI.moveTo rfl (fun _ _ => le_rfl) (hI.selected (fun _ _ => rfl) _ _)
      · exact hI
    | payouts | persisting => exact absurd h (by simp [step])
  | minerInfoFails =>
    obtain ⟨db, phase, transfers⟩ := s
    cases phase with
    | payouts pool queue =>
      cases queue with
      | nil => exact absurd h (by simp [step])
      | cons balance queue =>
        obtain rfl := Option.some.inj h
        exact hI.toIdle fun _ _ => rfl
    | idle | persisting => exact absurd h (by simp [step])
  | payout minimumPayment outcome =>
    obtain ⟨db, phase, transfers⟩ := s
    cases phase with
    | payouts pool queue =>
      cases queue with
      | nil => exact absurd h (by simp [step])
      | cons balance queue =>
        exact hI.payout rfl hG h
    | idle | persisting => exact absurd h (by simp [step])
  | persist now outcome retried =>
    obtain ⟨db, phase, transfers⟩ := s
    cases phase with
    | persisting pool sent queue =>
      cases outcome with
      | committed =>
        obtain rfl := Option.some.inj h
        exact hI.recorded rfl now (fun _ _ => rfl) rfl
      | ackLost =>
        obtain rfl := Option.some.inj h
        exact hI.recorded rfl now (pending_afterFailure retried rfl) (queueOf_afterFailure _ _ _ _)
      | rolledBack =>
        obtain rfl := Option.some.inj h
        exact hI.attempted rfl retried hG
    | idle | payouts => exact absurd h (by simp [step])
  | endPayout =>
    obtain ⟨db, phase, transfers⟩ := s
    cases phase with
    | payouts pool queue =>
      cases queue with
      | nil =>
        obtain rfl := Option.some.inj h
        exact hI.toIdle fun _ _ => rfl
      | cons balance queue => exact absurd h (by simp [step])
    | idle | persisting => exact absurd h (by simp [step])
  | restart =>
    obtain rfl := Option.some.inj h
    exact hI.toIdle (pending_of_nothingPending hG)

/-! ## Whole runs -/

/-- **No address is transferred more than it was credited**, in every run whose steps never leave a
transfer without a record. -/
theorem transferred_le_credited {es : List Event} {s : State}
    (hG : Along step Guard State.init es) (hrun : run step State.init es = some s)
    (poolId address : String) :
    transferred s.transfers poolId address ≤ credited s.db poolId address :=
  (run_invariant inv_step inv_init hG hrun).covered poolId address

/-- The credit of one coin, its payout with the transaction that records it first rolled back, then
without acknowledgement, and a second payout. -/
def recordedPayout : List Event :=
  [.credit "aion1" "0xa0miner" 1, .startPayout samplePool (some 3),
    .payout none (.sent true ⟨some "0x7f", none⟩), .persist 4 .rolledBack true,
    .persist 5 .ackLost true, .persist 6 .committed true, .endPayout,
    .startPayout samplePool (some 3), .endPayout, .restart]

/-- The same credit paid out with the daemon's reply lost, and paid out again. -/
def forgottenPayout : List Event :=
  [.credit "aion1" "0xa0miner" 1, .startPayout samplePool (some 3),
    .payout none (.sent true ⟨none, some "timeout"⟩), .endPayout,
    .startPayout samplePool (some 3), .payout none (.sent true ⟨some "0x7f", none⟩),
    .persist 5 .committed true, .endPayout]

theorem transferred_le_credited_recordedPayout :
    ∃ s, run step State.init recordedPayout = some s ∧ s.transfers.length = 1 ∧
      transferred s.transfers "aion1" "0xa0miner" ≤ credited s.db "aion1" "0xa0miner" := by
  obtain ⟨s, hs⟩ : ∃ s, run step State.init recordedPayout = some s :=
    Option.isSome_iff_exists.mp (by decide +kernel)
  refine ⟨s, hs, ?_, transferred_le_credited (by decide +kernel) hs "aion1" "0xa0miner"⟩
  have : (run step State.init recordedPayout).map (fun s => s.transfers.length) = some 1 := by
    decide +kernel
  rw [hs] at this
  exact Option.some.inj this

/-- A reply is lost, and two coins are transferred for one that was credited. -/
theorem forgotten_payout_sent_twice :
    ∃ es s, run step State.init es = some s ∧
      credited s.db "aion1" "0xa0miner" = 1 ∧ transferred s.transfers "aion1" "0xa0miner" = 2 := by
  obtain ⟨s, hs⟩ : ∃ s, run step State.init forgottenPayout = some s :=
    Option.isSome_iff_exists.mp (by decide +kernel)
  have h : (run step State.init forgottenPayout).map (fun s =>
      (credited s.db "aion1" "0xa0miner", transferred s.transfers "aion1" "0xa0miner")) =
      some (1, 2) := by
    decide +kernel
  rw [hs] at h
  obtain ⟨hc, ht⟩ := Prod.mk.inj (Option.some.inj h)
  exact ⟨forgottenPayout, s, hs, hc, ht⟩

end AionPool.Aion.Payout
