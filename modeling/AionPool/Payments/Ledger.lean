import AionPool.Aion.Payout

/-!
# The balance ledger

`AddAmountAsync` writes two tables: a row of `balance_changes` and the row of `balances`. The system
is the sequence of the transactions made of such calls, among them those of `PersistPaymentsAsync`,
and each of them commits or is rolled back as a whole.

* `Books`: every balance is the sum of its changes, and none is negative.
* `addAmountAsync_books`: one call keeps the books, where it leaves the balance non-negative and a
  negative amount is one the columns hold.
* `persistPayments_foldl`: the transaction of `PersistPaymentsAsync` is one of these.
* **`ledger_adds_up`**: the books are kept by every run, and after a payment round a paid address
  is left with what was credited since its balance was read.

About `PayoutHandlerBase.cs:108-174` and `BalanceRepository.cs:44-100`, as transactions.
-/

namespace AionPool.Payments.Ledger

open AionPool.Configuration AionPool.Persistence
open AionPool.Lib.FixedPoint AionPool.Lib.Run
open BalanceRepository (balanceOf addAmountAsync getPoolBalancesOverThresholdAsync)

/-! ## The system -/

/-- A statement of the transactions that write balances. -/
inductive Statement where
  | addAmount (poolId address : String) (amount : ℚ)
  | insertPayment (payment : Payment)

def execute (db : Database) : Statement → Database
  | .addAmount poolId address amount => addAmountAsync db poolId address amount
  | .insertPayment payment => PaymentRepository.insertAsync db payment

/-- A transaction, and how it ends. -/
structure Event where
  transaction : List Statement
  outcome : TxOutcome

/-- `RunTx`. -/
def step (db : Database) (e : Event) : Option Database :=
  match e.outcome with
  | .rolledBack => some db
  | .committed | .ackLost => some (e.transaction.foldl execute db)

/-- The statements of `PersistPaymentsAsync`. -/
def persistPayments (pool : PoolConfig) (balances : List Balance) (txHash : String)
    (now : DateTime) : List Statement :=
  balances.flatMap fun balance =>
    (if txHash ≠ "" ∧ balance.address ∉ pool.rewardRecipients.map RewardRecipient.address then
      [.insertPayment ⟨pool.id, pool.symbol, balance.address, balance.amount, txHash, now⟩]
    else []) ++ [.addAmount pool.id balance.address (-balance.amount.value)]

/-- They are the transactions of the payout, one balance after the other. -/
theorem persistPayments_foldl (pool : PoolConfig) (balances : List Balance) (txHash : String)
    (now : DateTime) (db : Database) :
    (persistPayments pool balances txHash now).foldl execute db =
      balances.foldl (fun db balance =>
        Aion.Payout.persistPaymentsAsync pool balance txHash now db) db := by
  induction balances generalizing db with
  | nil => rfl
  | cons balance balances ih =>
    unfold persistPayments at ih ⊢
    rw [List.flatMap_cons, List.foldl_append, ih, List.foldl_cons]
    congr 1
    unfold Aion.Payout.persistPaymentsAsync
    split <;> rfl

/-! ## The books -/

/-- What the rows add up to for a pool and address. -/
def changed (rows : List BalanceChange) (poolId address : String) : ℚ :=
  ((rows.filter fun r => (r.poolId, r.address) = (poolId, address)).map fun r =>
    r.amount.value).sum

@[simp] theorem changed_nil (poolId address : String) : changed [] poolId address = 0 := rfl

@[simp] theorem changed_append (rows rows' : List BalanceChange) (poolId address : String) :
    changed (rows ++ rows') poolId address =
      changed rows poolId address + changed rows' poolId address := by
  unfold changed
  rw [List.filter_append, List.map_append, List.sum_append]

theorem changed_singleton (r : BalanceChange) (poolId address : String) :
    changed [r] poolId address =
      if (r.poolId, r.address) = (poolId, address) then r.amount.value else 0 := by
  unfold changed
  split
  · rename_i h
    rw [List.filter_cons_of_pos (by simpa using h)]
    simp
  · rename_i h
    rw [List.filter_cons_of_neg (by simpa using h)]
    rfl

/-- Every balance is the sum of its changes, and none is negative. -/
structure Books (db : Database) : Prop where
  addsUp : ∀ poolId address,
    balanceOf db poolId address = changed db.balanceChanges poolId address
  nonneg : ∀ poolId address, 0 ≤ balanceOf db poolId address

theorem Books.empty : Books Database.empty where
  addsUp _ _ := rfl
  nonneg _ _ := le_rfl

/-- A call leaves the balance non-negative, and a negative amount is one the columns hold. -/
def Allowed (db : Database) : Statement → Prop
  | .addAmount poolId address amount =>
    (amount < 0 → (Fixed.store 12 amount).value = amount) ∧
      0 ≤ balanceOf (addAmountAsync db poolId address amount) poolId address
  | .insertPayment _ => True

instance (db : Database) : (s : Statement) → Decidable (Allowed db s)
  | .addAmount poolId address amount => inferInstanceAs (Decidable
      ((amount < 0 → (Fixed.store 12 amount).value = amount) ∧
        0 ≤ balanceOf (addAmountAsync db poolId address amount) poolId address))
  | .insertPayment _ => .isTrue trivial

/-- The statements of a transaction that is not rolled back are allowed, each where it comes. -/
def TransactionAllowed (db : Database) (e : Event) : Prop :=
  e.outcome ≠ .rolledBack → Along (fun db s => some (execute db s)) Allowed db e.transaction

instance (db : Database) (e : Event) : Decidable (TransactionAllowed db e) :=
  inferInstanceAs (Decidable (_ → Along (fun db s => some (execute db s)) Allowed db e.transaction))

variable {db db' : Database}

/-- The balance after a call is the one before and the amount as the column stores it. -/
theorem balanceOf_add_of_allowed {poolId address : String} {amount : ℚ}
    (hnonneg : 0 ≤ balanceOf db poolId address)
    (hgrid : amount < 0 → (Fixed.store 12 amount).value = amount) :
    (Fixed.store 12 (balanceOf db poolId address + amount)).value =
      balanceOf db poolId address + (Fixed.store 12 amount).value := by
  obtain ⟨f, hf⟩ := BalanceRepository.balanceOf_eq_value db poolId address
  rw [hf] at hnonneg ⊢
  rcases lt_or_ge amount 0 with hneg | hpos
  · have hstored := hgrid hneg
    calc (Fixed.store 12 (f.value + amount)).value
        = (Fixed.store 12 (f.value + (Fixed.store 12 amount).value)).value := by rw [hstored]
      _ = f.value + (Fixed.store 12 amount).value := Fixed.store_add_value f _
  · exact Fixed.store_add_of_nonneg hnonneg hpos

/-- **One call** keeps the books. -/
theorem addAmountAsync_books {poolId address : String} {amount : ℚ} (h : Books db)
    (hallowed : Allowed db (.addAmount poolId address amount)) :
    Books (addAmountAsync db poolId address amount) := by
  obtain ⟨hgrid, hleft⟩ := hallowed
  have hadd := balanceOf_add_of_allowed (h.nonneg poolId address) hgrid
  constructor
  · intro p a
    have hchanges : (addAmountAsync db poolId address amount).balanceChanges =
        db.balanceChanges ++ [⟨poolId, address, Fixed.store 12 amount⟩] := rfl
    rw [BalanceRepository.balanceOf_addAmountAsync, hchanges, changed_append, changed_singleton,
      ← h.addsUp]
    by_cases hkey : (p, a) = (poolId, address)
    · obtain ⟨rfl, rfl⟩ := Prod.mk.inj hkey
      rw [if_pos rfl, if_pos rfl, hadd]
    · rw [if_neg hkey, if_neg (Ne.symm hkey), add_zero]
  · intro p a
    by_cases hkey : (p, a) = (poolId, address)
    · obtain ⟨rfl, rfl⟩ := Prod.mk.inj hkey
      exact hleft
    · rw [BalanceRepository.balanceOf_addAmountAsync, if_neg hkey]
      exact h.nonneg p a

theorem execute_books {s : Statement} (h : Books db) (hallowed : Allowed db s) :
    Books (execute db s) := by
  cases s with
  | addAmount poolId address amount => exact addAmountAsync_books h hallowed
  | insertPayment payment => exact ⟨h.addsUp, h.nonneg⟩

/-- A transaction keeps the books. -/
theorem step_books {e : Event} (h : Books db) (hallowed : TransactionAllowed db e)
    (hstep : step db e = some db') : Books db' := by
  unfold step at hstep
  split at hstep
  · obtain rfl := Option.some.inj hstep
    exact h
  all_goals
    rename_i houtcome
    refine run_invariant (fun s e s' hs hG hstep => ?_) h (hallowed (by simp [houtcome]))
      ((run_total execute db e.transaction).trans hstep)
    obtain rfl := Option.some.inj hstep
    exact execute_books hs hG

/-! ## What was credited since a state -/

/-- The rows of `balance_changes` that were added between two states. -/
def changesSince (db db' : Database) : List BalanceChange :=
  db'.balanceChanges.drop db.balanceChanges.length

theorem execute_balanceChanges (db : Database) (s : Statement) :
    db.balanceChanges <+: (execute db s).balanceChanges := by
  cases s with
  | addAmount poolId address amount => exact List.prefix_append _ _
  | insertPayment payment => exact List.prefix_rfl

theorem foldl_execute_balanceChanges (db : Database) (ss : List Statement) :
    db.balanceChanges <+: (ss.foldl execute db).balanceChanges := by
  induction ss generalizing db with
  | nil => exact List.prefix_rfl
  | cons s ss ih => exact (execute_balanceChanges db s).trans (ih (execute db s))

/-- Rows are never taken away. -/
theorem run_balanceChanges {es : List Event} (h : run step db es = some db') :
    db.balanceChanges <+: db'.balanceChanges := by
  refine run_invariant_of_step (I := fun d => db.balanceChanges <+: d.balanceChanges)
    (fun s e s' hs hstep => hs.trans ?_) List.prefix_rfl h
  unfold step at hstep
  split at hstep
  · obtain rfl := Option.some.inj hstep
    exact List.prefix_rfl
  all_goals
    obtain rfl := Option.some.inj hstep
    exact foldl_execute_balanceChanges s e.transaction

theorem changed_changesSince (h : db.balanceChanges <+: db'.balanceChanges)
    (poolId address : String) :
    changed db'.balanceChanges poolId address =
      changed db.balanceChanges poolId address + changed (changesSince db db') poolId address := by
  obtain ⟨rows, hrows⟩ := h
  unfold changesSince
  rw [← hrows, changed_append, List.drop_left]

/-! ## A payment round -/

/-- The reset of one balance changes that balance only, by the amount read. -/
theorem balanceOf_persistPaymentsAsync (pool : PoolConfig) (balance : Balance) (txHash : String)
    (now : DateTime) (db : Database) (address : String) :
    balanceOf (Aion.Payout.persistPaymentsAsync pool balance txHash now db) pool.id address =
      balanceOf db pool.id address -
        if address = balance.address then balance.amount.value else 0 := by
  have hpayment : ∀ payment p a,
      balanceOf (PaymentRepository.insertAsync db payment) p a = balanceOf db p a :=
    fun _ _ _ => rfl
  unfold Aion.Payout.persistPaymentsAsync
  rw [BalanceRepository.balanceOf_addAmountAsync]
  by_cases haddress : address = balance.address
  · subst haddress
    obtain ⟨f, hf⟩ := BalanceRepository.balanceOf_eq_value db pool.id balance.address
    rw [if_pos rfl, if_pos rfl]
    split
    · rw [hpayment, hf, Fixed.store_sub_value]
    · rw [hf, Fixed.store_sub_value]
  · rw [if_neg fun h => haddress (Prod.mk.inj h).2, if_neg haddress, sub_zero]
    split
    · rw [hpayment]
    · rfl

/-- The resets of a round leave the balances of other addresses alone. -/
theorem balanceOf_foldl_of_notMem (pool : PoolConfig) (txHash : String) (now : DateTime)
    {balances : List Balance} {address : String} (h : address ∉ balances.map Balance.address)
    (db : Database) :
    balanceOf (balances.foldl (fun db balance =>
      Aion.Payout.persistPaymentsAsync pool balance txHash now db) db) pool.id address =
        balanceOf db pool.id address := by
  induction balances generalizing db with
  | nil => rfl
  | cons b balances ih =>
    rw [List.map_cons, List.mem_cons, not_or] at h
    rw [List.foldl_cons, ih h.2, balanceOf_persistPaymentsAsync, if_neg h.1, sub_zero]

/-- Of a balance that is paid once the amount read is taken. -/
theorem balanceOf_foldl_of_mem (pool : PoolConfig) (txHash : String) (now : DateTime)
    {balances : List Balance} (hnodup : (balances.map Balance.address).Nodup) {balance : Balance}
    (h : balance ∈ balances) (db : Database) :
    balanceOf (balances.foldl (fun db balance =>
      Aion.Payout.persistPaymentsAsync pool balance txHash now db) db) pool.id balance.address =
        balanceOf db pool.id balance.address - balance.amount.value := by
  induction balances generalizing db with
  | nil => exact absurd h List.not_mem_nil
  | cons b balances ih =>
    rw [List.map_cons, List.nodup_cons] at hnodup
    rw [List.foldl_cons]
    rcases List.mem_cons.mp h with rfl | hmem
    · rw [balanceOf_foldl_of_notMem pool txHash now hnodup.1, balanceOf_persistPaymentsAsync,
        if_pos rfl]
    · have hne : balance.address ≠ b.address := fun heq =>
        hnodup.1 (heq ▸ List.mem_map_of_mem hmem)
      rw [ih hnodup.2 hmem, balanceOf_persistPaymentsAsync, if_neg hne, sub_zero]

/-- **The ledger adds up** in every state that allowed transactions reach; and a committed payment
round, of balances read in the state `db`, leaves each paid address with what was credited to it
between the reading and the round. -/
theorem ledger_adds_up (es es' : List Event) {db db' : Database}
    (hallowed : Along step TransactionAllowed Database.empty (es ++ es'))
    (hread : run step Database.empty es = some db) (hpaid : run step db es' = some db') :
    (∀ poolId address, balanceOf db' poolId address = changed db'.balanceChanges poolId address) ∧
    ∀ (pool : PoolConfig) (minimum : ℚ) (balances : List Balance) (txHash : String)
      (now : DateTime) (outcome : TxOutcome) (db'' : Database),
      balances.Sublist (getPoolBalancesOverThresholdAsync db pool.id minimum) →
      outcome ≠ .rolledBack →
      step db' ⟨persistPayments pool balances txHash now, outcome⟩ = some db'' →
      ∀ balance ∈ balances, balanceOf db'' pool.id balance.address =
        changed (changesSince db db') pool.id balance.address := by
  obtain ⟨hbefore, hafter⟩ := along_append.mp hallowed
  have hbooks : Books db := run_invariant (fun _ _ _ => step_books) Books.empty hbefore hread
  have hbooks' : Books db' := run_invariant (fun _ _ _ => step_books) hbooks (hafter db hread) hpaid
  refine ⟨hbooks'.addsUp, ?_⟩
  intro pool minimum balances txHash now outcome db'' hselected houtcome hstep balance hbalance
  have hround : db'' = balances.foldl (fun db balance =>
      Aion.Payout.persistPaymentsAsync pool balance txHash now db) db' := by
    rw [← persistPayments_foldl]
    unfold step at hstep
    split at hstep
    · exact absurd ‹_› houtcome
    all_goals exact (Option.some.inj hstep).symm
  have hnodup : (balances.map Balance.address).Nodup :=
    (BalanceRepository.nodup_getPoolBalancesOverThresholdAsync db pool.id minimum).sublist
      (hselected.map Balance.address)
  have hamount : balanceOf db pool.id balance.address = balance.amount.value :=
    (BalanceRepository.mem_getPoolBalancesOverThresholdAsync (hselected.subset hbalance)).2.2
  have hsince := changed_changesSince (run_balanceChanges hpaid) pool.id balance.address
  rw [← hbooks'.addsUp, ← hbooks.addsUp, hamount] at hsince
  rw [hround, balanceOf_foldl_of_mem pool txHash now hnodup hbalance, hsince, add_sub_cancel_left]

/-- Two credits, the second of them after the balances were read, and one that is rolled back. -/
theorem ledger_adds_up_sample :
    let credit amount outcome : Event := ⟨[.addAmount "aion1" "0xa0a" amount], outcome⟩
    let db := execute Database.empty (.addAmount "aion1" "0xa0a" (3 / 2))
    let db' := execute db (.addAmount "aion1" "0xa0a" (1 / 3))
    let balances := getPoolBalancesOverThresholdAsync db "aion1" 1
    run step Database.empty [credit (3 / 2) .committed] = some db ∧
    run step db [credit 7 .rolledBack, credit (1 / 3) .committed] = some db' ∧
    balances.map Balance.amount = [⟨1500000000000⟩] ∧
    balanceOf ((persistPayments samplePool balances "0x7f" 40).foldl execute db') "aion1" "0xa0a" =
      333333333333 / 10 ^ 12 := by
  refine ⟨rfl, rfl, by decide +kernel, ?_⟩
  have h := (ledger_adds_up [⟨[.addAmount "aion1" "0xa0a" (3 / 2)], .committed⟩]
    [⟨[.addAmount "aion1" "0xa0a" 7], .rolledBack⟩,
      ⟨[.addAmount "aion1" "0xa0a" (1 / 3)], .committed⟩] (by decide +kernel) rfl rfl).2
    samplePool 1 _ "0x7f" 40 .committed _ (List.Sublist.refl _) (by decide) rfl
    ⟨"aion1", "0xa0a", ⟨1500000000000⟩⟩ (by decide +kernel)
  exact h.trans (by decide +kernel)

end AionPool.Payments.Ledger
