import AionPool.Configuration
import AionPool.Daemon
import AionPool.Lib.Run
import AionPool.Persistence.Repositories
import Mathlib.Data.Nat.Size

/-!
# Paying out balances

`PayoutPoolBalancesAsync`, `AionPayoutHandler.PayoutAsync` and `PersistPaymentsAsync` as a system of
steps: sending a payment and recording it are two steps, with other credits, lost replies, failing
transactions and restarts between them. The state keeps every transfer the daemon executed.

* `sentValue` is the value a send request carries, as the daemon reads its hexadecimal text.
* `Event` is what may happen next, `step` what it does.

Models `AionPayoutHandler.cs:212-256` and `:309-401`, `PayoutHandlerBase.cs:131-174` and
`PayoutManager.cs:188-209`. Out of scope: the texts of notifications.
-/

namespace AionPool.Aion.Payout

open AionPool.Configuration AionPool.Persistence AionPool.Daemon

/-! ## The request -/

/-- The hexadecimal digits `BigInteger.ToString("x")` writes for a negative number, which it gives
in two's complement. -/
def negativeDigits (n : ℤ) : ℕ := (-n - 1).toNat.size / 4 + 1

/-- The number the hexadecimal text of a `BigInteger` is read as: nothing in the text of a negative
one says that it is negative. -/
def readHex (n : ℤ) : ℕ :=
  if 0 ≤ n then n.toNat else (16 ^ negativeDigits n + n).toNat

/-- `AionConstants.Wei`. -/
def Wei : ℚ := 1000000000000000000

/-- The value of the request, `(BigInteger) Math.Floor(balance.Amount * Wei)`. -/
def sentValue (balance : Balance) : ℕ := readHex ⌊balance.amount.value * Wei⌋

/-- `AionConstants.ZeroHashPattern`, `^0?x?0+$`: the `$` also matches before a last line feed. -/
def isZeroHash (s : String) : Bool :=
  let chars := match s.toList.getLast? with
    | some '\n' => s.toList.dropLast
    | _ => s.toList
  let digits := match chars with
    | '0' :: 'x' :: rest => rest
    | 'x' :: rest => rest
    | rest => rest
  digits ≠ [] ∧ digits.all (· = '0')

/-- The transaction hash of a reply; `none` where `PayoutAsync` throws instead. -/
def txHashOf (reply : DaemonResponse String) : Option String :=
  if reply.error.isSome then none
  else reply.response.filter fun hash => hash ≠ "" ∧ isZeroHash hash = false

/-- Whether the configuration has what a payment needs. -/
def canSend (pool : PoolConfig) : Bool :=
  pool.paymentProcessing.extra.sendTransactionsUsingPrivateKey ||
    (pool.paymentProcessing.extra.accountPassword.getD "" ≠ "")

/-- Whether the miner waits for a larger balance. -/
def skips (pool : PoolConfig) (minimumPayment : Option ℚ) (balance : Balance) : Bool :=
  match minimumPayment with
  | none => false
  | some minimum => balance.amount.value < minimum ∧
      pool.paymentProcessing.extra.enableMinerMinimumPayment = true

/-- `infoResponse.Error == null && Convert.ToInt32(infoResponse.Response) >= MinimumPeerCount`. -/
def enoughPeers (pool : PoolConfig) (peers : Option ℤ) : Bool :=
  match peers with
  | none => false
  | some count => pool.paymentProcessing.extra.minimumPeerCount.toInt ≤ count

/-! ## Recording a payment -/

/-- The transaction of `PersistPaymentsAsync` for one balance, at the time `now`. -/
def persistPaymentsAsync (pool : PoolConfig) (balance : Balance) (txHash : String)
    (now : DateTime) (db : Database) : Database :=
  let db :=
    if txHash ≠ "" ∧ balance.address ∉ pool.rewardRecipients.map RewardRecipient.address then
      PaymentRepository.insertAsync db
        ⟨pool.id, pool.symbol, balance.address, balance.amount, txHash, now⟩
    else db
  BalanceRepository.addAmountAsync db pool.id balance.address (-balance.amount.value)

/-! ## The system -/

/-- A transfer the daemon executed for a pool. -/
structure Transfer where
  poolId : String
  address : String
  value : ℕ
  deriving DecidableEq

/-- A payment that was sent and is being recorded: the retries so far, and whether one of the
transactions that threw has committed all the same. -/
structure Sent where
  balance : Balance
  txHash : String
  retries : ℕ
  recorded : Bool

/-- Where the payout thread stands: between payouts, in the loop over the balances selected, or in
`PersistPaymentsAsync` with the rest of that loop to come. -/
inductive Phase where
  | idle
  | payouts (pool : PoolConfig) (queue : List Balance)
  | persisting (pool : PoolConfig) (sent : Sent) (queue : List Balance)

/-- The tables, the payout thread and the transfers executed. -/
structure State where
  db : Database
  phase : Phase
  transfers : List Transfer

/-- Nothing credited, nothing sent. -/
def State.init : State := ⟨Database.empty, .idle, []⟩

/-- How a send request ends: it may fail before it is sent, and once it is sent the daemon may
execute it or not, whatever its reply says or whether it arrives. A lost reply is an error. -/
inductive SendOutcome where
  | notSent
  | sent (executed : Bool) (reply : DaemonResponse String)

/-- What may happen next. -/
inductive Event where
  /-- `AddAmountAsync` for a reward commits. -/
  | credit (poolId address : String) (amount : ℚ)
  /-- `PayoutPoolBalancesAsync` selects the balances, and asks for the peers. -/
  | startPayout (pool : PoolConfig) (peers : Option ℤ)
  /-- The settings of the next miner cannot be read, which ends the payout. -/
  | minerInfoFails
  /-- The next balance is paid, unless its miner's minimum is above it. -/
  | payout (minimumPayment : Option ℚ) (outcome : SendOutcome)
  /-- A transaction of `PersistPaymentsAsync` ends; an exception may be one that is retried. -/
  | persist (now : DateTime) (outcome : TxOutcome) (retried : Bool)
  /-- No balance is left. -/
  | endPayout
  /-- The process is restarted. -/
  | restart

/-- `RetryCount`. -/
def retryCount : ℕ := 8

/-- What follows an exception of `PersistPaymentsAsync`: a retry, or the next balance. -/
def afterFailure (pool : PoolConfig) (sent : Sent) (queue : List Balance) (retried : Bool) :
    Phase :=
  if retried ∧ sent.retries < retryCount then
    .persisting pool { sent with retries := sent.retries + 1 } queue
  else .payouts pool queue

/-- What follows a send request. -/
def afterSend (pool : PoolConfig) (balance : Balance) (queue : List Balance)
    (reply : DaemonResponse String) : Phase :=
  match txHashOf reply with
  | none => .payouts pool queue
  | some txHash => .persisting pool ⟨balance, txHash, 0, false⟩ queue

/-- One step, `none` where the event cannot happen. -/
def step (s : State) : Event → Option State
  | .credit poolId address amount =>
    some { s with db := BalanceRepository.addAmountAsync s.db poolId address amount }
  | .startPayout pool peers =>
    match s.phase with
    | .idle => some (if enoughPeers pool peers then
        { s with phase := .payouts pool (BalanceRepository.getPoolBalancesOverThresholdAsync s.db
            pool.id pool.paymentProcessing.minimumPayment) }
      else s)
    | _ => none
  | .minerInfoFails =>
    match s.phase with
    | .payouts _ (_ :: _) => some { s with phase := .idle }
    | _ => none
  | .payout minimumPayment outcome =>
    match s.phase with
    | .payouts pool (balance :: queue) =>
      if skips pool minimumPayment balance ∨ canSend pool = false then
        some { s with phase := .payouts pool queue }
      else match outcome with
        | .notSent => some { s with phase := .payouts pool queue }
        | .sent executed reply => some
          { s with
            phase := afterSend pool balance queue reply
            transfers := if executed then
                s.transfers ++ [⟨pool.id, balance.address, sentValue balance⟩]
              else s.transfers }
    | _ => none
  | .persist now outcome retried =>
    match s.phase with
    | .persisting pool sent queue =>
      let db := persistPaymentsAsync pool sent.balance sent.txHash now s.db
      match outcome with
      | .committed => some { s with db, phase := .payouts pool queue }
      | .ackLost => some
        { s with db, phase := afterFailure pool { sent with recorded := true } queue retried }
      | .rolledBack => some { s with phase := afterFailure pool sent queue retried }
    | _ => none
  | .endPayout =>
    match s.phase with
    | .payouts _ [] => some { s with phase := .idle }
    | _ => none
  | .restart => some { s with phase := .idle }

/-! ## What was credited and what was transferred -/

/-- What `AddAmountAsync` has credited to an address: its positive balance changes. -/
def credited (db : Database) (poolId address : String) : ℚ :=
  ((db.balanceChanges.filter fun c => c.poolId = poolId ∧ c.address = address).map fun c =>
    max 0 c.amount.value).sum

/-- What the daemon was made to transfer to an address, in coins. -/
def transferred (transfers : List Transfer) (poolId address : String) : ℚ :=
  ((transfers.filter fun t => t.poolId = poolId ∧ t.address = address).map fun t =>
    (t.value : ℚ) / Wei).sum

end AionPool.Aion.Payout
