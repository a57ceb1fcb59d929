import AionPool.Runtime

/-!
# The daemons

The answers of the Aion daemons, as `DaemonInterface` and the classes of `DaemonResponses` read
them. Nothing is assumed of an answer: a daemon may report any height for any request, and two
daemons may disagree.
-/

namespace AionPool.Daemon

/-- `DaemonResponse<T>`; of an error only the message is read. -/
structure DaemonResponse (α : Type) where
  response : Option α
  error : Option String

/-- `DaemonResponses.Transaction`. -/
structure Transaction where
  hash : String
  gasPrice : UInt64

/-- `DaemonResponses.Block`. -/
structure ChainBlock where
  height : Option UInt64
  miner : Option String
  timestamp : UInt64
  transactions : List Transaction

/-- `DaemonResponses.TransactionReceipt`. -/
structure TransactionReceipt where
  transactionHash : String
  gasUsed : ℤ

/-- What the daemons answer while blocks are classified: the latest block for each page, from every
daemon, and the `n`-th batch, from the daemon that is first. A batch that fails throws. -/
structure Answers where
  latest : ℕ → List (DaemonResponse ChainBlock)
  blocks : ℕ → List Int64 → Except Exn (List (DaemonResponse ChainBlock))
  receipts : ℕ → List String → Except Exn (List (DaemonResponse TransactionReceipt))

/-- The height in the first response that has one and no error. -/
def firstHeight : List (DaemonResponse ChainBlock) → Option UInt64
  | [] => none
  | r :: rs =>
    match r.error, r.response.bind ChainBlock.height with
    | none, some height => some height
    | _, _ => firstHeight rs

end AionPool.Daemon
