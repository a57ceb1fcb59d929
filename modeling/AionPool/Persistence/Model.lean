import AionPool.Runtime
import AionPool.Lib.Binary64
import AionPool.Lib.FixedPoint

/-!
# The tables

The rows of `Persistence/Model` and the tables of `createdb.sql`. Amounts are `decimal(28,12)`
columns: a stored amount is a `Fixed 12`, an amount in memory a rational. The difficulties of a
share are finite doubles, read as the rationals they are; what the code computes with doubles that
can become infinite or NaN is a `Double`.

`balances` has the primary key `(poolid, address)`, which `BalanceTable` carries. The
`UNIQUE (poolid, blockheight, type)` of `blocks` does not appear: every block row the code writes
has the type NULL, and rows with a NULL do not conflict.
-/

namespace AionPool.Persistence

open AionPool.Lib.Binary64 (Double)
open AionPool.Lib.FixedPoint

/-- An amount column. -/
abbrev Amount := Fixed 12

/-- `BlockStatus`. -/
inductive BlockStatus where
  | pending
  | orphaned
  | confirmed
  deriving DecidableEq, Repr

/-- `Model.Block`. -/
structure Block where
  poolId : String
  blockHeight : UInt64
  networkDifficulty : Double
  status : BlockStatus
  type : Option String
  confirmationProgress : Double
  effort : Option Double
  transactionConfirmationData : String
  miner : Option String
  reward : ℚ
  source : Option String
  hash : Option String
  created : DateTime
  deriving DecidableEq

/-- `Model.Share`. -/
structure Share where
  poolId : String
  blockHeight : UInt64
  miner : String
  worker : Option String
  difficulty : ℚ
  networkDifficulty : ℚ
  created : DateTime
  deriving DecidableEq

/-- A row of `balances`. -/
structure BalanceRow where
  poolId : String
  address : String
  amount : Amount
  deriving DecidableEq

/-- The primary key of `balances`. -/
def BalanceRow.key (r : BalanceRow) : String × String := (r.poolId, r.address)

/-- `balances`: one row a pool and address. -/
structure BalanceTable where
  rows : List BalanceRow
  primaryKey : (rows.map BalanceRow.key).Nodup

/-- A row of `balance_changes`. -/
structure BalanceChange where
  poolId : String
  address : String
  amount : Amount
  deriving DecidableEq

/-- `Model.Balance`, as a query returns it. -/
structure Balance where
  poolId : String
  address : String
  amount : Amount
  deriving DecidableEq

/-- A row of `payments`. -/
structure Payment where
  poolId : String
  coin : String
  address : String
  amount : Amount
  transactionConfirmationData : String
  created : DateTime
  deriving DecidableEq

/-- The tables the payment code reads and writes. -/
structure Database where
  shares : List Share
  blocks : List Block
  balances : BalanceTable
  balanceChanges : List BalanceChange
  payments : List Payment

/-- The tables as `createdb.sql` leaves them. -/
def Database.empty : Database where
  shares := []
  blocks := []
  balances := ⟨[], List.nodup_nil⟩
  balanceChanges := []
  payments := []

/-- A share of the pool `aion1`. -/
def sampleShare (miner : String) (difficulty : ℚ) (created : DateTime) : Share where
  poolId := "aion1"
  blockHeight := 7
  miner := miner
  worker := none
  difficulty := difficulty
  networkDifficulty := 4
  created := created

/-- A pending block. -/
def sampleBlock (poolId : String) (height : UInt64) (reward : ℚ) (created : DateTime) : Block where
  poolId := poolId
  blockHeight := height
  networkDifficulty := .fin 4
  status := .pending
  type := none
  confirmationProgress := .fin 0
  effort := none
  transactionConfirmationData := "0x0"
  miner := none
  reward := reward
  source := none
  hash := none
  created := created

end AionPool.Persistence
