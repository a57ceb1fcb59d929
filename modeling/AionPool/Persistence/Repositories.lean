import AionPool.Persistence.Model
import AionPool.Lib.PagedRead
import Mathlib.Data.List.Sort

/-!
# The repositories

The SQL statements of `Persistence/Postgres/Repositories` as functions on the tables. A query that
leaves the order of its rows open is either a stable sort of the table, whose own order is then the
fixed order among equal keys, or, for `DISTINCT ON (blockheight)`, a predicate on the result:
any row of a height may stand for it.

* `BlockRepository.mem_updateBlockAsync`: the update rewrites every row of the height, of whatever
  pool.
* `BlockRepository.exists_isDistinctPending`: every pending row can be the selected one.
* `BalanceRepository.balanceOf_addAmountAsync`: what an addition does to each balance.
* `BalanceRepository.mem_getPoolBalancesOverThresholdAsync`: what the payout selects.

Models `BlockRepository.cs:45-135`, `ShareRepository.cs:63-177`, `BalanceRepository.cs:44-133` and
`PaymentRepository.cs:44-54`.
-/

namespace AionPool.Persistence

open AionPool.Lib.Binary64 (Double)
open AionPool.Lib.FixedPoint

/-! ## Blocks -/

namespace BlockRepository

/-- The row `InsertAsync` writes. -/
def row (block : Block) : Block :=
  { block with reward := (Fixed.store 12 block.reward).value }

def insertAsync (db : Database) (block : Block) : Database :=
  { db with blocks := db.blocks ++ [row block] }

/-- `UPDATE blocks SET ... ` on one row. -/
def updated (block r : Block) : Block :=
  { r with
    blockHeight := block.blockHeight
    status := block.status
    type := block.type
    reward := (Fixed.store 12 block.reward).value
    effort := block.effort
    confirmationProgress := block.confirmationProgress }

/-- `UpdateBlockAsync`: the rows are selected by `blockheight = @blockheight` alone. -/
def updateBlockAsync (db : Database) (block : Block) : Database :=
  { db with blocks := db.blocks.map fun r =>
      if r.blockHeight = block.blockHeight then updated block r else r }

/-- A result of `SELECT DISTINCT ON(blockheight) * FROM blocks WHERE poolid = @poolid AND
status = @status`, for the status `pending`: one row a height, in any order. -/
def IsDistinctPending (blocks : List Block) (poolId : String) (sel : List Block) : Prop :=
  (∀ b ∈ sel, b ∈ blocks ∧ b.poolId = poolId ∧ b.status = .pending) ∧
    (sel.map Block.blockHeight).Nodup ∧
    ∀ b ∈ blocks, b.poolId = poolId → b.status = .pending →
      b.blockHeight ∈ sel.map Block.blockHeight

instance (blocks : List Block) (poolId : String) (sel : List Block) :
    Decidable (IsDistinctPending blocks poolId sel) :=
  inferInstanceAs (Decidable (_ ∧ _ ∧ _))

/-- `GetBlockBeforeAsync`: the newest block of the pool with one of the statuses. -/
def getBlockBeforeAsync (db : Database) (poolId : String) (status : List BlockStatus)
    (before : DateTime) : Option Block :=
  ((db.blocks.filter fun b => b.poolId = poolId ∧ b.status ∈ status ∧ b.created < before)
    |>.insertionSort fun a b => b.created ≤ a.created).head?

@[simp] theorem updated_poolId (block r : Block) : (updated block r).poolId = r.poolId := rfl
@[simp] theorem updated_blockHeight (block r : Block) :
    (updated block r).blockHeight = block.blockHeight := rfl
@[simp] theorem updated_status (block r : Block) : (updated block r).status = block.status := rfl

theorem mem_updateBlockAsync {db : Database} {block b : Block} :
    b ∈ (updateBlockAsync db block).blocks ↔
      (b ∈ db.blocks ∧ b.blockHeight ≠ block.blockHeight) ∨
        ∃ r ∈ db.blocks, r.blockHeight = block.blockHeight ∧ b = updated block r := by
  unfold updateBlockAsync
  rw [List.mem_map]
  constructor
  · rintro ⟨r, hr, rfl⟩
    by_cases h : r.blockHeight = block.blockHeight
    · rw [if_pos h]
      exact Or.inr ⟨r, hr, h, rfl⟩
    · rw [if_neg h]
      exact Or.inl ⟨hr, h⟩
  · rintro (⟨hb, h⟩ | ⟨r, hr, h, rfl⟩)
    · exact ⟨b, hb, if_neg h⟩
    · exact ⟨r, hr, if_pos h⟩

/-- One row a height, the last one in the list. -/
def distinctOnHeight : List Block → List Block
  | [] => []
  | b :: bs =>
    if b.blockHeight ∈ bs.map Block.blockHeight then distinctOnHeight bs
    else b :: distinctOnHeight bs

theorem distinctOnHeight_sublist : ∀ bs : List Block, (distinctOnHeight bs).Sublist bs
  | [] => List.Sublist.refl _
  | b :: bs => by
    unfold distinctOnHeight
    split
    · exact (distinctOnHeight_sublist bs).cons b
    · exact (distinctOnHeight_sublist bs).cons_cons b

theorem height_mem_distinctOnHeight {h : UInt64} :
    ∀ {bs : List Block}, h ∈ (distinctOnHeight bs).map Block.blockHeight ↔
      h ∈ bs.map Block.blockHeight
  | [] => Iff.rfl
  | b :: bs => by
    unfold distinctOnHeight
    split
    · rename_i hb
      rw [height_mem_distinctOnHeight, List.map_cons, List.mem_cons]
      constructor
      · exact Or.inr
      · rintro (rfl | h')
        · exact hb
        · exact h'
    · rw [List.map_cons, List.map_cons, List.mem_cons, List.mem_cons, height_mem_distinctOnHeight]

theorem nodup_distinctOnHeight :
    ∀ bs : List Block, ((distinctOnHeight bs).map Block.blockHeight).Nodup
  | [] => List.nodup_nil
  | b :: bs => by
    unfold distinctOnHeight
    split
    · exact nodup_distinctOnHeight bs
    · rename_i hb
      rw [List.map_cons, List.nodup_cons, height_mem_distinctOnHeight]
      exact ⟨hb, nodup_distinctOnHeight bs⟩

theorem mem_distinctOnHeight_concat (b : Block) :
    ∀ bs : List Block, b ∈ distinctOnHeight (bs ++ [b])
  | [] => by simp [distinctOnHeight]
  | a :: bs => by
    rw [List.cons_append, distinctOnHeight]
    split
    · exact mem_distinctOnHeight_concat b bs
    · exact List.mem_cons_of_mem a (mem_distinctOnHeight_concat b bs)

/-- Every pending row of the pool can be the one selected for its height. -/
theorem exists_isDistinctPending {blocks : List Block} {poolId : String} {b : Block}
    (hb : b ∈ blocks) (hpool : b.poolId = poolId) (hst : b.status = .pending) :
    ∃ sel, IsDistinctPending blocks poolId sel ∧ b ∈ sel := by
  let pending := blocks.filter fun r => r.poolId = poolId ∧ r.status = .pending
  have hmem : ∀ r, r ∈ pending ++ [b] → r ∈ blocks ∧ r.poolId = poolId ∧ r.status = .pending := by
    intro r hr
    rcases List.mem_append.mp hr with hr | hr
    · obtain ⟨h1, h2⟩ := List.mem_filter.mp hr
      exact ⟨h1, of_decide_eq_true h2⟩
    · rw [List.mem_singleton.mp hr]
      exact ⟨hb, hpool, hst⟩
  refine ⟨distinctOnHeight (pending ++ [b]), ⟨fun r hr => ?_, nodup_distinctOnHeight _, ?_⟩,
    mem_distinctOnHeight_concat b pending⟩
  · exact hmem r ((distinctOnHeight_sublist _).subset hr)
  · intro r hr hp hs
    rw [height_mem_distinctOnHeight]
    refine List.mem_map_of_mem (List.mem_append_left _ (List.mem_filter.mpr ⟨hr, ?_⟩))
    exact decide_eq_true ⟨hp, hs⟩

end BlockRepository

/-! ## Shares -/

namespace ShareRepository

/-- `BatchInsertAsync`. -/
def batchInsertAsync (db : Database) (shares : List Share) : Database :=
  { db with shares := db.shares ++ shares }

/-- The shares of a pool, newest first. -/
def newestFirst (shares : List Share) (poolId : String) : List Share :=
  (shares.filter fun s => s.poolId = poolId).insertionSort fun a b => b.created ≤ a.created

/-- `ReadSharesBeforeCreatedAsync`: `created <= @before` when inclusive, else `created < @before`,
`ORDER BY created DESC FETCH NEXT (@pageSize) ROWS ONLY`. -/
def readSharesBeforeCreatedAsync (db : Database) (poolId : String) (before : DateTime)
    (inclusive : Bool) (pageSize : ℕ) : List Share :=
  ((db.shares.filter fun s => s.poolId = poolId ∧
      (if inclusive then s.created ≤ before else s.created < before))
    |>.insertionSort fun a b => b.created ≤ a.created).take pageSize

def countSharesBeforeCreatedAsync (db : Database) (poolId : String) (before : DateTime) : ℕ :=
  (db.shares.filter fun s => s.poolId = poolId ∧ s.created < before).length

def deleteSharesBeforeCreatedAsync (db : Database) (poolId : String) (before : DateTime) :
    Database :=
  { db with shares := db.shares.filter fun s => ¬ (s.poolId = poolId ∧ s.created < before) }

/-- `GetAccumulatedShareDifficultyBetweenCreatedAsync`: NULL over no rows. -/
def getAccumulatedShareDifficultyBetweenCreatedAsync (db : Database) (poolId : String)
    (start stop : DateTime) : Option ℚ :=
  let rows := db.shares.filter fun s =>
    s.poolId = poolId ∧ start < s.created ∧ s.created < stop
  if rows.isEmpty then none else some (rows.map Share.difficulty).sum

instance : Std.Total fun a b : Share => b.created ≤ a.created := ⟨fun _ _ => le_total _ _⟩
instance : IsTrans Share fun a b => b.created ≤ a.created := ⟨fun _ _ _ h h' => h'.trans h⟩

theorem newestFirst_pairwise (shares : List Share) (poolId : String) :
    (newestFirst shares poolId).Pairwise fun a b => b.created ≤ a.created :=
  List.pairwise_insertionSort _ _

/-- Selecting shares before sorting them is selecting them after. -/
theorem newestFirst_filter (shares : List Share) (poolId : String) (p : Share → Bool) :
    newestFirst (shares.filter p) poolId = (newestFirst shares poolId).filter p := by
  unfold newestFirst
  rw [Lib.PagedRead.filter_insertionSort, List.filter_filter, List.filter_filter]
  congr 2
  funext s
  rw [Bool.and_comm]

/-- A page is a page of the pool's shares, newest first. -/
theorem readSharesBeforeCreatedAsync_eq (db : Database) (poolId : String) (before : DateTime)
    (inclusive : Bool) (pageSize : ℕ) :
    readSharesBeforeCreatedAsync db poolId before inclusive pageSize =
      Lib.PagedRead.readBefore Share.created pageSize (newestFirst db.shares poolId) before
        inclusive := by
  unfold readSharesBeforeCreatedAsync Lib.PagedRead.readBefore newestFirst
  rw [Lib.PagedRead.filter_insertionSort, List.filter_filter]
  congr 3
  funext s
  unfold Lib.PagedRead.selects
  cases inclusive <;> simp [Bool.decide_and, Bool.and_comm]

end ShareRepository

/-! ## Balances -/

namespace BalanceRepository

/-- The row of a pool and address. -/
def find? (t : BalanceTable) (poolId address : String) : Option BalanceRow :=
  t.rows.find? fun r => r.key = (poolId, address)

/-- `UPDATE balances SET amount = amount + @amount`. -/
def increase (poolId address : String) (amount : ℚ) (r : BalanceRow) : BalanceRow :=
  if r.key = (poolId, address) then { r with amount := Fixed.store 12 (r.amount.value + amount) }
  else r

theorem increase_key (poolId address : String) (amount : ℚ) (r : BalanceRow) :
    (increase poolId address amount r).key = r.key := by
  unfold increase
  split <;> rfl

/-- The rows after the `INSERT` or the `UPDATE` of `AddAmountAsync`. -/
def upsertRows (poolId address : String) (amount : ℚ) (rows : List BalanceRow) :
    List BalanceRow :=
  if (poolId, address) ∈ rows.map BalanceRow.key then rows.map (increase poolId address amount)
  else rows ++ [⟨poolId, address, Fixed.store 12 amount⟩]

theorem key_upsertRows (poolId address : String) (amount : ℚ) (rows : List BalanceRow) :
    (upsertRows poolId address amount rows).map BalanceRow.key =
      if (poolId, address) ∈ rows.map BalanceRow.key then rows.map BalanceRow.key
      else rows.map BalanceRow.key ++ [(poolId, address)] := by
  unfold upsertRows
  split
  · rw [List.map_map]
    exact List.map_congr_left fun r _ => increase_key poolId address amount r
  · rw [List.map_append]
    rfl

def upsert (t : BalanceTable) (poolId address : String) (amount : ℚ) : BalanceTable where
  rows := upsertRows poolId address amount t.rows
  primaryKey := by
    rw [key_upsertRows]
    split
    · exact t.primaryKey
    · rename_i h
      rw [List.nodup_append]
      refine ⟨t.primaryKey, List.nodup_singleton _, ?_⟩
      intro k hk k' hk'
      rw [List.mem_singleton.mp hk']
      exact fun e => h (e ▸ hk)

/-- `AddAmountAsync`: record the change, then insert or update the balance. -/
def addAmountAsync (db : Database) (poolId address : String) (amount : ℚ) : Database :=
  { db with
    balanceChanges := db.balanceChanges ++ [⟨poolId, address, Fixed.store 12 amount⟩]
    balances := upsert db.balances poolId address amount }

/-- The stored balance, zero without a row. -/
def balanceOf (db : Database) (poolId address : String) : ℚ :=
  match find? db.balances poolId address with
  | none => 0
  | some r => r.amount.value

/-- `GetPoolBalancesOverThresholdAsync`. -/
def getPoolBalancesOverThresholdAsync (db : Database) (poolId : String) (minimum : ℚ) :
    List Balance :=
  (db.balances.rows.filter fun r => r.poolId = poolId ∧ minimum ≤ r.amount.value).map fun r =>
    ⟨r.poolId, r.address, r.amount⟩

theorem find?_of_mem {t : BalanceTable} {r : BalanceRow} (hr : r ∈ t.rows) :
    find? t r.poolId r.address = some r := by
  have hnd := t.primaryKey
  unfold find?
  revert hr hnd
  induction t.rows with
  | nil => intro hr; exact absurd hr List.not_mem_nil
  | cons a as ih =>
    intro hr hnd
    rw [List.map_cons, List.nodup_cons] at hnd
    rcases List.mem_cons.mp hr with rfl | hr'
    · simp [List.find?, BalanceRow.key]
    · have hne : a.key ≠ (r.poolId, r.address) := fun h => hnd.1 (h ▸ List.mem_map_of_mem hr')
      rw [List.find?_cons_of_neg (by simpa using hne)]
      exact ih hr' hnd.2

theorem key_of_find? {t : BalanceTable} {p a : String} {r : BalanceRow}
    (h : find? t p a = some r) : r.key = (p, a) := by
  have := List.find?_some h
  exact of_decide_eq_true this

theorem find?_eq_none_iff {t : BalanceTable} {p a : String} :
    find? t p a = none ↔ (p, a) ∉ t.rows.map BalanceRow.key := by
  unfold find?
  rw [List.find?_eq_none, List.mem_map]
  constructor
  · rintro h ⟨r, hr, hk⟩
    exact h r hr (decide_eq_true hk)
  · intro h r hr hk
    exact h ⟨r, hr, of_decide_eq_true hk⟩

/-- The lookup after an increase is the increase of the lookup. -/
theorem find?_map_increase (t : BalanceTable) (p a p' a' : String) (amount : ℚ) :
    (t.rows.map (increase p a amount)).find? (fun r => r.key = (p', a')) =
      (find? t p' a').map (increase p a amount) := by
  rw [List.find?_map]
  congr 1
  unfold find?
  congr 1
  funext r
  simp only [Function.comp, increase_key]

theorem find?_upsert_of_ne {t : BalanceTable} {p a p' a' : String} {amount : ℚ}
    (h : (p', a') ≠ (p, a)) : find? (upsert t p a amount) p' a' = find? t p' a' := by
  unfold upsert upsertRows
  split
  · rw [find?, find?_map_increase]
    cases hf : find? t p' a' with
    | none => rfl
    | some r => rw [Option.map_some, increase, if_neg (by rw [key_of_find? hf]; exact h)]
  · unfold find?
    rw [List.find?_append]
    simp [BalanceRow.key, List.find?, Ne.symm h]

theorem find?_upsert_self (t : BalanceTable) (p a : String) (amount : ℚ) :
    find? (upsert t p a amount) p a = some ⟨p, a, match find? t p a with
      | none => Fixed.store 12 amount
      | some r => Fixed.store 12 (r.amount.value + amount)⟩ := by
  unfold upsert upsertRows
  split
  · rename_i h
    rw [find?, find?_map_increase]
    cases hf : find? t p a with
    | none => exact absurd h (find?_eq_none_iff.mp hf)
    | some r =>
      have hk := key_of_find? hf
      rw [Option.map_some, increase, if_pos hk]
      obtain ⟨rfl, rfl⟩ := Prod.mk.inj hk
      rfl
  · rename_i h
    have hf := find?_eq_none_iff.mpr h
    rw [hf]
    unfold find? at hf ⊢
    rw [List.find?_append, hf]
    simp [List.find?, BalanceRow.key]

/-- **What an addition does to each balance.** -/
theorem balanceOf_addAmountAsync (db : Database) (p a p' a' : String) (amount : ℚ) :
    balanceOf (addAmountAsync db p a amount) p' a' =
      if (p', a') = (p, a) then (Fixed.store 12 (balanceOf db p a + amount)).value
      else balanceOf db p' a' := by
  unfold balanceOf addAmountAsync
  simp only
  split_ifs with h
  · obtain ⟨rfl, rfl⟩ := Prod.mk.inj h
    rw [find?_upsert_self]
    cases find? db.balances p' a' with
    | none => rw [zero_add]
    | some r => rfl
  · rw [find?_upsert_of_ne h]

/-- A stored balance is a column value. -/
theorem balanceOf_eq_value (db : Database) (p a : String) :
    ∃ f : Amount, balanceOf db p a = f.value := by
  unfold balanceOf
  split
  · exact ⟨⟨0⟩, by simp [Fixed.value]⟩
  · rename_i r _
    exact ⟨r.amount, rfl⟩

/-- The payout selects the balances of the pool's rows from the minimum on. -/
theorem mem_getPoolBalancesOverThresholdAsync {db : Database} {poolId : String} {minimum : ℚ}
    {b : Balance} (h : b ∈ getPoolBalancesOverThresholdAsync db poolId minimum) :
    b.poolId = poolId ∧ minimum ≤ b.amount.value ∧
      balanceOf db poolId b.address = b.amount.value := by
  obtain ⟨r, hr, rfl⟩ := List.mem_map.mp h
  obtain ⟨hmem, hp⟩ := List.mem_filter.mp hr
  obtain ⟨rfl, hmin⟩ := of_decide_eq_true hp
  refine ⟨rfl, hmin, ?_⟩
  unfold balanceOf
  rw [find?_of_mem hmem]

/-- It selects an address once. -/
theorem nodup_getPoolBalancesOverThresholdAsync (db : Database) (poolId : String) (minimum : ℚ) :
    ((getPoolBalancesOverThresholdAsync db poolId minimum).map Balance.address).Nodup := by
  unfold getPoolBalancesOverThresholdAsync
  rw [List.map_map]
  have hkeys := db.balances.primaryKey.sublist
    ((List.filter_sublist (p := fun r => decide (r.poolId = poolId ∧ minimum ≤ r.amount.value))).map
      BalanceRow.key)
  refine List.Nodup.map_on ?_ hkeys.of_map
  intro r hr s hs hrs
  obtain ⟨hr', hrp⟩ := List.mem_filter.mp hr
  obtain ⟨hs', hsp⟩ := List.mem_filter.mp hs
  have hpool : r.poolId = s.poolId :=
    (of_decide_eq_true hrp).1.trans (of_decide_eq_true hsp).1.symm
  have haddr : r.address = s.address := hrs
  have h := find?_of_mem hr'
  rw [hpool, haddr, find?_of_mem hs'] at h
  exact (Option.some.inj h).symm

end BalanceRepository

/-! ## Payments -/

/-- `PaymentRepository.InsertAsync`. -/
def PaymentRepository.insertAsync (db : Database) (payment : Payment) : Database :=
  { db with payments := db.payments ++ [payment] }

end AionPool.Persistence
