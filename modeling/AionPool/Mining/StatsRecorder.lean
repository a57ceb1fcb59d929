import AionPool.Lib.Rounded
import AionPool.Persistence.Repositories

/-!
# Hashrates

`StatsRecorder.UpdatePoolHashratesAsync`: once a minute, for each pool, the shares of the last ten
minutes are aggregated by miner and worker, and the statistics are inserted.

* `getHashAccumulationBetweenCreatedAsync`: the aggregates of a window.
* `updatePool`: what a pass does for one pool. The pool's row is inserted first; the hashrates of
  the workers are computed and inserted after it, and their sum becomes the pool's hashrate. A pool
  whose window is empty is left after its row.
* **`updatePool_poolHashrate`**, **`updatePool_row`**: the pool's hashrate after a pass, and the one
  in its row, which is the hashrate from before the pass.
* **`recorded_iff_lasts`**: both are the total of the rows of the pass exactly if the total is the
  one from before.

A pass in which every statement succeeds is modelled. The arithmetic is that of binary64 with any
rounding.

Models `StatsRecorder.cs:132-233`, `ShareRepository.cs:189-199` and `AionPool.cs:447-451`.
-/

namespace AionPool.Mining.StatsRecorder

open AionPool.Lib.Binary64 (Double roundHalfEven roundHalfEven_mono roundHalfEven_intCast)
open AionPool.Persistence

/-! ## Numbers -/

/-- The rounding of binary64, and the casts of values that are out of range. -/
structure Runtime where
  round : ℚ → Double
  ulong : Double → UInt64
  int : Double → Int32

variable (rt : Runtime)

/-- `(ulong)`. -/
def Runtime.toULong : Double → UInt64
  | .fin q => if -1 < q ∧ q < 2 ^ 64 then .ofNat ⌊q⌋.toNat else rt.ulong (.fin q)
  | x => rt.ulong x

/-- `(int)`. -/
def Runtime.toInt : Double → Int32
  | .fin q => if -2 ^ 31 - 1 < q ∧ q < 2 ^ 31
      then .ofInt (if 0 ≤ q then ⌊q⌋ else ⌈q⌉) else rt.int (.fin q)
  | x => rt.int x

/-- `(float)` of a `ulong`: 24 bits, ties to even. -/
def toSingle (n : UInt64) : ℚ :=
  let place : ℚ := 2 ^ (n.toNat.log2 - 23)
  roundHalfEven (n.toNat / place) * place

/-! ## Aggregates -/

/-- `MinerWorkerHashes`. -/
structure MinerWorkerHashes where
  sum : Double
  count : ℕ
  miner : String
  worker : Option String
  firstShare : DateTime
  lastShare : DateTime

/-- `GroupBy`: the groups in the order of their first elements. -/
def groupBy {α K : Type} [DecidableEq K] (key : α → K) (xs : List α) : List (K × List α) :=
  (xs.map key).eraseDups.map fun k => (k, xs.filter fun x => key x = k)

def earliest (times : List DateTime) : DateTime := times.min?.getD 0

def latest (times : List DateTime) : DateTime := times.max?.getD 0

/-- `GetHashAccumulationBetweenCreatedAsync`. -/
def getHashAccumulationBetweenCreatedAsync (db : Database) (poolId : String)
    (start «end» : DateTime) : List MinerWorkerHashes :=
  let shares := db.shares.filter fun s =>
    s.poolId = poolId ∧ start ≤ s.created ∧ s.created ≤ «end»
  (groupBy (fun s => (s.miner, s.worker)) shares).map fun g =>
    { sum := .sum rt.round (g.2.map fun s => .fin s.difficulty)
      count := g.2.length
      miner := g.1.1
      worker := g.1.2
      firstShare := earliest (g.2.map (·.created))
      lastShare := latest (g.2.map (·.created)) }

/-! ## Pools -/

/-- `Mining.PoolStats`. -/
structure PoolStats where
  connectedMiners : Int32
  poolHashrate : UInt64
  sharesPerSecond : Int32

/-- What is read of `BlockchainStats`. -/
structure BlockchainStats where
  networkHashrate : Double
  networkDifficulty : Double
  lastNetworkBlockTime : Option DateTime
  blockHeight : UInt64
  connectedPeers : Int32

/-- An `IMiningPool`, by the id of its configuration. -/
structure MiningPool where
  id : String
  poolStats : PoolStats
  networkStats : BlockchainStats

/-- The attached pools: one for an id. -/
structure Pools where
  entries : List MiningPool
  nodup : (entries.map MiningPool.id).Nodup

/-- A row of `poolstats`. -/
structure PoolStatsRow where
  poolId : String
  connectedMiners : Int32
  poolHashrate : ℚ
  networkHashrate : Double
  networkDifficulty : Double
  lastNetworkBlockTime : Option DateTime
  blockHeight : Int64
  connectedPeers : Int32
  sharesPerSecond : Int32
  created : DateTime

/-- A row of `minerstats`. -/
structure MinerStatsRow where
  poolId : String
  miner : String
  worker : String
  hashrate : Double
  sharesPerSecond : Double
  created : DateTime

/-- `HashrateNotification`. -/
structure HashrateNotification where
  poolId : String
  hashrate : Double
  miner : Option String
  worker : Option String

/-- `Map<PoolStats>` of the pool's statistics and the network's. -/
def toRow (created : DateTime) (pool : MiningPool) : PoolStatsRow where
  poolId := pool.id
  connectedMiners := pool.poolStats.connectedMiners
  poolHashrate := toSingle pool.poolStats.poolHashrate
  networkHashrate := pool.networkStats.networkHashrate
  networkDifficulty := pool.networkStats.networkDifficulty
  lastNetworkBlockTime := pool.networkStats.lastNetworkBlockTime
  blockHeight := pool.networkStats.blockHeight.toInt64
  connectedPeers := pool.networkStats.connectedPeers
  sharesPerSecond := pool.poolStats.sharesPerSecond
  created := created

/-! ## A pass -/

def ticksPerSecond : ℕ := 10000000

def hashrateCalculationWindow : ℕ := 600

def minHashrateCalculationWindow : Double := .fin 300

def hashrateBoostFactor : Double := rt.round (11 / 10)

/-- `windowActual`: the seconds between the first share of the rows and the last. -/
def windowActual (items : List MinerWorkerHashes) : Double :=
  rt.round (((latest (items.map (·.lastShare)) : ℚ) - earliest (items.map (·.firstShare))) /
    ticksPerSecond)

/-- `HashrateFromShares` of the Aion pool. -/
def hashrateFromShares (shares interval : Double) : Double := .quot rt.round shares interval

/-- The statistics of the pool's miners, for a window that is not empty. -/
def calculatePoolStats (result : List MinerWorkerHashes) (stats : PoolStats) : PoolStats :=
  let window := windowActual rt result
  if result.length > 0 ∧ Double.le minHashrateCalculationWindow window then
    { stats with
      connectedMiners := .ofNat (groupBy MinerWorkerHashes.miner result).length
      sharesPerSecond :=
        rt.toInt (.quot rt.round (rt.round (result.map (·.count)).sum) window) }
  else stats

/-- The loops over the miners and their workers. -/
structure Loop where
  poolHashRate : Double
  minerTotalHashrate : Double
  pool : MiningPool
  minerStats : List MinerStatsRow
  notifications : List HashrateNotification

/-- The hashrate of a worker, `items` being the rows of its miner. -/
def hashrate (items : List MinerWorkerHashes) (item : MinerWorkerHashes) : Double :=
  .mul rt.round (hashrateFromShares rt item.sum (windowActual rt items)) (hashrateBoostFactor rt)

/-- The body of the loop over the workers of a miner. -/
def updateWorker (created : DateTime) (miner : String) (items : List MinerWorkerHashes) (s : Loop)
    (item : MinerWorkerHashes) : Loop :=
  let window := windowActual rt items
  if Double.le minHashrateCalculationWindow window then
    let hashrate := hashrate rt items item
    { s with
      minerTotalHashrate := .add rt.round s.minerTotalHashrate hashrate
      poolHashRate := .add rt.round s.poolHashRate hashrate
      minerStats := s.minerStats ++ [{
        poolId := s.pool.id
        miner := miner
        worker := item.worker.getD ""
        hashrate := hashrate
        sharesPerSecond := .quot rt.round (rt.round item.count) window
        created := created }]
      notifications := s.notifications ++ [⟨s.pool.id, hashrate, some miner, item.worker⟩] }
  else s

/-- The body of the loop over the miners. The pool's hashrate is assigned in each round. -/
def updateMiner (created : DateTime) (s : Loop) (minerHashes : String × List MinerWorkerHashes) :
    Loop :=
  let s := minerHashes.2.foldl (updateWorker rt created minerHashes.1 minerHashes.2)
    { s with minerTotalHashrate := .fin 0 }
  { s with
    pool := { s.pool with poolStats := { s.pool.poolStats with
      poolHashrate := rt.toULong (.ceil s.poolHashRate) } }
    notifications := s.notifications ++
      [⟨s.pool.id, s.minerTotalHashrate, some minerHashes.1, none⟩,
        ⟨s.pool.id, s.poolHashRate, none, none⟩] }

/-- The loop over the miners of a window. -/
def updateMiners (created : DateTime) (result : List MinerWorkerHashes) (pool : MiningPool) :
    Loop :=
  (groupBy MinerWorkerHashes.miner result).foldl (updateMiner rt created)
    ⟨.fin 0, .fin 0, pool, [], []⟩

/-- What a pass does for one pool. -/
structure Turn where
  pool : MiningPool
  row : PoolStatsRow
  minerStats : List MinerStatsRow
  notifications : List HashrateNotification

/-- The turn of a pool, of the aggregates of its window. -/
def updatePool (created : DateTime) (result : List MinerWorkerHashes) (pool : MiningPool) : Turn :=
  let pool := { pool with poolStats := calculatePoolStats rt result pool.poolStats }
  let row := toRow created pool
  if result.length = 0 then ⟨pool, row, [], []⟩
  else
    let s := updateMiners rt created result pool
    ⟨s.pool, row, s.minerStats, s.notifications⟩

/-- What a pass leaves: the pools, and what it has inserted and sent. -/
structure Pass where
  pools : List MiningPool
  poolStats : List PoolStatsRow
  minerStats : List MinerStatsRow
  notifications : List HashrateNotification

/-- `UpdatePoolHashratesAsync`, with `read` for `GetHashAccumulationBetweenCreatedAsync`. -/
def updatePoolHashratesAsync (read : String → DateTime → DateTime → List MinerWorkerHashes)
    (start : DateTime) (pools : Pools) : Pass :=
  let target := start - hashrateCalculationWindow * ticksPerSecond
  let turns := pools.entries.map fun pool =>
    updatePool rt start (read pool.id target start) pool
  { pools := turns.map Turn.pool
    poolStats := turns.map Turn.row
    minerStats := turns.flatMap Turn.minerStats
    notifications := turns.flatMap Turn.notifications }

/-! ## Groups -/

theorem groupBy_eq_nil_iff {α K : Type} [DecidableEq K] {key : α → K} {xs : List α} :
    groupBy key xs = [] ↔ xs = [] := by
  unfold groupBy
  rw [List.map_eq_nil_iff]
  cases xs with
  | nil => exact ⟨fun _ => rfl, fun _ => rfl⟩
  | cons x xs =>
    rw [List.map_cons, List.eraseDups_cons]
    exact ⟨nofun, nofun⟩

/-! ## The loops -/

/-- The hashrates of the workers of a miner: none when its window is too short. -/
def rates (items : List MinerWorkerHashes) : List Double :=
  if Double.le minHashrateCalculationWindow (windowActual rt items) then
    items.map (hashrate rt items) else []

/-- The total hashrate of a window. -/
def windowHashrate (result : List MinerWorkerHashes) : Double :=
  .sum rt.round ((groupBy MinerWorkerHashes.miner result).flatMap fun g => rates rt g.2)

/-- What the loops keep: the pool's hashrate is the sum of the rows, which are the pool's. -/
structure Loop.Sums (s : Loop) : Prop where
  total : s.poolHashRate = .sum rt.round (s.minerStats.map MinerStatsRow.hashrate)
  poolId : ∀ row ∈ s.minerStats, row.poolId = s.pool.id

variable {rt} {created : DateTime} {miner : String} {items : List MinerWorkerHashes} {s : Loop}

/-- The body inserts a row for the worker, or nothing. -/
theorem minerStats_updateWorker (item : MinerWorkerHashes) :
    (updateWorker rt created miner items s item).minerStats.map MinerStatsRow.hashrate =
      s.minerStats.map MinerStatsRow.hashrate ++
        if Double.le minHashrateCalculationWindow (windowActual rt items) then
          [hashrate rt items item] else [] := by
  unfold updateWorker
  dsimp only
  split
  · rw [List.map_append]
    rfl
  · exact (List.append_nil _).symm

theorem pool_updateWorker (item : MinerWorkerHashes) :
    (updateWorker rt created miner items s item).pool = s.pool := by
  unfold updateWorker
  dsimp only
  split <;> rfl

theorem Loop.Sums.updateWorker (h : s.Sums rt) (item : MinerWorkerHashes) :
    (updateWorker rt created miner items s item).Sums rt := by
  unfold StatsRecorder.updateWorker
  dsimp only
  split
  · refine ⟨?_, fun row hrow => ?_⟩
    · dsimp only
      rw [h.total, List.map_append, List.map_singleton, Double.sum_concat]
    · dsimp only at hrow ⊢
      rcases List.mem_append.mp hrow with hrow | hrow
      · exact h.poolId row hrow
      · rw [List.mem_singleton.mp hrow]
  · exact h

variable (created miner items) in
/-- The loop over the workers. -/
theorem foldl_updateWorker (workers : List MinerWorkerHashes) (h : s.Sums rt) :
    let s' := workers.foldl (updateWorker rt created miner items) s
    s'.Sums rt ∧ s'.pool = s.pool ∧
      s'.minerStats.map MinerStatsRow.hashrate = s.minerStats.map MinerStatsRow.hashrate ++
        if Double.le minHashrateCalculationWindow (windowActual rt items) then
          workers.map (hashrate rt items) else [] := by
  induction workers generalizing s with
  | nil => exact ⟨h, rfl, by simp⟩
  | cons item workers ih =>
    obtain ⟨hsums, hpool, hrows⟩ := ih (h.updateWorker item)
    refine ⟨hsums, hpool.trans (pool_updateWorker item), hrows.trans ?_⟩
    rw [minerStats_updateWorker, List.append_assoc]
    split <;> rfl

/-- The pool with another hashrate. -/
def MiningPool.withHashrate (pool : MiningPool) (hashrate : UInt64) : MiningPool :=
  { pool with poolStats := { pool.poolStats with poolHashrate := hashrate } }

variable (created) in
/-- A round of the loop over the miners. -/
theorem updateMiner_spec (h : s.Sums rt) (g : String × List MinerWorkerHashes) :
    let s' := updateMiner rt created s g
    s'.Sums rt ∧ s'.pool = s.pool.withHashrate (rt.toULong (.ceil s'.poolHashRate)) ∧
      s'.minerStats.map MinerStatsRow.hashrate =
        s.minerStats.map MinerStatsRow.hashrate ++ rates rt g.2 := by
  have hstart : Loop.Sums rt { s with minerTotalHashrate := .fin 0 } := ⟨h.total, h.poolId⟩
  obtain ⟨hsums, hpool, hrows⟩ := foldl_updateWorker created g.1 g.2 g.2 hstart
  exact ⟨⟨hsums.total, hsums.poolId⟩, congrArg (MiningPool.withHashrate · _) hpool, hrows⟩

variable (created) in
/-- The loop over the miners: the pool's hashrate is the one of the last round. -/
theorem foldl_updateMiner {groups : List (String × List MinerWorkerHashes)} (hne : groups ≠ [])
    (h : s.Sums rt) :
    let s' := groups.foldl (updateMiner rt created) s
    s'.Sums rt ∧ s'.pool = s.pool.withHashrate (rt.toULong (.ceil s'.poolHashRate)) ∧
      s'.minerStats.map MinerStatsRow.hashrate =
        s.minerStats.map MinerStatsRow.hashrate ++ groups.flatMap fun g => rates rt g.2 := by
  induction groups generalizing s with
  | nil => exact absurd rfl hne
  | cons g groups ih =>
    obtain ⟨hsums, hpool, hrows⟩ := updateMiner_spec created h g
    rw [List.foldl_cons, List.flatMap_cons, ← List.append_assoc, ← hrows]
    by_cases hnil : groups = []
    · subst hnil
      exact ⟨hsums, hpool, (List.append_nil _).symm⟩
    · obtain ⟨hsums', hpool', hrows'⟩ := ih hnil hsums
      refine ⟨hsums', ?_, hrows'⟩
      rw [hpool', hpool]
      rfl

/-! ## The turn of a pool -/

variable (rt created) (result : List MinerWorkerHashes) (pool : MiningPool)

/-- The loops over a window that is not empty. -/
theorem updateMiners_spec (h : result ≠ []) :
    let s := updateMiners rt created result pool
    s.Sums rt ∧ s.pool = pool.withHashrate (rt.toULong (.ceil (windowHashrate rt result))) ∧
      .sum rt.round (s.minerStats.map MinerStatsRow.hashrate) = windowHashrate rt result := by
  have hstart : Loop.Sums rt ⟨.fin 0, .fin 0, pool, [], []⟩ := ⟨rfl, nofun⟩
  obtain ⟨hsums, hpool, hrows⟩ := foldl_updateMiner created
    (mt groupBy_eq_nil_iff.mp h) hstart
  have htotal := congrArg (Double.sum rt.round) hrows
  exact ⟨hsums, hpool.trans (by rw [hsums.total, htotal]; rfl), htotal⟩

/-- The pool after the statistics of its miners. -/
def counted : MiningPool :=
  { pool with poolStats := calculatePoolStats rt result pool.poolStats }

theorem updatePool_of_ne_nil (h : result ≠ []) :
    updatePool rt created result pool =
      let s := updateMiners rt created result (counted rt result pool)
      ⟨s.pool, toRow created (counted rt result pool), s.minerStats, s.notifications⟩ :=
  if_neg (mt List.length_eq_zero_iff.mp h)

/-- The statistics of the miners leave the hashrate as it is. -/
theorem calculatePoolStats_poolHashrate (stats : PoolStats) :
    (calculatePoolStats rt result stats).poolHashrate = stats.poolHashrate := by
  unfold calculatePoolStats
  dsimp only
  split <;> rfl

theorem updatePool_id :
    (updatePool rt created result pool).pool.id = pool.id ∧
      (updatePool rt created result pool).row.poolId = pool.id ∧
      ∀ row ∈ (updatePool rt created result pool).minerStats, row.poolId = pool.id := by
  by_cases h : result = []
  · subst h
    exact ⟨rfl, rfl, nofun⟩
  · obtain ⟨hsums, hpool, -⟩ := updateMiners_spec rt created result (counted rt result pool) h
    have hid := congrArg MiningPool.id hpool
    rw [updatePool_of_ne_nil rt created result pool h]
    exact ⟨hid, rfl, fun row hrow => (hsums.poolId row hrow).trans hid⟩

/-- The rows of a turn add up to the hashrate of the window. -/
theorem updatePool_minerStats :
    .sum rt.round ((updatePool rt created result pool).minerStats.map MinerStatsRow.hashrate) =
      windowHashrate rt result := by
  by_cases h : result = []
  · subst h
    rfl
  · rw [updatePool_of_ne_nil rt created result pool h]
    exact (updateMiners_spec rt created result (counted rt result pool) h).2.2

/-- **The pool's hashrate after a pass**: the one of the window, or the one from before. -/
theorem updatePool_poolHashrate :
    (updatePool rt created result pool).pool.poolStats.poolHashrate =
      if result = [] then pool.poolStats.poolHashrate
      else rt.toULong (.ceil (windowHashrate rt result)) := by
  by_cases h : result = []
  · subst h
    rfl
  · have hpool := (updateMiners_spec rt created result (counted rt result pool) h).2.1
    rw [if_neg h, updatePool_of_ne_nil rt created result pool h]
    exact congrArg (fun pool => pool.poolStats.poolHashrate) hpool

/-- **The hashrate in the pool's row** is the one from before the pass. -/
theorem updatePool_row :
    (updatePool rt created result pool).row.poolHashrate =
      toSingle pool.poolStats.poolHashrate := by
  by_cases h : result = []
  · subst h
    rfl
  · rw [updatePool_of_ne_nil rt created result pool h]
    exact congrArg toSingle (calculatePoolStats_poolHashrate rt result pool.poolStats)

/-! ## Single precision -/

theorem toSingle_eq_zero_iff {n : UInt64} : toSingle n = 0 ↔ n = 0 := by
  constructor
  · intro h
    by_contra hn
    have hpos : n.toNat ≠ 0 := fun h0 => hn (UInt64.toNat_inj.mp (by rw [h0]; rfl))
    have hplace : (0 : ℚ) < 2 ^ (n.toNat.log2 - 23) := pow_pos (by norm_num) _
    have hle : (2 : ℚ) ^ (n.toNat.log2 - 23) ≤ n.toNat := by
      have hlog : 2 ^ (n.toNat.log2 - 23) ≤ n.toNat :=
        (Nat.pow_le_pow_right (by norm_num) (Nat.sub_le _ _)).trans (Nat.log2_self_le hpos)
      exact_mod_cast hlog
    have hone : (1 : ℤ) ≤ roundHalfEven (n.toNat / 2 ^ (n.toNat.log2 - 23)) := by
      have hmono := roundHalfEven_mono ((one_le_div hplace).mpr hle)
      rwa [← Int.cast_one, roundHalfEven_intCast] at hmono
    rcases mul_eq_zero.mp h with h | h
    · rw [Int.cast_eq_zero] at h
      omega
    · exact hplace.ne' h
  · rintro rfl
    unfold toSingle
    simpa using roundHalfEven_intCast 0

theorem toSingle_nonneg (n : UInt64) : 0 ≤ toSingle n := by
  have hplace : (0 : ℚ) < 2 ^ (n.toNat.log2 - 23) := pow_pos (by norm_num) _
  have hmono := roundHalfEven_mono (div_nonneg n.toNat.cast_nonneg hplace.le)
  rw [← Int.cast_zero, roundHalfEven_intCast] at hmono
  exact mul_nonneg (Int.cast_nonneg hmono) hplace.le

/-- A value of `ceil` that is a number is an integer. -/
theorem exists_nat_of_ceil {x : Double} {q : ℚ} (h : x.ceil = .fin q) (hq : 0 ≤ q) :
    ∃ n : ℕ, q = n := by
  cases x with
  | nan => exact nomatch h
  | inf s => exact nomatch h
  | fin p =>
    obtain rfl : (⌈p⌉ : ℚ) = q := Double.fin.inj h
    exact ⟨⌈p⌉.toNat, by rw [← Int.cast_natCast, Int.toNat_of_nonneg (Int.cast_nonneg_iff.mp hq)]⟩

theorem toNat_toULong {n : ℕ} (h : (n : ℚ) < 2 ^ 64) : (rt.toULong (.fin n)).toNat = n := by
  have hneg : (-1 : ℚ) < n := lt_of_lt_of_le (by norm_num) n.cast_nonneg
  have hlt : n < 2 ^ 64 := by exact_mod_cast h
  unfold Runtime.toULong
  dsimp only
  rw [if_pos ⟨hneg, h⟩, Int.floor_natCast, Int.toNat_natCast]
  exact UInt64.toNat_ofNat_of_lt hlt

/-! ## Recorded totals -/

/-- The rows of `minerstats` that a pass has inserted for a pool, added up. -/
def Pass.total (pass : Pass) (poolId : String) : Double :=
  .sum rt.round ((pass.minerStats.filter fun row => row.poolId = poolId).map MinerStatsRow.hashrate)

/-- The pool's hashrate, and the one of the row inserted for it, are the ceiling of the total of the
rows of its workers. -/
structure Recorded (pass : Pass) (poolId : String) : Prop where
  pool : ∀ pool ∈ pass.pools, pool.id = poolId →
    .fin pool.poolStats.poolHashrate.toNat = Double.ceil (pass.total rt poolId)
  row : ∃ row, (pass.poolStats.filter fun row => row.poolId = poolId) = [row] ∧
    .fin row.poolHashrate = Double.ceil (pass.total rt poolId)

/-- The hashrate of the window, rounded up, is the one the pool already has, as its row reads it. -/
def Lasts (hashrate : UInt64) (result : List MinerWorkerHashes) : Prop :=
  Double.ceil (windowHashrate rt result) = .fin (toSingle hashrate) ∧ toSingle hashrate < 2 ^ 64

theorem poolHashrate_of_lasts (h : Lasts rt pool.poolStats.poolHashrate result) :
    .fin (updatePool rt created result pool).pool.poolStats.poolHashrate.toNat =
      Double.ceil (windowHashrate rt result) := by
  obtain ⟨hceil, hlt⟩ := h
  rw [updatePool_poolHashrate]
  by_cases hnil : result = []
  · subst hnil
    have hzero : (0 : ℚ) = toSingle pool.poolStats.poolHashrate :=
      Double.fin.inj ((congrArg Double.fin (by simp)).trans hceil)
    rw [if_pos rfl, hceil, ← hzero, toSingle_eq_zero_iff.mp hzero.symm]
    rfl
  · obtain ⟨n, hn⟩ := exists_nat_of_ceil hceil (toSingle_nonneg _)
    rw [hn] at hlt
    rw [if_neg hnil, hceil, hn, toNat_toULong rt hlt]

/-- Of the rows of several turns, those under the key of one are its own. -/
theorem filter_flatMap {α β K : Type} [DecidableEq K] {key : α → K} {f : α → List β} {g : β → K}
    (hkey : ∀ a, ∀ b ∈ f a, g b = key a) {as : List α} (hnodup : (as.map key).Nodup) {a : α}
    (ha : a ∈ as) : ((as.flatMap f).filter fun b => g b = key a) = f a := by
  have hother : ∀ bs : List α, key a ∉ bs.map key →
      ((bs.flatMap f).filter fun b => g b = key a) = [] := by
    intro bs hnot
    rw [List.filter_eq_nil_iff]
    intro b hb heq
    obtain ⟨c, hc, hbc⟩ := List.mem_flatMap.mp hb
    exact hnot (List.mem_map.mpr ⟨c, hc, (hkey c b hbc).symm.trans (of_decide_eq_true heq)⟩)
  induction as with
  | nil => exact nomatch ha
  | cons c cs ih =>
    obtain ⟨hc, hcs⟩ := List.nodup_cons.mp hnodup
    rw [List.flatMap_cons, List.filter_append]
    rcases List.mem_cons.mp ha with rfl | ha
    · rw [hother cs hc, List.append_nil, List.filter_eq_self]
      exact fun b hb => decide_eq_true (hkey a b hb)
    · have hne : key c ≠ key a := fun h => hc (h ▸ List.mem_map_of_mem ha)
      have hnil : ((f c).filter fun b => g b = key a) = [] := List.filter_eq_nil_iff.mpr
        fun b hb heq => hne ((hkey c b hb).symm.trans (of_decide_eq_true heq))
      rw [hnil, List.nil_append, ih hcs ha]

section Pass

variable (read : String → DateTime → DateTime → List MinerWorkerHashes) (start : DateTime)
variable (pools : Pools) {pool : MiningPool}

/-- The start of the window of a pass. -/
def windowStart : DateTime := start - hashrateCalculationWindow * ticksPerSecond

/-- The turn of a pool in a pass. -/
def turn (pool : MiningPool) : Turn :=
  updatePool rt start (read pool.id (windowStart start) start) pool

theorem updatePoolHashratesAsync_minerStats :
    (updatePoolHashratesAsync rt read start pools).minerStats =
      pools.entries.flatMap fun pool => (turn rt read start pool).minerStats :=
  List.flatMap_map _ _ _

theorem updatePoolHashratesAsync_poolStats :
    (updatePoolHashratesAsync rt read start pools).poolStats =
      pools.entries.flatMap fun pool => [(turn rt read start pool).row] := by
  rw [← List.map_eq_flatMap]
  exact List.map_map

theorem mem_pools_updatePoolHashratesAsync {pool' : MiningPool} :
    pool' ∈ (updatePoolHashratesAsync rt read start pools).pools ↔
      ∃ pool ∈ pools.entries, (turn rt read start pool).pool = pool' := by
  unfold updatePoolHashratesAsync
  dsimp only
  rw [List.map_map, List.mem_map]
  rfl

/-- The rows of a pass for a pool are those of its turn. -/
theorem total_updatePoolHashratesAsync (hpool : pool ∈ pools.entries) :
    (updatePoolHashratesAsync rt read start pools).total rt pool.id =
      windowHashrate rt (read pool.id (windowStart start) start) := by
  have hfilter := filter_flatMap
    (f := fun pool => (turn rt read start pool).minerStats) (g := MinerStatsRow.poolId)
    (fun pool => (updatePool_id rt start (read pool.id (windowStart start) start) pool).2.2)
    pools.nodup hpool
  unfold Pass.total
  rw [updatePoolHashratesAsync_minerStats, hfilter]
  exact updatePool_minerStats rt start _ pool

theorem poolStats_of_pool (hpool : pool ∈ pools.entries) :
    ((updatePoolHashratesAsync rt read start pools).poolStats.filter fun row =>
      row.poolId = pool.id) = [(turn rt read start pool).row] := by
  rw [updatePoolHashratesAsync_poolStats]
  refine filter_flatMap (fun pool row hrow => ?_) pools.nodup hpool
  rw [List.mem_singleton.mp hrow]
  exact (updatePool_id rt start (read pool.id (windowStart start) start) pool).2.1

/-- A pass leaves one pool for an id. -/
theorem nodup_pools_updatePoolHashratesAsync :
    ((updatePoolHashratesAsync rt read start pools).pools.map MiningPool.id).Nodup := by
  have hids : (updatePoolHashratesAsync rt read start pools).pools.map MiningPool.id =
      pools.entries.map MiningPool.id := by
    unfold updatePoolHashratesAsync
    dsimp only
    rw [List.map_map, List.map_map]
    exact List.map_congr_left fun pool _ => (updatePool_id rt start _ pool).1
  rw [hids]
  exact pools.nodup

/-- Two pools of one id are the same. -/
theorem Pools.eq_of_id {pool' : MiningPool} (hpool : pool ∈ pools.entries)
    (hpool' : pool' ∈ pools.entries) (h : pool'.id = pool.id) : pool' = pool :=
  List.inj_on_of_nodup_map pools.nodup hpool' hpool h

/-- **The rows of a pass add up to the pool's hashrate and to the one in its row exactly if the
total is the one from before**, for any pools and whatever the window of each returns. -/
theorem recorded_iff_lasts (hpool : pool ∈ pools.entries) :
    Recorded rt (updatePoolHashratesAsync rt read start pools) pool.id ↔
      Lasts rt pool.poolStats.poolHashrate (read pool.id (windowStart start) start) := by
  have htotal := total_updatePoolHashratesAsync rt read start pools hpool
  constructor
  · rintro ⟨hpools, row, hrow, hrowTotal⟩
    obtain rfl : (turn rt read start pool).row = row := by
      rw [poolStats_of_pool rt read start pools hpool] at hrow
      exact (List.cons.inj hrow).1
    have hsame := hpools _ (mem_pools_updatePoolHashratesAsync rt read start pools |>.mpr
      ⟨pool, hpool, rfl⟩) (updatePool_id rt start _ pool).1
    have hsingle := updatePool_row rt start (read pool.id (windowStart start) start) pool
    rw [turn, hsingle, htotal] at hrowTotal
    rw [htotal, ← hrowTotal] at hsame
    refine ⟨hrowTotal.symm, ?_⟩
    rw [← Double.fin.inj hsame]
    exact_mod_cast UInt64.toNat_lt _
  · rintro ⟨hceil, hlt⟩
    refine ⟨fun pool' hpool' hid => ?_, (turn rt read start pool).row,
      poolStats_of_pool rt read start pools hpool, ?_⟩
    · obtain ⟨p, hp, rfl⟩ := (mem_pools_updatePoolHashratesAsync rt read start pools).mp hpool'
      have hsame : p.id = pool.id := (updatePool_id rt start _ p).1.symm.trans hid
      obtain rfl := pools.eq_of_id hpool hp hsame
      rw [htotal]
      exact poolHashrate_of_lasts rt start _ p ⟨hceil, hlt⟩
    · rw [htotal, hceil]
      exact congrArg Double.fin (updatePool_row rt start _ pool)

end Pass

def sampleRuntime : Runtime where
  round := .ofRat
  ulong _ := 0x8000000000000000
  int _ := .minValue

def sampleShare (seconds : ℕ) : Persistence.Share where
  poolId := "aion1"
  blockHeight := 10
  miner := "0xa0"
  worker := none
  difficulty := 100
  networkDifficulty := 1000
  created := seconds * ticksPerSecond

def sampleDatabase : Database :=
  { Database.empty with shares := [sampleShare 1100, sampleShare 1500] }

def samplePool (poolHashrate : UInt64) : MiningPool :=
  ⟨"aion1", ⟨1, poolHashrate, 0⟩, ⟨.fin 10, .fin 1000, none, 10, 3⟩⟩

def samplePools (poolHashrate : UInt64) : Pools where
  entries := [samplePool poolHashrate]
  nodup := List.nodup_singleton _

/-- A miner whose hashrate is the one the pool has. -/
theorem recorded_lasting :
    Recorded sampleRuntime (updatePoolHashratesAsync sampleRuntime
      (getHashAccumulationBetweenCreatedAsync sampleRuntime sampleDatabase)
      (1600 * ticksPerSecond) (samplePools 1)) (samplePool 1).id :=
  (recorded_iff_lasts sampleRuntime _ _ (samplePools 1) (List.mem_singleton_self _)).mpr
    ⟨by decide +kernel, by decide +kernel⟩

/-- A miner's first window, and the empty one twenty minutes later: the row of the first pass has no
hashrate, and after the second the pool still has the one of the first. -/
theorem recorded_fails :
    let read := getHashAccumulationBetweenCreatedAsync sampleRuntime sampleDatabase
    let first := updatePoolHashratesAsync sampleRuntime read (1600 * ticksPerSecond)
      (samplePools 0)
    let second := updatePoolHashratesAsync sampleRuntime read (2800 * ticksPerSecond)
      ⟨first.pools, nodup_pools_updatePoolHashratesAsync ..⟩
    ¬ Recorded sampleRuntime first "aion1" ∧ ¬ Recorded sampleRuntime second "aion1" := by
  intro read first second
  constructor
  · rintro ⟨-, row, hrow, htotal⟩
    have hzero : ∀ row ∈ first.poolStats, row.poolHashrate = 0 := by decide +kernel
    have hone : (first.total sampleRuntime "aion1").ceil = .fin 1 := by decide +kernel
    have hmem : row ∈ first.poolStats :=
      List.mem_of_mem_filter (hrow ▸ List.mem_singleton_self row)
    rw [hone, hzero row hmem] at htotal
    exact absurd (Double.fin.inj htotal) (by norm_num)
  · rintro ⟨hpools, -⟩
    have hone : second.pools.map (fun pool => (pool.id, pool.poolStats.poolHashrate)) =
        [("aion1", 1)] := by decide +kernel
    have hzero : (second.total sampleRuntime "aion1").ceil = .fin 0 := by decide +kernel
    obtain ⟨pool, hpool, hpair⟩ : ∃ pool ∈ second.pools,
        (pool.id, pool.poolStats.poolHashrate) = ("aion1", 1) :=
      List.mem_map.mp (hone ▸ List.mem_singleton_self _)
    obtain ⟨hid, hrate⟩ := Prod.mk.inj hpair
    have htotal := hpools pool hpool hid
    rw [hzero, hrate] at htotal
    have hne : ((UInt64.toNat 1 : ℕ) : ℚ) ≠ 0 := Nat.cast_ne_zero.mpr (by decide)
    exact absurd (Double.fin.inj htotal) hne

end AionPool.Mining.StatsRecorder
