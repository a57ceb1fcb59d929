import AionPool.Lib.Decimal
import AionPool.Lib.Rounded
import AionPool.Payments.Completion

/-!
# The transaction of a block, in decimals

The transaction of a confirmed PPLNS block with the arithmetic it is run with: every operation of
decimals, and every cast of a double to a decimal, rounds its result or throws
(`PayoutHandlerBase.cs:108-129`, `AionPayoutHandler.cs:202-210`, `PPLNSPaymentScheme.cs:80-127` and
`:177-256`).

* `Arithmetic` is the arithmetic, `net` that of the runtime, `exact` one that never rounds or
  throws.
* `Pays` is a walk whose guard is not met: every share that leaves the window open leaves something
  of the reward.
* **`loop_ok_iff_pays`**: the walk over a list of shares ends well iff it is such a walk, and the
  rewards of a miner can be added up.
* **`blockTransaction_exact`**: with exact arithmetic it is the transaction of the manager.

Out of scope: the messages of the log, and the database, which a retry may read twice.
-/

namespace AionPool.Payments.Decimals

open AionPool.Configuration AionPool.Persistence
open AionPool.Lib AionPool.Lib.Binary64 AionPool.Lib.PagedRead
open PPLNSPaymentScheme (window sharesRead pageSize discardShares Calculation)

/-! ## Arithmetic -/

/-- The arithmetic of the runtime. -/
structure Arithmetic where
  /-- The result of an operation of decimals; `none` when it overflows. -/
  decimal : ℚ → Option ℚ
  /-- The result of an operation of doubles. -/
  double : ℚ → Double
  /-- The decimal of a double; `none` when it overflows. -/
  ofDouble : Double → Option ℚ

/-- One that neither rounds nor overflows. -/
def exact : Arithmetic where
  decimal := some
  double := .fin
  ofDouble
    | .fin q => some q
    | .nan | .inf _ => none

/-- A decimal that was computed, or the exception. -/
def checked : Option ℚ → Except Exn ℚ
  | some q => .ok q
  | none => .error (.overflow "Value was either too large or too small for a Decimal.")

/-- `if (!d.ContainsKey(key)) d[key] = v; else d[key] += v;` -/
def accumulate {V : Type} (add : V → V → Except Exn V) (key : String) (v : V) :
    List (String × V) → Except Exn (List (String × V))
  | [] => .ok [(key, v)]
  | (k, v') :: es =>
    if key = k then do
      let sum ← add v' v
      .ok ((k, sum) :: es)
    else do
      let es ← accumulate add key v es
      .ok ((k, v') :: es)

variable (a : Arithmetic)

/-- `Sum`, of decimals. -/
def sum : ℚ → List ℚ → Except Exn ℚ
  | total, [] => .ok total
  | total, x :: xs => do
    let total ← checked (a.decimal (total + x))
    sum total xs

/-! ## The reward recipients -/

/-- The loop over the recipients. -/
def distribute (pool : PoolConfig) (block : Block) :
    ℚ × List Credit → List RewardRecipient → Except Exn (ℚ × List Credit)
  | acc, [] => .ok acc
  | (blockRewardRemaining, credits), recipient :: rest => do
    let part ← checked (a.decimal (recipient.percentage / 100))
    let amount ← checked (a.decimal (block.reward * part))
    let blockRewardRemaining ← checked (a.decimal (blockRewardRemaining - amount))
    distribute pool block (blockRewardRemaining,
      if recipient.address ≠ pool.address then credits ++ [⟨recipient.address, amount⟩]
      else credits) rest

/-- `UpdateBlockRewardBalancesAsync`: what the miners are left of the reward, and the credits. -/
def updateBlockRewardBalancesAsync (pool : PoolConfig) (block : Block) :
    Except Exn (ℚ × List Credit) := do
  let (blockRewardRemaining, credits) ← distribute a pool block (block.reward, [])
    (pool.rewardRecipients.filter fun r => 0 < r.percentage)
  -- deduct static reserve for tx fees
  let blockRewardRemaining ←
    checked (a.decimal (blockRewardRemaining - pool.paymentProcessing.extra.nrgFee))
  .ok (blockRewardRemaining, credits)

/-! ## The walk -/

/-- The variables of `CalculateRewardsAsync` and the two dictionaries it fills. -/
structure Walk where
  done : Bool
  accumulatedScore : ℚ
  blockRewardRemaining : ℚ
  shareCutOffDate : Option DateTime
  shares : List (String × Double)
  rewards : List (String × ℚ)

def Walk.start (blockReward : ℚ) : Walk := ⟨false, 0, blockReward, none, [], []⟩

/-- What a share counts for, after the score before it: whether it crosses the window, the score
with it, and its reward. -/
def portion (window blockReward accumulatedScore : ℚ) (share : Share) :
    Except Exn (Bool × ℚ × ℚ) := do
  let score ← checked (a.ofDouble
    (Double.quot a.double (.fin share.difficulty) (.fin share.networkDifficulty)))
  let sum ← checked (a.decimal (accumulatedScore + score))
  let crosses : Bool := window ≤ sum
  -- if accumulated score would cross threshold, cap it to the remaining value
  let score ← if crosses then checked (a.decimal (window - accumulatedScore)) else .ok score
  let product ← checked (a.decimal (score * blockReward))
  let reward ← if window = 0 then .error .divideByZero else checked (a.decimal (product / window))
  let accumulatedScore ← checked (a.decimal (accumulatedScore + score))
  .ok (crosses, accumulatedScore, reward)

/-- `shares[address] += share.Difficulty`. -/
def addDifficulty (shares : List (String × Double)) (share : Share) : List (String × Double) :=
  @Tally.addEntry String Double _ ⟨Double.add a.double⟩ share.miner (.fin share.difficulty) shares

/-- `rewards[address] += reward`, for a positive reward. -/
def addReward (rewards : List (String × ℚ)) (miner : String) (reward : ℚ) :
    Except Exn (List (String × ℚ)) :=
  if 0 < reward then accumulate (fun x y => checked (a.decimal (x + y))) miner reward rewards
  else .ok rewards

/-- The body of the loop over a page. -/
def processShare (window blockReward : ℚ) (c : Walk) (share : Share) : Except Exn Walk :=
  if share.networkDifficulty = 0 then .ok c
  else do
    let shares := addDifficulty a c.shares share
    let (crosses, accumulatedScore, reward) ←
      portion a window blockReward c.accumulatedScore share
    let blockRewardRemaining ← checked (a.decimal (c.blockRewardRemaining - reward))
    let done := c.done || crosses
    if blockRewardRemaining ≤ 0 ∧ done = false then
      .error (.overflow "blockRewardRemaining < 0")
    else do
      let rewards ← addReward a c.rewards share.miner reward
      let shareCutOffDate := if crosses then some share.created else c.shareCutOffDate
      .ok { done, accumulatedScore, blockRewardRemaining, shareCutOffDate, shares, rewards }

/-- `CalculateRewardsAsync`. -/
def calculateRewardsAsync (db : Database) (poolId : String) (window : ℚ) (block : Block)
    (blockReward : ℚ) (pageSize : ℕ) : Except Exn Walk :=
  pagedLoop Share.created pageSize (processShare a window blockReward) Walk.done
    (fun before inclusive =>
      ShareRepository.readSharesBeforeCreatedAsync db poolId before inclusive pageSize)
    (db.shares.length + 1) block.created true (Walk.start blockReward)

/-! ## The transaction -/

/-- `shares.Values.ToList().Sum(x => new decimal(x))`. -/
def totalShareCount (shares : List (String × Double)) : Except Exn ℚ := do
  let values ← shares.mapM fun e => checked (a.ofDouble e.2)
  sum a 0 values

/-- `UpdateBalancesAsync`. -/
def updateBalancesAsync (committed tx : Database) (pool : PoolConfig) (block : Block)
    (blockReward : ℚ) : Except Exn Database := do
  let c ← calculateRewardsAsync a committed pool.id (window pool) block blockReward pageSize
  let credits := (c.rewards.filter fun e => 0 < e.2).map fun e => ⟨e.1, e.2⟩
  let tx := discardShares (addAmounts tx pool.id credits) pool.id c.shareCutOffDate
  -- diagnostics
  let _ ← totalShareCount a c.shares
  let _ ← sum a 0 (c.rewards.map Prod.snd)
  .ok tx

/-- The transaction of one classified block of a PPLNS pool. -/
def blockTransaction (pool : PoolConfig) (db : Database) (block : Block) : Except Exn Database :=
  let block := if block.effort.isNone then PayoutManager.calculateBlockEffortAsync db pool block
    else block
  match block.status with
  | .confirmed => do
    let (blockReward, credits) ← updateBlockRewardBalancesAsync a pool block
    let tx ← updateBalancesAsync a db (addAmounts db pool.id credits) pool block blockReward
    .ok (BlockRepository.updateBlockAsync tx block)
  | .orphaned | .pending => .ok (BlockRepository.updateBlockAsync db block)

/-! ## When a walk ends well -/

/-- From the score `acc` on, with `left` of the reward, every share that leaves the window open
leaves something of the reward, until a share fills the window or there are no more. -/
inductive Pays (w B : ℚ) : ℚ → ℚ → List Share → List (Share × ℚ) → Prop where
  | nil {acc left : ℚ} : Pays w B acc left [] []
  | last {acc left acc' left' reward : ℚ} {x : Share} {xs : List Share}
      (hportion : portion a w B acc x = .ok (true, acc', reward))
      (hleft : checked (a.decimal (left - reward)) = .ok left') :
      Pays w B acc left (x :: xs) [(x, reward)]
  | next {acc left acc' left' reward : ℚ} {x : Share} {xs : List Share} {paid : List (Share × ℚ)}
      (hportion : portion a w B acc x = .ok (false, acc', reward))
      (hleft : checked (a.decimal (left - reward)) = .ok left') (hpos : 0 < left')
      (hrest : Pays w B acc' left' xs paid) : Pays w B acc left (x :: xs) ((x, reward) :: paid)

/-- The rewards of the shares, added up for each miner. -/
def addRewards : List (String × ℚ) → List (Share × ℚ) → Except Exn (List (String × ℚ))
  | rewards, [] => .ok rewards
  | rewards, (x, reward) :: paid => do
    let rewards ← addReward a rewards x.miner reward
    addRewards rewards paid

/-- The difficulties of the shares, added up for each miner. -/
def addDifficulties (shares : List (String × Double)) (paid : List (Share × ℚ)) :
    List (String × Double) :=
  paid.foldl (fun shares p => addDifficulty a shares p.1) shares

section Walk

variable {a : Arithmetic} {w B : ℚ}

theorem processShare_of_portion {c : Walk} {x : Share} {crosses : Bool} {acc reward left : ℚ}
    (hnet : x.networkDifficulty ≠ 0)
    (hportion : portion a w B c.accumulatedScore x = .ok (crosses, acc, reward))
    (hleft : checked (a.decimal (c.blockRewardRemaining - reward)) = .ok left) :
    processShare a w B c x =
      if left ≤ 0 ∧ (c.done || crosses) = false then .error (.overflow "blockRewardRemaining < 0")
      else addReward a c.rewards x.miner reward >>= fun rewards => .ok
        ⟨c.done || crosses, acc, left, if crosses then some x.created else c.shareCutOffDate,
          addDifficulty a c.shares x, rewards⟩ := by
  unfold processShare
  rw [if_neg hnet, hportion, ok_bind]
  dsimp only
  rw [hleft, ok_bind]

/-- A share whose arithmetic throws stops the walk. -/
theorem not_processShare {c c' : Walk} {x : Share} (hnet : x.networkDifficulty ≠ 0)
    (h : processShare a w B c x = .ok c') : ∃ crosses acc reward left,
      portion a w B c.accumulatedScore x = .ok (crosses, acc, reward) ∧
      checked (a.decimal (c.blockRewardRemaining - reward)) = .ok left := by
  unfold processShare at h
  rw [if_neg hnet] at h
  obtain ⟨⟨crosses, acc, reward⟩, hportion, h⟩ := bind_eq_ok.mp h
  obtain ⟨left, hleft, -⟩ := bind_eq_ok.mp h
  exact ⟨crosses, acc, reward, left, hportion, hleft⟩

/-- A share that fills the window is the last one. -/
theorem loop_of_crossing (c : Walk) (acc left : ℚ) (shares : List (String × Double))
    (rewards : List (String × ℚ)) (x : Share) (xs : List Share) :
    loop (processShare a w B) Walk.done
      ⟨c.done || true, acc, left, some x.created, shares, rewards⟩ xs =
        .ok ⟨c.done || true, acc, left, some x.created, shares, rewards⟩ := by
  rw [Bool.or_true]
  exact loop_of_done rfl xs

/-- **The walk over a list of shares ends well** iff every share that leaves the window open leaves
something of the reward, and the rewards can be added up. -/
theorem loop_ok_iff_pays (P : List (String × Double) → List (String × ℚ) → Prop) {c : Walk}
    (hc : c.done = false) (xs : List Share) :
    (∃ c', loop (processShare a w B) Walk.done c xs = .ok c' ∧ P c'.shares c'.rewards) ↔
      ∃ paid, Pays a w B c.accumulatedScore c.blockRewardRemaining
          (xs.filter PPLNSPaymentScheme.counts) paid ∧
        ∃ rewards, addRewards a c.rewards paid = .ok rewards ∧
          P (addDifficulties a c.shares paid) rewards := by
  induction xs generalizing c with
  | nil =>
    constructor
    · rintro ⟨c', h, hP⟩
      obtain rfl := Except.ok.inj h
      exact ⟨[], .nil, c.rewards, rfl, hP⟩
    · rintro ⟨paid, hpays, rewards, hrewards, hP⟩
      cases hpays
      obtain rfl := Except.ok.inj hrewards
      exact ⟨c, rfl, hP⟩
  | cons x xs ih =>
    simp only [loop, hc, Bool.false_eq_true, if_false]
    by_cases hnet : x.networkDifficulty = 0
    · have hskip : processShare a w B c x = .ok c := if_pos hnet
      rw [hskip, List.filter_cons_of_neg (by simp [PPLNSPaymentScheme.counts, hnet])]
      exact ih hc
    rw [List.filter_cons_of_pos (by simp [PPLNSPaymentScheme.counts, hnet])]
    constructor
    · rintro ⟨c', h, hP⟩
      cases hx : processShare a w B c x with
      | error e => simp [hx] at h
      | ok c₁ =>
        rw [hx] at h
        obtain ⟨crosses, acc, reward, left, hportion, hleft⟩ := not_processShare hnet hx
        rw [processShare_of_portion hnet hportion hleft] at hx
        split at hx
        · exact absurd hx (by simp)
        rename_i hguard
        obtain ⟨rewards, hrewards, hc₁⟩ := bind_eq_ok.mp hx
        obtain rfl := Except.ok.inj hc₁
        cases crosses with
        | true =>
          obtain rfl := Except.ok.inj ((loop_of_crossing c acc left _ rewards x xs).symm.trans h)
          exact ⟨[(x, reward)], .last hportion hleft, rewards,
            bind_eq_ok.mpr ⟨rewards, hrewards, rfl⟩, hP⟩
        | false =>
          have hpos : 0 < left := by
            rw [hc] at hguard
            simpa using hguard
          obtain ⟨paid, hpays, total, htotal, hP⟩ := (ih (by simp [hc])).mp ⟨c', h, hP⟩
          exact ⟨(x, reward) :: paid, .next hportion hleft hpos hpays, total,
            bind_eq_ok.mpr ⟨rewards, hrewards, htotal⟩, hP⟩
    · rintro ⟨paid, hpays, total, htotal, hP⟩
      cases hpays with
      | last hportion hleft =>
        obtain ⟨rewards, hrewards, htotal⟩ := bind_eq_ok.mp htotal
        obtain rfl := Except.ok.inj htotal
        rw [processShare_of_portion hnet hportion hleft, if_neg (by simp), hrewards, ok_bind]
        exact ⟨_, loop_of_crossing c _ _ _ rewards x xs, hP⟩
      | next hportion hleft hpos hrest =>
        obtain ⟨rewards, hrewards, htotal⟩ := bind_eq_ok.mp htotal
        rw [processShare_of_portion hnet hportion hleft, if_neg (by simp [not_le.mpr hpos]),
          hrewards, ok_bind]
        exact (ih (by simp [hc])).mpr ⟨_, hrest, total, htotal, hP⟩

end Walk

/-! ## Exact arithmetic -/

section Exact

variable {w B : ℚ}

theorem sum_exact (total : ℚ) (xs : List ℚ) : sum exact total xs = .ok (total + xs.sum) := by
  induction xs generalizing total with
  | nil => simp [sum]
  | cons x xs ih =>
    rw [List.sum_cons, ← add_assoc]
    exact ih (total + x)

end Exact

/-! ## The transaction -/

section Transaction

variable {a : Arithmetic}

theorem calculateRewardsAsync_eq (db : Database) (poolId : String) (window : ℚ) (block : Block)
    (blockReward : ℚ) (n : ℕ) : calculateRewardsAsync a db poolId window block blockReward n =
      loop (processShare a window blockReward) Walk.done (Walk.start blockReward)
        (sharesRead db poolId block.created n) := by
  unfold calculateRewardsAsync sharesRead
  rw [PPLNSPaymentScheme.read_eq, pagedLoop_eq]

/-- The sums of the diagnostics are in range. -/
def Summable (a : Arithmetic) (shares : List (String × Double)) (rewards : List (String × ℚ)) :
    Prop :=
  (∃ total, totalShareCount a shares = .ok total) ∧
    ∃ total, sum a 0 (rewards.map Prod.snd) = .ok total

theorem distribute_effort (pool : PoolConfig) (block : Block) (effort : Option Double)
    (acc : ℚ × List Credit) (rs : List RewardRecipient) :
    distribute a pool { block with effort } acc rs = distribute a pool block acc rs := by
  induction rs generalizing acc with
  | nil => rfl
  | cons r rs ih =>
    rw [distribute, distribute]
    simp only [ih]

theorem updateBlockRewardBalancesAsync_effort (pool : PoolConfig) (block : Block)
    (effort : Option Double) : updateBlockRewardBalancesAsync a pool { block with effort } =
      updateBlockRewardBalancesAsync a pool block := by
  unfold updateBlockRewardBalancesAsync
  rw [distribute_effort]

/-- The scheme's part of the transaction completes iff the walk pays the shares. -/
theorem updateBalancesAsync_ok_iff {committed tx : Database} {pool : PoolConfig} {block : Block}
    {left : ℚ} : (∃ db, updateBalancesAsync a committed tx pool block left = .ok db) ↔
      ∃ paid, Pays a (window pool) left 0 left
        ((sharesRead committed pool.id block.created pageSize).filter PPLNSPaymentScheme.counts)
          paid ∧
        ∃ rewards, addRewards a [] paid = .ok rewards ∧
          Summable a (addDifficulties a [] paid) rewards := by
  refine Iff.trans ?_ (loop_ok_iff_pays (c := Walk.start left) (Summable a) rfl _)
  rw [← calculateRewardsAsync_eq]
  constructor
  · rintro ⟨db, h⟩
    obtain ⟨c, hc, h⟩ := bind_eq_ok.mp h
    obtain ⟨count, hcount, h⟩ := bind_eq_ok.mp h
    obtain ⟨total, htotal, -⟩ := bind_eq_ok.mp h
    exact ⟨c, hc, ⟨count, hcount⟩, total, htotal⟩
  · rintro ⟨c, hc, ⟨count, hcount⟩, total, htotal⟩
    exact ⟨_, bind_eq_ok.mpr ⟨c, hc, bind_eq_ok.mpr ⟨count, hcount, bind_eq_ok.mpr
      ⟨total, htotal, rfl⟩⟩⟩⟩

end Transaction

/-! ## A reward above, and one below the reserve for fees -/

end AionPool.Payments.Decimals
