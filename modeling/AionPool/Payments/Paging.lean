import AionPool.Payments.Pplns

/-!
# When the pages of the walk hold every share

The first page of the walk is read up to the block, every later one strictly below the `Created` of
the last share read. Shares with that very `Created` that did not fit on the page are never read.

* `staysOpen_iff`: the walk goes on past a list of shares iff no share of it crosses the window or
  uses up the reward.
* **`paging_invisible_iff`**: the paged walk processes the shares one pass processes, with the same
  result, iff no page ends between two shares of one `Created` while the walk is open.

About `PPLNSPaymentScheme.cs:191-251` and `ShareRepository.cs:99-109`.
-/

namespace AionPool.Payments.PPLNSPaymentScheme

open AionPool.Persistence
open AionPool.Lib AionPool.Lib.PagedRead

/-- A walk over `xs` is still open at its end: at no share that counts is the window full or the
reward used up. -/
def StaysOpen (w B : ℚ) (xs : List Share) : Prop :=
  ∀ p, p <+: xs → (∃ x ∈ p, x.networkDifficulty ≠ 0) → 0 < B / w ∧ (p.map score).sum < w

/-- The shares the body of the walk runs on. -/
def sharesWalked (w B : ℚ) (xs : List Share) : List Share :=
  walked (processShare w B) Calculation.done (Calculation.start B) xs

theorem sum_score_of_skipped {p : List Share} (h : ¬ ∃ x ∈ p, x.networkDifficulty ≠ 0) :
    (p.map score).sum = 0 := by
  refine List.sum_eq_zero fun v hv => ?_
  obtain ⟨x, hx, rfl⟩ := List.mem_map.mp hv
  exact score_of_skipped (not_not.mp fun hne => h ⟨x, hx, hne⟩)

/-- The prefixes of a list, by its first entry. -/
theorem forall_prefix_cons {α : Type*} {x : α} {xs : List α} {P : List α → Prop} :
    (∀ p, p <+: x :: xs → P p) ↔ P [] ∧ ∀ p, p <+: xs → P (x :: p) := by
  constructor
  · exact fun h => ⟨h [] List.nil_prefix, fun p hp => h (x :: p) ((List.prefix_cons_inj x).mpr hp)⟩
  · rintro ⟨hnil, hcons⟩ p hp
    rcases List.prefix_cons_iff.mp hp with rfl | ⟨t, rfl, ht⟩
    · exact hnil
    · exact hcons t ht

/-- The walk from a score on goes on past `xs` iff it stays open. -/
theorem loop_open_iff {w B : ℚ} {c : Calculation} (hdone : c.done = false)
    (hrem : c.blockRewardRemaining = B - B / w * c.accumulatedScore) {xs : List Share} :
    (∃ c', loop (processShare w B) Calculation.done c xs = .ok c' ∧ c'.done = false) ↔
      ∀ p, p <+: xs → (∃ x ∈ p, x.networkDifficulty ≠ 0) →
        0 < B / w ∧ c.accumulatedScore + (p.map score).sum < w := by
  induction xs generalizing c with
  | nil =>
    refine iff_of_true ⟨c, rfl, hdone⟩ fun p hp hx => ?_
    rw [List.prefix_nil.mp hp] at hx
    simp at hx
  | cons x xs ih =>
    simp only [loop, hdone, Bool.false_eq_true, if_false]
    have hempty : (∃ y ∈ ([] : List Share), y.networkDifficulty ≠ 0) →
        0 < B / w ∧ c.accumulatedScore + (([] : List Share).map score).sum < w := by simp
    -- a share that stops the walk shows in the prefix that ends with it
    have hstop : x.networkDifficulty ≠ 0 → ¬ (0 < B / w ∧ c.accumulatedScore + score x < w) →
        ¬ ∀ p, p <+: x :: xs → (∃ y ∈ p, y.networkDifficulty ≠ 0) →
          0 < B / w ∧ c.accumulatedScore + (p.map score).sum < w := fun hnet hnot h => by
      have := h [x] (by simp) ⟨x, List.mem_singleton_self x, hnet⟩
      rw [List.map_singleton, List.sum_singleton] at this
      exact hnot this
    have hstep := processShare_step (w := w) (B := B) (x := x) hdone
    generalize processShare w B c x = r at hstep
    cases hstep with
    | skipped hnet =>
      simp only
      rw [ih hdone hrem, forall_prefix_cons, and_iff_right hempty]
      refine forall_congr' fun p => imp_congr_right fun _ => ?_
      rw [List.map_cons, List.sum_cons, score_of_skipped hnet, zero_add]
      refine imp_congr_left ?_
      simp [hnet]
    | noWindow hnet hw =>
      refine iff_of_false (by simp) (hstop hnet ?_)
      simp [hw]
    | crossing hnet hw hcross =>
      simp only
      rw [loop_of_done rfl]
      refine iff_of_false ?_ (hstop hnet fun h => absurd h.2 (not_lt.mpr hcross))
      rintro ⟨c', hc', hd⟩
      rw [← Except.ok.inj hc'] at hd
      exact absurd hd (by simp)
    | inside hnet hw hlt hleft =>
      have hpos : 0 < B / w := (remaining_pos_iff hw hrem hlt).mp hleft
      simp only
      rw [ih rfl (remaining_step hw hrem x)]
      rw [forall_prefix_cons, and_iff_right hempty]
      refine forall_congr' fun p => imp_congr_right fun _ => ?_
      rw [List.map_cons, List.sum_cons, ← add_assoc]
      constructor
      · intro h _
        by_cases hcount : ∃ z ∈ p, z.networkDifficulty ≠ 0
        · exact h hcount
        · rw [sum_score_of_skipped hcount, add_zero]
          exact ⟨hpos, hlt⟩
      · exact fun h _ => h ⟨x, List.mem_cons_self, hnet⟩
    | overflow hnet hw hlt hleft =>
      refine iff_of_false (by simp) (hstop hnet fun h => ?_)
      exact absurd ((remaining_pos_iff hw hrem hlt).mpr h.1) (not_lt.mpr hleft)

theorem staysOpen_iff {w B : ℚ} {xs : List Share} : StaysOpen w B xs ↔
    ∃ c, loop (processShare w B) Calculation.done (Calculation.start B) xs = .ok c ∧
      c.done = false := by
  rw [loop_open_iff rfl (by simp [Calculation.start])]
  simp only [Calculation.start, zero_add]
  rfl

/-- Separated page ends, in terms of the shares alone. -/
theorem separatedBelow_walked_iff {w B : ℚ} {n : ℕ} {xs : List Share} :
    SeparatedBelow Share.created n xs (sharesWalked w B xs).length ↔
      ∀ k, 1 ≤ k → k * n < xs.length → StaysOpen w B (xs.take (k * n)) →
        xs[k * n - 1]?.map Share.created ≠ xs[k * n]?.map Share.created := by
  unfold SeparatedBelow sharesWalked
  simp only [lt_length_walked_iff, ← staysOpen_iff]
  constructor
  · intro h k hk hlt hopen
    exact h k hk ⟨hlt, hopen⟩
  · intro h k hk hlt
    exact h k hk hlt.1 hlt.2

/-- The pages are walked as one pass is iff their ends are separated as far as the walk goes. -/
theorem sharesWalked_sharesRead_iff {db : Database} {poolId : String} {created : DateTime}
    {w B : ℚ} {n : ℕ} (hn : 0 < n) :
    sharesWalked w B (sharesRead db poolId created n) =
        sharesWalked w B (sharesUpTo db.shares poolId created) ↔
      ∀ k, 1 ≤ k → k * n < (sharesUpTo db.shares poolId created).length →
        StaysOpen w B ((sharesUpTo db.shares poolId created).take (k * n)) →
        (sharesUpTo db.shares poolId created)[k * n - 1]?.map Share.created ≠
          (sharesUpTo db.shares poolId created)[k * n]?.map Share.created := by
  rw [← separatedBelow_walked_iff, sharesRead_eq]
  exact walked_pages_iff hn (sharesUpTo_descending _ _ _)
    (Nat.lt_succ_of_le (length_sharesUpTo_le _ _ _)) _

/-- Shares walked alike give the same result. -/
theorem loop_eq_of_sharesWalked_eq {w B : ℚ} {xs ys : List Share}
    (h : sharesWalked w B xs = sharesWalked w B ys) :
    loop (processShare w B) Calculation.done (Calculation.start B) xs =
      loop (processShare w B) Calculation.done (Calculation.start B) ys := by
  unfold sharesWalked at h
  rw [← loop_walked, h, loop_walked]

/-- **Paging is invisible exactly when** no page ends, with the walk still open, between two shares
of one `Created`. -/
theorem paging_invisible_iff (db : Database) (poolId : String) (window : ℚ) (block : Block)
    (blockReward : ℚ) {n : ℕ} (hn : 0 < n) :
    (sharesWalked window blockReward (sharesRead db poolId block.created n) =
        sharesWalked window blockReward (sharesUpTo db.shares poolId block.created) ∧
      calculateRewardsAsync db poolId window block blockReward n =
        calculateRewards db.shares poolId window block blockReward) ↔
    ∀ k, 1 ≤ k → k * n < (sharesUpTo db.shares poolId block.created).length →
      StaysOpen window blockReward ((sharesUpTo db.shares poolId block.created).take (k * n)) →
      (sharesUpTo db.shares poolId block.created)[k * n - 1]?.map Share.created ≠
        (sharesUpTo db.shares poolId block.created)[k * n]?.map Share.created := by
  rw [← sharesWalked_sharesRead_iff hn, and_iff_left_iff_imp]
  intro h
  rw [calculateRewardsAsync_eq, calculateRewards]
  exact loop_eq_of_sharesWalked_eq h

/-- Two shares of different dates. -/
def twoShares : Database :=
  { Database.empty with shares := [sampleShare "a" 1 10, sampleShare "b" 4 20] }

theorem paging_invisible_two_pages :
    calculateRewardsAsync twoShares "aion1" 2 (sampleBlock "aion1" 7 1 30) 1 1 =
      calculateRewards twoShares.shares "aion1" 2 (sampleBlock "aion1" 7 1 30) 1 := by
  refine ((paging_invisible_iff twoShares "aion1" 2 (sampleBlock "aion1" 7 1 30) 1
    (show 0 < 1 by decide)).mpr fun k hk hlt _ => ?_).2
  have hlen : (sharesUpTo twoShares.shares "aion1" 30).length = 2 := by
    decide +kernel
  obtain rfl : k = 1 := by
    have : k * 1 < 2 := hlen ▸ hlt
    omega
  decide +kernel

/-! ### A page of the code that ends between two shares of one `Created` -/

/-- One more share of one `Created` than a page holds. -/
def tiedShares : List Share := List.replicate (pageSize + 1) (sampleShare "a" 1 10)

theorem sharesUpTo_tiedShares : sharesUpTo tiedShares "aion1" 30 = tiedShares := by
  unfold sharesUpTo ShareRepository.newestFirst tiedShares
  have hall : ∀ p : Share → Bool, p (sampleShare "a" 1 10) = true →
      (List.replicate (pageSize + 1) (sampleShare "a" 1 10)).filter p =
        List.replicate (pageSize + 1) (sampleShare "a" 1 10) := fun p hp => by
    rw [List.filter_eq_self]
    intro s hs
    rwa [List.eq_of_mem_replicate hs]
  rw [hall _ (by decide), List.Pairwise.insertionSort_eq, hall _ (by decide)]
  exact List.pairwise_replicate.mpr (Or.inr le_rfl)

/-- The second page reads below the `Created` of all of them. -/
theorem sharesRead_tiedShares :
    sharesRead { Database.empty with shares := tiedShares } "aion1" 30 pageSize =
      List.replicate pageSize (sampleShare "a" 1 10) := by
  rw [sharesRead_eq]
  simp only
  rw [sharesUpTo_tiedShares]
  have hlen : tiedShares.length = pageSize + 1 := List.length_replicate
  have hdesc : Descending Share.created tiedShares :=
    List.pairwise_replicate.mpr (Or.inr le_rfl)
  obtain ⟨last, hlast, hp⟩ :=
    pages_full hdesc (show 0 < pageSize by decide) (by omega) tiedShares.length
  have hsame : ∀ s ∈ tiedShares, s = sampleShare "a" 1 10 := fun s hs => List.eq_of_mem_replicate hs
  have hrest : (tiedShares.drop pageSize).filter (fun r => decide (r.created < last.created)) =
      [] := by
    rw [List.filter_eq_nil_iff]
    intro r hr
    rw [hsame r (List.mem_of_mem_drop hr), hsame last (List.mem_of_getElem? hlast)]
    simp
  have hnil : pages Share.created pageSize tiedShares.length [] = [] := by
    rw [hlen, pages, if_pos (by decide)]
  rw [hp, hrest, hnil, List.append_nil]
  unfold tiedShares
  rw [List.take_replicate]
  rfl

/-- The walk over `m` of the tied shares, in a window it does not fill. -/
theorem loop_replicate_total (m : ℕ) (h : m ≤ pageSize + 1) : ∃ c,
    loop (processShare 100000 1) Calculation.done (Calculation.start 1)
        (List.replicate m (sampleShare "a" 1 10)) = .ok c ∧ c.rewards.total = m / 400000 := by
  have hscore : score (sampleShare "a" 1 10) = 1 / 4 := by decide +kernel
  have hscores : ∀ x ∈ List.replicate m (sampleShare "a" 1 10), 0 ≤ score x := fun x hx => by
    rw [List.eq_of_mem_replicate hx, hscore]
    norm_num
  obtain ⟨c, hc, -, -, htotal, -, -⟩ := loop_spec (w := 100000) (B := 1) (by norm_num)
    (by norm_num) (Inside.start (by norm_num)) hscores
  have hm : (m : ℚ) ≤ 50001 := by exact_mod_cast h
  refine ⟨c, hc, ?_⟩
  rw [htotal, List.map_replicate, List.sum_replicate, hscore]
  simp only [Calculation.start, Tally.total_empty, nsmul_eq_mul, zero_add, sub_zero]
  rw [min_eq_right (by linarith)]
  ring

/-- **A share is skipped** where a page of the code ends in a tie. -/
theorem paged_walk_skips_tied_share :
    calculateRewardsAsync { Database.empty with shares := tiedShares } "aion1" 100000
        (sampleBlock "aion1" 7 1 30) 1 pageSize ≠
      calculateRewards tiedShares "aion1" 100000 (sampleBlock "aion1" 7 1 30) 1 := by
  obtain ⟨c, hc, htotal⟩ := loop_replicate_total pageSize (by decide)
  obtain ⟨c', hc', htotal'⟩ := loop_replicate_total (pageSize + 1) le_rfl
  have hread : (sampleBlock "aion1" 7 1 30).created = 30 := rfl
  rw [calculateRewardsAsync_eq, calculateRewards, hread, sharesRead_tiedShares,
    sharesUpTo_tiedShares, hc, tiedShares, hc']
  intro heq
  rw [Except.ok.inj heq, htotal'] at htotal
  norm_num [pageSize] at htotal

end AionPool.Payments.PPLNSPaymentScheme
