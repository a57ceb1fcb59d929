import AionPool.Payments.Pplns

/-!
# Discarding shares is safe

A block that is paid deletes the shares below its cut-off date. `history` pays a list of blocks,
with shares arriving in between, under a rule of what is kept; `discardShares` is the code's rule.

* `loop_append`: a walk that crosses the window inside a list does not read past it.
* `Covers`: from some date on there are enough shares to fill the window of a block.
* **`discard_safe`**: with blocks paid in the order of their `Created`, every walk returns what it
  would return had no share ever been deleted.

About `PPLNSPaymentScheme.cs:80-127` and `ShareRepository.cs:136-152`.
-/

namespace AionPool.Payments.PPLNSPaymentScheme

open AionPool.Persistence
open AionPool.Lib AionPool.Lib.Window AionPool.Lib.PagedRead

/-- What happens to the shares of a pool. -/
inductive Event where
  /-- A batch of shares is persisted. -/
  | arrive (shares : List Share)
  /-- A confirmed block is paid. -/
  | pay (block : Block) (blockReward : ℚ)

/-- The walks of the blocks paid, in order, when `keep` says which shares a cut-off date leaves.
A walk that fails rolls the transaction back. -/
def history (keep : Database → Option DateTime → Database) (poolId : String) (window : ℚ) :
    Database → List Event → List (Except Exn Calculation)
  | _, [] => []
  | db, .arrive shares :: es =>
    history keep poolId window (ShareRepository.batchInsertAsync db shares) es
  | db, .pay block blockReward :: es =>
    let result := calculateRewards db.shares poolId window block blockReward
    result :: history keep poolId window
      (match result with
        | .ok c => keep db c.shareCutOffDate
        | .error _ => db) es

/-- The blocks paid. -/
def paidBlocks : List Event → List Block
  | [] => []
  | .arrive _ :: es => paidBlocks es
  | .pay block _ :: es => block :: paidBlocks es

/-- The shares that arrive. -/
def arrivals : List Event → List Share
  | [] => []
  | .arrive shares :: es => shares ++ arrivals es
  | .pay _ _ :: es => arrivals es

/-! ## Where a walk ends -/

/-- The shares that count. -/
def counted (xs : List Share) : List Share := xs.filter fun s => s.networkDifficulty ≠ 0

/-- Whatever the result, a walk that crosses the window inside `xs` does not read past it. -/
theorem loop_append_of_crossing {w B : ℚ} {c : Calculation} {xs : List Share}
    (h : (crossing? score w c.accumulatedScore (counted xs)).isSome) (ys : List Share) :
    loop (processShare w B) Calculation.done c (xs ++ ys) =
      loop (processShare w B) Calculation.done c xs := by
  induction xs generalizing c with
  | nil => simp [counted, crossing?] at h
  | cons x xs ih =>
    cases hdone : c.done with
    | true => rw [loop_of_done hdone, loop_of_done hdone]
    | false =>
      simp only [List.cons_append, loop, hdone, Bool.false_eq_true, if_false]
      have hstep := processShare_step (w := w) (B := B) (x := x) hdone
      generalize processShare w B c x = r at hstep
      cases hstep with
      | skipped hnet =>
        refine ih ?_
        simpa [counted, hnet] using h
      | noWindow hnet hw => rfl
      | crossing hnet hw hcross =>
        simp only
        rw [loop_of_done rfl, loop_of_done rfl]
      | inside hnet hw hlt hleft =>
        rw [counted, List.filter_cons_of_pos (by simpa using hnet), crossing?,
          if_neg (not_le.mpr hlt)] at h
        exact ih h
      | overflow hnet hw hlt hleft => rfl

/-- The cut-off date of a walk that succeeds is the `Created` of the crossing share. -/
theorem shareCutOffDate_of_loop {w B : ℚ} {c c' : Calculation} (hdone : c.done = false)
    {xs : List Share} (h : loop (processShare w B) Calculation.done c xs = .ok c') :
    c'.shareCutOffDate = ((crossing? score w c.accumulatedScore (counted xs)).map
      Share.created).or c.shareCutOffDate := by
  induction xs generalizing c with
  | nil =>
    rw [← Except.ok.inj h]
    simp [counted, crossing?]
  | cons x xs ih =>
    simp only [loop, hdone, Bool.false_eq_true, if_false] at h
    have hstep := processShare_step (w := w) (B := B) (x := x) hdone
    generalize processShare w B c x = r at hstep h
    cases hstep with
    | skipped hnet =>
      rw [ih hdone h, counted, counted, List.filter_cons_of_neg (by simpa using hnet)]
    | noWindow hnet hw => exact absurd h (by simp)
    | crossing hnet hw hcross =>
      simp only at h
      rw [loop_of_done rfl] at h
      rw [← Except.ok.inj h, counted, List.filter_cons_of_pos (by simpa using hnet), crossing?,
        if_pos hcross]
      rfl
    | inside hnet hw hlt hleft =>
      rw [counted, List.filter_cons_of_pos (by simpa using hnet), crossing?,
        if_neg (not_le.mpr hlt)]
      exact ih rfl h
    | overflow hnet hw hlt hleft => exact absurd h (by simp)

/-! ## Enough shares from a date on -/

/-- The shares of the pool that count, from a date up to a block. -/
def reach (poolId : String) (shares : List Share) (from_ upTo : DateTime) : List Share :=
  shares.filter fun s =>
    s.poolId = poolId ∧ s.networkDifficulty ≠ 0 ∧ from_ ≤ s.created ∧ s.created ≤ upTo

/-- They fill the window. -/
def Covers (poolId : String) (w : ℚ) (shares : List Share) (from_ upTo : DateTime) : Prop :=
  reach poolId shares from_ upTo ≠ [] ∧ w ≤ ((reach poolId shares from_ upTo).map score).sum

variable {poolId : String} {w : ℚ}

/-- The shares of a walk from a date on. -/
theorem sharesUpTo_filter_from (shares : List Share) (d created : DateTime) :
    (sharesUpTo shares poolId created).filter (fun s => d ≤ s.created) =
      sharesUpTo (shares.filter fun s => d ≤ s.created) poolId created := by
  unfold sharesUpTo
  rw [ShareRepository.newestFirst_filter, List.filter_filter, List.filter_filter]
  congr 1
  funext s
  rw [Bool.and_comm]

theorem counted_perm_reach (poolId : String) (shares : List Share) (d created : DateTime) :
    (counted (sharesUpTo (shares.filter fun s => d ≤ s.created) poolId created)).Perm
      (reach poolId shares d created) := by
  unfold counted sharesUpTo ShareRepository.newestFirst reach
  refine (((List.perm_insertionSort _ _).filter _).filter _).trans ?_
  rw [List.filter_filter, List.filter_filter, List.filter_filter]
  refine List.Perm.of_eq (List.filter_congr fun s _ => ?_)
  simp only [Bool.decide_and]
  ac_rfl

/-- A window is crossed from a date on iff the shares cover it. -/
theorem crossing?_isSome_iff_covers {shares : List Share} (h : ∀ s ∈ shares, 0 ≤ score s)
    (d created : DateTime) :
    (crossing? score w 0 (counted (sharesUpTo (shares.filter fun s => d ≤ s.created) poolId
      created))).isSome ↔ Covers poolId w shares d created := by
  have hperm := counted_perm_reach poolId shares d created
  have hnonneg : ∀ s ∈ counted (sharesUpTo (shares.filter fun s => d ≤ s.created) poolId created),
      0 ≤ score s := fun s hs => h s (List.mem_of_mem_filter (hperm.mem_iff.mp hs))
  rw [crossing?_isSome_iff hnonneg, zero_add, (hperm.map score).sum_eq]
  unfold Covers
  rw [Ne, Ne, ← List.length_eq_zero_iff, ← List.length_eq_zero_iff, hperm.length_eq]

/-- More shares and a later block are covered too. -/
theorem Covers.mono {shares new : List Share} (h : ∀ s ∈ shares ++ new, 0 ≤ score s)
    {d b b' : DateTime} (hb : b ≤ b') (hc : Covers poolId w shares d b) :
    Covers poolId w (shares ++ new) d b' := by
  have hsub : (reach poolId shares d b).Sublist (reach poolId (shares ++ new) d b') := by
    unfold reach
    rw [List.filter_append]
    refine (List.monotone_filter_right shares ?_).trans (List.sublist_append_left _ _)
    intro s hs
    simp only [decide_eq_true_eq] at hs ⊢
    exact ⟨hs.1, hs.2.1, hs.2.2.1, hs.2.2.2.trans hb⟩
  refine ⟨fun hnil => hc.1 (List.sublist_nil.mp (hnil ▸ hsub)), hc.2.trans ?_⟩
  refine (hsub.map score).sum_le_sum fun v hv => ?_
  obtain ⟨s, hs, rfl⟩ := List.mem_map.mp hv
  exact h s (List.mem_of_mem_filter hs)

/-- A descending list, split at a date. -/
theorem filter_append_filter {xs : List Share} (hs : Descending Share.created xs) (d : DateTime) :
    xs.filter (fun s => d ≤ s.created) ++ xs.filter (fun s => s.created < d) = xs := by
  induction xs with
  | nil => rfl
  | cons x xs ih =>
    obtain ⟨hx, hxs⟩ := List.pairwise_cons.mp hs
    by_cases h : d ≤ x.created
    · rw [List.filter_cons_of_pos (by simpa using h),
        List.filter_cons_of_neg (by simpa using h), List.cons_append, ih hxs]
    · -- everything after `x` lies below the date as well
      have hall : ∀ y ∈ x :: xs, y.created < d := fun y hy => by
        rcases List.mem_cons.mp hy with rfl | hy
        · exact not_le.mp h
        · exact (hx y hy).trans_lt (not_le.mp h)
      rw [List.filter_eq_nil_iff.mpr fun y hy => by simpa using hall y hy, List.nil_append,
        List.filter_eq_self.mpr fun y hy => by simpa using hall y hy]

/-- A walk reads no further back than where the shares cover the window. -/
theorem calculateRewards_from {shares : List Share} (h : ∀ s ∈ shares, 0 ≤ score s)
    {d : DateTime} {block : Block} (hc : Covers poolId w shares d block.created) (B : ℚ) :
    calculateRewards shares poolId w block B =
      calculateRewards (shares.filter fun s => d ≤ s.created) poolId w block B := by
  unfold calculateRewards
  rw [← filter_append_filter (sharesUpTo_descending shares poolId block.created) d,
    sharesUpTo_filter_from]
  exact loop_append_of_crossing ((crossing?_isSome_iff_covers h d block.created).mpr hc) _

/-- The cut-off date of a block covers its window. -/
theorem covers_of_cutOff {shares : List Share} (h : ∀ s ∈ shares, 0 ≤ score s) {block : Block}
    {B : ℚ} {c : Calculation} (hc : calculateRewards shares poolId w block B = .ok c)
    {d : DateTime} (hd : c.shareCutOffDate = some d) : Covers poolId w shares d block.created := by
  rw [shareCutOffDate_of_loop rfl hc] at hd
  simp only [Calculation.start, Option.or_none, Option.map_eq_some_iff] at hd
  obtain ⟨s, hs, rfl⟩ := hd
  have hdesc : Descending Share.created (counted (sharesUpTo shares poolId block.created)) :=
    (sharesUpTo_descending shares poolId block.created).filter _
  rw [← crossing?_isSome_iff_covers h, ← sharesUpTo_filter_from]
  have hcross := crossing?_filter hdesc hs
  unfold counted at hcross ⊢
  rw [List.filter_filter]
  rw [List.filter_filter] at hcross
  have hcomm : (fun a : Share => decide (s.created ≤ a.created) && decide (a.networkDifficulty ≠ 0))
      = fun a => decide (a.networkDifficulty ≠ 0) && decide (s.created ≤ a.created) := by
    funext a
    rw [Bool.and_comm]
  rw [← hcomm, hcross]
  rfl

/-! ## Two histories -/

/-- The pruned table against the full one, after a block of `Created` `b` was paid: they agree, or
they agree from a date on that covers the window of every later block. -/
def Agrees (poolId : String) (w : ℚ) (pruned full : List Share) (b : DateTime) : Prop :=
  pruned = full ∨ ∃ d, Covers poolId w full d b ∧
    pruned.filter (fun s => d ≤ s.created) = full.filter fun s => d ≤ s.created

theorem Agrees.arrive {pruned full : List Share} {b : DateTime}
    (h : Agrees poolId w pruned full b) {new : List Share}
    (hs : ∀ s ∈ full ++ new, 0 ≤ score s) : Agrees poolId w (pruned ++ new) (full ++ new) b := by
  rcases h with rfl | ⟨d, hc, heq⟩
  · exact Or.inl rfl
  · refine Or.inr ⟨d, hc.mono hs le_rfl, ?_⟩
    rw [List.filter_append, List.filter_append, heq]

theorem Agrees.mono {pruned full : List Share} {b b' : DateTime}
    (h : Agrees poolId w pruned full b) (hs : ∀ s ∈ full, 0 ≤ score s) (hb : b ≤ b') :
    Agrees poolId w pruned full b' := by
  rcases h with h | ⟨d, hc, heq⟩
  · exact Or.inl h
  · have hs' : ∀ s ∈ full ++ [], 0 ≤ score s := by rwa [List.append_nil]
    have := hc.mono hs' hb
    rw [List.append_nil] at this
    exact Or.inr ⟨d, this, heq⟩

/-- Tables that agree give the same walk, -/
theorem Agrees.calculateRewards {pruned full : List Share} {block : Block}
    (h : Agrees poolId w pruned full block.created) (hs : ∀ s ∈ full, 0 ≤ score s)
    (hp : ∀ s ∈ pruned, 0 ≤ score s) (B : ℚ) :
    calculateRewards pruned poolId w block B = calculateRewards full poolId w block B := by
  rcases h with rfl | ⟨d, hc, heq⟩
  · rfl
  · have hreach : reach poolId pruned d block.created = reach poolId full d block.created := by
      have hfrom : ∀ shares : List Share, reach poolId shares d block.created =
          reach poolId (shares.filter fun s => d ≤ s.created) d block.created := fun shares => by
        unfold reach
        rw [List.filter_filter]
        refine List.filter_congr fun s _ => ?_
        by_cases hd : d ≤ s.created <;> simp [hd]
      rw [hfrom pruned, heq, ← hfrom]
    have hcp : Covers poolId w pruned d block.created := by
      unfold Covers
      rw [hreach]
      exact hc
    rw [calculateRewards_from hp hcp, calculateRewards_from hs hc, heq]

theorem discardShares_shares (db : Database) (poolId : String) (d : DateTime) :
    (discardShares db poolId (some d)).shares =
      db.shares.filter fun s => ¬ (s.poolId = poolId ∧ s.created < d) := by
  unfold discardShares ShareRepository.countSharesBeforeCreatedAsync
  simp only
  split
  · rfl
  · rename_i h
    rw [Nat.not_lt, Nat.le_zero, List.length_eq_zero_iff, List.filter_eq_nil_iff] at h
    refine (List.filter_eq_self.mpr fun s hs => ?_).symm
    exact decide_eq_true fun hlt => h s hs (decide_eq_true hlt)

theorem mem_of_mem_discardShares {db : Database} {cutOff : Option DateTime} {s : Share}
    (h : s ∈ (discardShares db poolId cutOff).shares) : s ∈ db.shares := by
  cases cutOff with
  | none => exact h
  | some d =>
    rw [discardShares_shares] at h
    exact List.mem_of_mem_filter h

/-- and still agree after the pruned one discards. -/
theorem Agrees.discard {pruned : Database} {full : List Share} {block : Block}
    (h : Agrees poolId w pruned.shares full block.created) (hs : ∀ s ∈ full, 0 ≤ score s) {B : ℚ}
    {c : Calculation} (hc : PPLNSPaymentScheme.calculateRewards full poolId w block B = .ok c) :
    Agrees poolId w (discardShares pruned poolId c.shareCutOffDate).shares full block.created := by
  cases hcut : c.shareCutOffDate with
  | none => exact h
  | some d' =>
    have hd' := covers_of_cutOff hs hc hcut
    have hkeep : ∀ d, d' ≤ d → ((discardShares pruned poolId (some d')).shares.filter
        fun s => d ≤ s.created) = pruned.shares.filter fun s => d ≤ s.created := fun d hd => by
      rw [discardShares_shares, List.filter_filter]
      refine List.filter_congr fun s _ => ?_
      by_cases h' : d ≤ s.created
      · simp [h', hd.trans h']
      · simp [h']
    rcases h with heq | ⟨d, hcov, heq⟩
    · refine Or.inr ⟨d', hd', ?_⟩
      rw [hkeep d' le_rfl, heq]
    · rcases le_total d' d with hle | hle
      · exact Or.inr ⟨d, hcov, by rw [hkeep d hle, heq]⟩
      · refine Or.inr ⟨d', hd', ?_⟩
        have hfrom : ∀ shares : List Share, (shares.filter fun s => d' ≤ s.created) =
            (shares.filter fun s => d ≤ s.created).filter fun s => d' ≤ s.created := by
          intro shares
          rw [List.filter_filter]
          refine List.filter_congr fun s _ => ?_
          by_cases h' : d' ≤ s.created
          · simp [h', hle.trans h']
          · simp [h']
        rw [hkeep d' le_rfl, hfrom, heq, ← hfrom]

/-- The two histories, from tables that agree. -/
theorem history_eq {b : DateTime} : ∀ (es : List Event) (pruned full : Database),
    Agrees poolId w pruned.shares full.shares b →
    (∀ s ∈ pruned.shares, 0 ≤ score s) → (∀ s ∈ full.shares ++ arrivals es, 0 ≤ score s) →
    (∀ block ∈ paidBlocks es, b ≤ block.created) →
    (paidBlocks es).Pairwise (fun x y => x.created ≤ y.created) →
    history (fun db cutOff => discardShares db poolId cutOff) poolId w pruned es =
      history (fun db _ => db) poolId w full es
  | [], _, _, _, _, _, _, _ => rfl
  | .arrive new :: es, pruned, full, h, hp, hs, hb, hsort => by
    rw [arrivals, ← List.append_assoc] at hs
    have hsnew : ∀ s ∈ full.shares ++ new, 0 ≤ score s := fun s hm =>
      hs s (List.mem_append_left _ hm)
    refine history_eq es (ShareRepository.batchInsertAsync pruned new)
      (ShareRepository.batchInsertAsync full new) (h.arrive hsnew) (fun s hm => ?_) hs hb hsort
    rcases List.mem_append.mp hm with hm | hm
    · exact hp s hm
    · exact hsnew s (List.mem_append_right _ hm)
  | .pay block B :: es, pruned, full, h, hp, hs, hb, hsort => by
    have hfull : ∀ s ∈ full.shares, 0 ≤ score s := fun s hm => hs s (List.mem_append_left _ hm)
    obtain ⟨hnext, hsort⟩ := List.pairwise_cons.mp hsort
    have hnow := h.mono hfull (hb block List.mem_cons_self)
    rw [history, history, hnow.calculateRewards hfull hp B, List.cons.injEq]
    refine ⟨rfl, ?_⟩
    cases hc : calculateRewards full.shares poolId w block B with
    | error e => exact history_eq es pruned full hnow hp hs hnext hsort
    | ok c =>
      refine history_eq es (discardShares pruned poolId c.shareCutOffDate) full
        (hnow.discard hfull hc) (fun s hm => ?_) hs hnext hsort
      exact hp s (mem_of_mem_discardShares hm)

/-- **Discarding shares is safe**: paid in the order of their `Created`, the blocks are rewarded as
if no share had ever been deleted. -/
theorem discard_safe (db : Database) (poolId : String) (window : ℚ) (es : List Event)
    (hscore : ∀ s ∈ db.shares ++ arrivals es, 0 ≤ score s)
    (hsorted : (paidBlocks es).Pairwise fun a b => a.created ≤ b.created) :
    history (fun db cutOff => discardShares db poolId cutOff) poolId window db es =
      history (fun db _ => db) poolId window db es :=
  history_eq (b := 0) es db db (Or.inl rfl) (fun s hs => hscore s (List.mem_append_left _ hs))
    hscore (fun _ _ => Nat.zero_le _) hsorted

/-- The first block fills the window with the newest share alone, and the other one is deleted. The
second block counts what is left of the shares and those that came since. -/
theorem discard_safe_two_blocks :
    let db := { Database.empty with shares := [sampleShare "a" 4 10, sampleShare "b" 4 20] }
    let es : List Event := [.pay (sampleBlock "aion1" 7 1 20) 1, .arrive [sampleShare "a" 2 30],
      .pay (sampleBlock "aion1" 8 1 30) 1]
    history (fun db cutOff => discardShares db "aion1" cutOff) "aion1" 1 db es =
      history (fun db _ => db) "aion1" 1 db es ∧
    (calculateRewards db.shares "aion1" 1 (sampleBlock "aion1" 7 1 20) 1).toOption.bind
      Calculation.shareCutOffDate = some 20 ∧
    (discardShares db "aion1" (some 20)).shares = [sampleShare "b" 4 20] :=
  ⟨discard_safe _ _ _ _ (by decide +kernel) (by decide +kernel), by decide +kernel,
    by decide +kernel⟩

end AionPool.Payments.PPLNSPaymentScheme
