import Mathlib.Order.Defs.LinearOrder
import Mathlib.Data.List.Basic
import Mathlib.Data.List.Pairwise
import Mathlib.Data.List.Sort
import Mathlib.Tactic.Ring

/-!
# Reading a descending list page by page

A loop reads the rows of a table from the largest key down, a page of `n` rows at a time: the
first page from a bound on, every later page strictly below the key of the last row read. Its body
may stop it (`done`) or fail.

* `loop` is the body run over a list, `walked` the rows it runs on, and `pagedLoop` the loop over
  pages. `pagesFrom` is what the pages hold when nothing stops the loop; `pages` is the same on
  the rows already selected.
* `pagedLoop_eq`: the paged loop is the loop over `pagesFrom`.
* `pages_fuel`: a fuel above the number of rows is enough.
* **`walked_pages_iff`**: on rows in descending order, the paged loop runs on the same rows as one
  pass exactly when every page end inside that pass separates two keys.
-/

namespace AionPool.Lib.PagedRead

/-! ## The loop over a list -/

section Loop

variable {α σ ε : Type*} (body : σ → α → Except ε σ) (done : σ → Bool)

/-- `for (i = 0; !done && i < length; i++) body`. -/
def loop : σ → List α → Except ε σ
  | s, [] => .ok s
  | s, x :: xs =>
    if done s then .ok s
    else match body s x with
      | .ok s' => loop s' xs
      | .error e => .error e

/-- The rows the body runs on. -/
def walked : σ → List α → List α
  | _, [] => []
  | s, x :: xs =>
    if done s then []
    else x :: match body s x with
      | .ok s' => walked s' xs
      | .error _ => []

variable {body done}

theorem loop_of_done {s : σ} (h : done s = true) (xs : List α) :
    loop body done s xs = .ok s := by
  cases xs with
  | nil => rfl
  | cons x xs => rw [loop, if_pos h]

theorem loop_append (s : σ) (xs ys : List α) :
    loop body done s (xs ++ ys) =
      match loop body done s xs with
      | .ok s' => loop body done s' ys
      | .error e => .error e := by
  induction xs generalizing s with
  | nil => rfl
  | cons x xs ih =>
    simp only [List.cons_append, loop]
    split
    · rename_i h
      exact (loop_of_done h ys).symm
    · cases body s x with
      | ok s' => exact ih s'
      | error e => rfl

/-- The loop sees no more than the rows its body runs on. -/
theorem loop_walked (s : σ) (xs : List α) :
    loop body done s (walked body done s xs) = loop body done s xs := by
  induction xs generalizing s with
  | nil => rfl
  | cons x xs ih =>
    simp only [walked]
    split
    · rename_i h
      rw [loop_of_done h, loop_of_done h]
    · rename_i h
      simp only [loop, if_neg h]
      cases body s x with
      | ok s' => exact ih s'
      | error e => rfl

theorem walked_isPrefix (s : σ) (xs : List α) : walked body done s xs <+: xs := by
  induction xs generalizing s with
  | nil => exact List.prefix_rfl
  | cons x xs ih =>
    simp only [walked]
    split
    · exact List.nil_prefix
    · rw [List.cons_prefix_cons]
      refine ⟨rfl, ?_⟩
      cases body s x with
      | ok s' => exact ih s'
      | error e => exact List.nil_prefix

/-- The body runs on the row at position `m` iff the rows before it neither fail nor stop. -/
theorem lt_length_walked_iff {s : σ} {xs : List α} {m : ℕ} :
    m < (walked body done s xs).length ↔
      m < xs.length ∧ ∃ s', loop body done s (xs.take m) = .ok s' ∧ done s' = false := by
  induction xs generalizing s m with
  | nil => simp [walked]
  | cons x xs ih =>
    simp only [walked]
    cases hd : done s with
    | true => simp [loop_of_done hd, hd]
    | false =>
      cases m with
      | zero => simp [loop, hd]
      | succ m =>
        simp only [Bool.false_eq_true, if_false, List.length_cons, List.take_succ_cons, loop, hd,
          Nat.succ_lt_succ_iff]
        cases body s x with
        | ok s' => exact ih
        | error e => simp

/-- Rows that agree as far as the body runs, and are not more, are walked alike. -/
theorem walked_congr {s : σ} {xs ys : List α} (hlen : ys.length ≤ xs.length)
    (h : ys.take (walked body done s xs).length = xs.take (walked body done s xs).length) :
    walked body done s ys = walked body done s xs := by
  induction xs generalizing s ys with
  | nil => rw [List.eq_nil_of_length_eq_zero (Nat.le_zero.mp hlen)]
  | cons x xs ih =>
    by_cases hd : done s = true
    · cases ys <;> simp [walked, hd]
    · simp only [walked, if_neg hd, List.length_cons, List.take_succ_cons] at h ⊢
      cases ys with
      | nil => exact absurd h (by simp)
      | cons y ys =>
        rw [List.take_succ_cons, List.cons.injEq] at h
        obtain ⟨rfl, h⟩ := h
        simp only [walked, if_neg hd, List.cons.injEq, true_and]
        cases hb : body s y with
        | error e => rfl
        | ok s' =>
          rw [hb] at h
          exact ih (by simpa using hlen) h

/-- Two lists, the second not longer, are walked alike iff they agree as far as the body runs. -/
theorem walked_eq_iff {s : σ} {xs ys : List α} (hlen : ys.length ≤ xs.length) :
    walked body done s ys = walked body done s xs ↔
      ys.take (walked body done s xs).length = xs.take (walked body done s xs).length := by
  refine ⟨fun h => ?_, walked_congr hlen⟩
  have hx := List.prefix_iff_eq_take.mp
    (show walked body done s xs <+: xs from walked_isPrefix s xs)
  have hy := List.prefix_iff_eq_take.mp
    (show walked body done s ys <+: ys from walked_isPrefix s ys)
  rw [h] at hy
  rw [← hx, ← hy]

end Loop

/-! ## Pages -/

section Pages

variable {α κ : Type*} [LinearOrder κ] (key : α → κ) (n : ℕ)

/-- Whether a row is selected: `key <= before` on the first page, `key < before` later. -/
def selects (before : κ) (inclusive : Bool) (r : α) : Bool :=
  if inclusive then decide (key r ≤ before) else decide (key r < before)

/-- One page: the first `n` selected rows. -/
def readBefore (rows : List α) (before : κ) (inclusive : Bool) : List α :=
  (rows.filter (selects key before inclusive)).take n

/-- All rows the pages hold, from the page selected by `before` and `inclusive` on. -/
def pagesFrom (rows : List α) : ℕ → κ → Bool → List α
  | 0, _, _ => []
  | fuel + 1, before, inclusive =>
    let page := readBefore key n rows before inclusive
    if page.length < n then page
    else match page.getLast? with
      | none => page
      | some last => page ++ pagesFrom rows fuel (key last) false

/-- The pages of rows that are all selected. -/
def pages : ℕ → List α → List α
  | 0, _ => []
  | fuel + 1, rows =>
    if rows.length < n then rows
    else match (rows.take n).getLast? with
      | none => []
      | some last => rows.take n ++ pages fuel (rows.filter fun r => decide (key r < key last))

/-- Every page end before position `w` separates two keys. -/
def SeparatedBelow (rows : List α) (w : ℕ) : Prop :=
  ∀ k, 1 ≤ k → k * n < w → rows[k * n - 1]?.map key ≠ rows[k * n]?.map key

variable {key n}

theorem selects_of_mem_page {rows : List α} {before : κ} {inclusive : Bool} {r : α}
    (h : r ∈ readBefore key n rows before inclusive) : selects key before inclusive r = true :=
  (List.mem_filter.mp (List.mem_of_mem_take h)).2

/-- What lies strictly below a selected row is selected. -/
theorem filter_below_selected {rows : List α} {before : κ} {inclusive : Bool} {last : α}
    (h : selects key before inclusive last = true) :
    rows.filter (selects key (key last) false) =
      (rows.filter (selects key before inclusive)).filter fun r => decide (key r < key last) := by
  rw [List.filter_filter]
  refine List.filter_congr fun r _ => ?_
  unfold selects at h ⊢
  by_cases hr : key r < key last
  · cases inclusive
    · have := hr.trans (by simpa using h)
      simp [hr, this]
    · have := hr.le.trans (by simpa using h)
      simp [hr, this]
  · simp [hr]

theorem pagesFrom_eq (rows : List α) (fuel : ℕ) (before : κ) (inclusive : Bool) :
    pagesFrom key n rows fuel before inclusive =
      pages key n fuel (rows.filter (selects key before inclusive)) := by
  induction fuel generalizing before inclusive with
  | zero => rfl
  | succ fuel ih =>
    have hshort : (readBefore key n rows before inclusive).length < n ↔
        (rows.filter (selects key before inclusive)).length < n := by
      unfold readBefore
      rw [List.length_take]
      omega
    simp only [pagesFrom, pages]
    by_cases h : (rows.filter (selects key before inclusive)).length < n
    · rw [if_pos (hshort.mpr h), if_pos h]
      exact List.take_of_length_le h.le
    · rw [if_neg (mt hshort.mp h), if_neg h]
      unfold readBefore
      cases hl : ((rows.filter (selects key before inclusive)).take n).getLast? with
      | none => exact List.getLast?_eq_none_iff.mp hl
      | some last =>
        have hsel : selects key before inclusive last = true :=
          selects_of_mem_page (n := n) (List.mem_of_getLast? hl)
        simp only
        rw [ih, filter_below_selected hsel]

/-! ### Rows in descending order -/

/-- The rows are in descending order of their keys. -/
abbrev Descending (key : α → κ) (rows : List α) : Prop := rows.Pairwise fun a b => key b ≤ key a

theorem getLast?_take {rows : List α} (hn : 0 < n) (h : n ≤ rows.length) :
    (rows.take n).getLast? = rows[n - 1]? := by
  rw [List.getLast?_eq_getElem?, List.length_take, Nat.min_eq_left h, List.getElem?_take,
    if_pos (by omega)]

/-- Below the last row of a page there are only rows after the page. -/
theorem filter_below_last {rows : List α} (hs : Descending key rows) (hn : 0 < n) {last : α}
    (hl : rows[n - 1]? = some last) :
    rows.filter (fun r => decide (key r < key last)) =
      (rows.drop n).filter fun r => decide (key r < key last) := by
  conv_lhs => rw [← List.take_append_drop n rows]
  rw [List.filter_append, List.filter_eq_nil_iff.mpr, List.nil_append]
  intro r hr
  obtain ⟨i, hi, rfl⟩ := List.mem_iff_getElem.mp hr
  obtain ⟨hlt, rfl⟩ := List.getElem?_eq_some_iff.mp hl
  rw [List.length_take] at hi
  rw [List.getElem_take, decide_eq_true_eq, not_lt]
  rcases Nat.lt_or_ge i (n - 1) with h | h
  · exact List.pairwise_iff_getElem.mp hs i (n - 1) (by omega) hlt h
  · have : i = n - 1 := by omega
    subst this
    exact le_refl _

/-- When the page end separates two keys, every row after the page is below it. -/
theorem filter_drop_of_separated {rows : List α} (hs : Descending key rows) (hn : 0 < n) {last : α}
    (hl : rows[n - 1]? = some last) (hsep : rows[n]?.map key ≠ some (key last)) :
    (rows.drop n).filter (fun r => decide (key r < key last)) = rows.drop n := by
  rw [List.filter_eq_self]
  intro r hr
  obtain ⟨i, hi, rfl⟩ := List.mem_iff_getElem.mp hr
  obtain ⟨hlt, rfl⟩ := List.getElem?_eq_some_iff.mp hl
  rw [List.length_drop] at hi
  have hpw := List.pairwise_iff_getElem.mp hs
  rw [List.getElem_drop, decide_eq_true_eq]
  have hfirst : key rows[n] < key rows[n - 1] := by
    refine lt_of_le_of_ne (hpw (n - 1) n hlt (by omega) (by omega)) fun h => hsep ?_
    rw [List.getElem?_eq_getElem (by omega), Option.map_some, h]
  rcases Nat.eq_zero_or_pos i with rfl | hpos
  · exact hfirst
  · exact (hpw n (n + i) (by omega) (by omega) (by omega)).trans_lt hfirst

/-- A full page, the row that ends it, and the rest. -/
theorem pages_full {rows : List α} (hs : Descending key rows) (hn : 0 < n)
    (h : n ≤ rows.length) (fuel : ℕ) : ∃ last, rows[n - 1]? = some last ∧
      pages key n (fuel + 1) rows =
        rows.take n ++
          pages key n fuel ((rows.drop n).filter fun r => decide (key r < key last)) := by
  have hl : rows[n - 1]? = some rows[n - 1] := List.getElem?_eq_getElem (by omega)
  refine ⟨rows[n - 1], hl, ?_⟩
  rw [pages, if_neg (by omega), getLast?_take hn h, hl]
  simp only
  rw [filter_below_last hs hn hl]

theorem descending_rest {rows : List α} (hs : Descending key rows) (p : α → Bool) :
    Descending key ((rows.drop n).filter p) :=
  List.Pairwise.filter p (hs.sublist (List.drop_sublist n rows))

theorem pages_sublist (hn : 0 < n) (fuel : ℕ) {rows : List α} (hs : Descending key rows) :
    (pages key n fuel rows).Sublist rows := by
  induction fuel generalizing rows with
  | zero => exact List.nil_sublist rows
  | succ fuel ih =>
    rcases Nat.lt_or_ge rows.length n with h | h
    · rw [pages, if_pos h]
    · obtain ⟨last, -, hp⟩ := pages_full hs hn h fuel
      rw [hp]
      conv_rhs => rw [← List.take_append_drop n rows]
      exact (List.Sublist.refl _).append
        ((ih (descending_rest hs _)).trans List.filter_sublist)

/-- **Enough fuel**: above the number of rows it makes no difference. -/
theorem pages_fuel (hn : 0 < n) {fuel fuel' : ℕ} {rows : List α} (hs : Descending key rows)
    (h : rows.length < fuel) (h' : rows.length < fuel') :
    pages key n fuel rows = pages key n fuel' rows := by
  induction fuel generalizing fuel' rows with
  | zero => omega
  | succ fuel ih =>
    obtain ⟨fuel', rfl⟩ : ∃ f, fuel' = f + 1 := ⟨fuel' - 1, by omega⟩
    rcases Nat.lt_or_ge rows.length n with hlt | hge
    · rw [pages, pages, if_pos hlt, if_pos hlt]
    · obtain ⟨last, hl, hp⟩ := pages_full hs hn hge fuel
      obtain ⟨last', hl', hp'⟩ := pages_full hs hn hge fuel'
      obtain rfl : last = last' := Option.some.inj (hl.symm.trans hl')
      have hrest : ((rows.drop n).filter fun r => decide (key r < key last)).length
          ≤ rows.length - n := by
        rw [← List.length_drop]
        exact List.length_filter_le _ _
      have hfuel : ((rows.drop n).filter fun r => decide (key r < key last)).length < fuel' := by
        omega
      rw [hp, hp', ih (descending_rest hs _) (by omega) hfuel]

omit [LinearOrder κ] in
/-- The separation condition past a first full page. -/
theorem separatedBelow_drop {rows : List α} {w : ℕ} (hn : 0 < n) :
    SeparatedBelow key n rows w ↔
      (n < w → rows[n - 1]?.map key ≠ rows[n]?.map key) ∧
        SeparatedBelow key n (rows.drop n) (w - n) := by
  have hshift : ∀ k, 1 ≤ k → n + (k * n - 1) = (k + 1) * n - 1 := fun k hk => by
    have : n ≤ k * n := Nat.le_mul_of_pos_left n hk
    rw [Nat.add_one_mul]
    omega
  unfold SeparatedBelow
  simp only [List.getElem?_drop]
  constructor
  · intro h
    refine ⟨fun hw => ?_, fun k hk hkw => ?_⟩
    · have := h 1 le_rfl (by omega)
      rwa [one_mul] at this
    · have := h (k + 1) (by omega) (by rw [Nat.add_one_mul]; omega)
      rwa [hshift k hk, show n + k * n = (k + 1) * n by ring]
  · rintro ⟨h1, h2⟩ k hk hkw
    rcases Nat.lt_or_ge 1 k with hk' | hk'
    · obtain ⟨j, rfl⟩ : ∃ j, k = j + 1 := ⟨k - 1, by omega⟩
      have hj : n ≤ j * n := Nat.le_mul_of_pos_left n (by omega)
      have := h2 j (by omega) (by rw [Nat.add_one_mul] at hkw; omega)
      rwa [hshift j (by omega), show n + j * n = (j + 1) * n by ring] at this
    · obtain rfl : k = 1 := by omega
      rw [one_mul] at hkw ⊢
      exact h1 hkw

/-- **The pages hold the first `w` rows iff every page end before position `w` separates two
keys.** -/
theorem pages_take_iff (hn : 0 < n) {fuel : ℕ} {rows : List α} (hs : Descending key rows)
    (hf : rows.length < fuel) {w : ℕ} (hw : w ≤ rows.length) :
    (pages key n fuel rows).take w = rows.take w ↔ SeparatedBelow key n rows w := by
  induction fuel generalizing rows w with
  | zero => omega
  | succ fuel ih =>
    rcases Nat.lt_or_ge rows.length n with hlt | hge
    · rw [pages, if_pos hlt]
      refine iff_of_true rfl fun k hk hkw => ?_
      have : n ≤ k * n := Nat.le_mul_of_pos_left n hk
      omega
    · obtain ⟨last, hl, hp⟩ := pages_full hs hn hge fuel
      rw [hp]
      rcases Nat.lt_or_ge n w with hnw | hwn
      · -- the pass goes on past the page
        have hsplit : rows.take w = rows.take n ++ (rows.drop n).take (w - n) := by
          rw [← List.take_add]
          congr 1
          omega
        rw [separatedBelow_drop hn, hsplit, List.take_append, List.length_take,
          Nat.min_eq_left hge, List.take_of_length_le (by rw [List.length_take]; omega),
          List.append_right_inj, hl, Option.map_some]
        have hlen : (rows.drop n).length = rows.length - n := List.length_drop
        by_cases hsep : rows[n]?.map key ≠ some (key last)
        · have hrest := filter_drop_of_separated hs hn hl hsep
          rw [hrest, ih (hs.sublist (List.drop_sublist n rows)) (by omega) (by omega)]
          exact ⟨fun h => ⟨fun _ => hsep.symm, h⟩, fun h => h.2⟩
        · -- the row after the page has the key of its last row, which no later page reads
          refine iff_of_false (fun h => ?_) fun h => h.1 hnw (not_not.mp hsep).symm
          have hget : rows[n]? = some rows[n] := List.getElem?_eq_getElem (by omega)
          have hmem : rows[n] ∈ (rows.drop n).take (w - n) := by
            rw [List.mem_take_iff_getElem]
            exact ⟨0, by omega, by simp⟩
          rw [← h] at hmem
          have hin := (pages_sublist hn fuel (descending_rest hs _)).subset
            (List.mem_of_mem_take hmem)
          have hkey := of_decide_eq_true (List.mem_filter.mp hin).2
          rw [hget, Option.map_some, not_not, Option.some.injEq] at hsep
          exact absurd hkey (by rw [hsep]; exact lt_irrefl _)
      · refine iff_of_true ?_ fun k hk hkw => ?_
        · rw [List.take_append_of_le_length (by rw [List.length_take]; omega), List.take_take,
            Nat.min_eq_left hwn]
        · have : n ≤ k * n := Nat.le_mul_of_pos_left n hk
          omega

end Pages

/-! ## Sorting and selecting -/

section Sorted

variable {α : Type*} {r : α → α → Prop} [DecidableRel r]

/-- Selecting and sorting commute on a sorted list with one more element. -/
theorem filter_orderedInsert [IsTrans α r] (p : α → Bool) (a : α) {l : List α}
    (hl : l.Pairwise r) : (l.orderedInsert r a).filter p =
      if p a then (l.filter p).orderedInsert r a else l.filter p := by
  induction l with
  | nil => cases h : p a <;> simp [h]
  | cons b l ih =>
    obtain ⟨hb, hl'⟩ := List.pairwise_cons.mp hl
    simp only [List.orderedInsert]
    by_cases hab : r a b
    · rw [if_pos hab]
      cases hp : p a with
      | false => simp [hp]
      | true =>
        -- every selected element comes after `a`
        have hall : ∀ c ∈ (b :: l).filter p, r a c := fun c hc => by
          rcases List.mem_cons.mp (List.mem_of_mem_filter hc) with rfl | hc
          · exact hab
          · exact IsTrans.trans a b c hab (hb c hc)
        rw [List.filter_cons_of_pos hp, if_pos rfl]
        cases hf : (b :: l).filter p with
        | nil => rfl
        | cons c cs =>
          rw [hf] at hall
          rw [List.orderedInsert, if_pos (hall c List.mem_cons_self)]
    · rw [if_neg hab]
      cases hpb : p b with
      | false => rw [List.filter_cons_of_neg (by simp [hpb]), ih hl',
          List.filter_cons_of_neg (by simp [hpb])]
      | true =>
        rw [List.filter_cons_of_pos hpb, ih hl', List.filter_cons_of_pos hpb]
        cases p a with
        | false => rfl
        | true => simp [List.orderedInsert, hab]

/-- **Selecting commutes with a stable sort.** -/
theorem filter_insertionSort [Std.Total r] [IsTrans α r] (p : α → Bool) (l : List α) :
    (l.insertionSort r).filter p = (l.filter p).insertionSort r := by
  induction l with
  | nil => rfl
  | cons a l ih =>
    rw [List.insertionSort_cons, filter_orderedInsert p a (List.pairwise_insertionSort r l), ih]
    cases h : p a with
    | false => rw [List.filter_cons_of_neg (by simp [h])]; simp
    | true => rw [List.filter_cons_of_pos h, List.insertionSort_cons]; simp

end Sorted

/-! ## The paged loop -/

section PagedLoop

variable {α κ σ ε : Type*} [LinearOrder κ] (key : α → κ) (n : ℕ) (body : σ → α → Except ε σ)
  (done : σ → Bool)

/-- `while (!done) { page = read; body on page; if (page.Length < n) break; before = last key }`.
A page of `n > 0` rows has a last row. -/
def pagedLoop (read : κ → Bool → List α) : ℕ → κ → Bool → σ → Except ε σ
  | 0, _, _, s => .ok s
  | fuel + 1, before, inclusive, s =>
    if done s then .ok s
    else
      let page := read before inclusive
      match loop body done s page with
      | .error e => .error e
      | .ok s' =>
        if page.length < n then .ok s'
        else match page.getLast? with
          | none => .ok s'
          | some last => pagedLoop read fuel (key last) false s'

variable {key n body done}

/-- **The paged loop is the loop over what the pages hold.** -/
theorem pagedLoop_eq (rows : List α) (fuel : ℕ) (before : κ) (inclusive : Bool) (s : σ) :
    pagedLoop key n body done (readBefore key n rows) fuel before inclusive s =
      loop body done s (pagesFrom key n rows fuel before inclusive) := by
  induction fuel generalizing before inclusive s with
  | zero => rfl
  | succ fuel ih =>
    simp only [pagedLoop, pagesFrom]
    by_cases hd : done s = true
    · rw [if_pos hd, loop_of_done hd]
    · rw [if_neg hd]
      by_cases hp : (readBefore key n rows before inclusive).length < n
      · rw [if_pos hp]
        cases h : loop body done s (readBefore key n rows before inclusive) with
        | error e => rfl
        | ok s' => simp [hp]
      · rw [if_neg hp]
        cases hl : (readBefore key n rows before inclusive).getLast? with
        | none =>
          cases h : loop body done s (readBefore key n rows before inclusive) with
          | error e => rfl
          | ok s' => simp [hp]
        | some last =>
          simp only
          rw [loop_append]
          cases h : loop body done s (readBefore key n rows before inclusive) with
          | error e => rfl
          | ok s' => simp only [if_neg hp, ih]

/-- **Paging is invisible exactly when page ends separate keys**: over descending rows, the paged
loop runs its body on the rows one pass runs it on iff every page end inside that pass separates
two keys. -/
theorem walked_pages_iff (hn : 0 < n) {fuel : ℕ} {rows : List α} (hs : Descending key rows)
    (hf : rows.length < fuel) (s : σ) :
    walked body done s (pages key n fuel rows) = walked body done s rows ↔
      SeparatedBelow key n rows (walked body done s rows).length := by
  rw [walked_eq_iff (pages_sublist hn fuel hs).length_le,
    pages_take_iff hn hs hf (walked_isPrefix s rows).length_le]

end PagedLoop

end AionPool.Lib.PagedRead
