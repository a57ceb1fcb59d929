import AionPool.Mining.ShareRecorder
import Mathlib.Data.List.ReduceOption

/-!
# Share recovery

`RecoverSharesAsync` reads the recovery file line by line and imports the shares in batches. The
transaction of a batch looks up the pool of each block candidate, for the notification, in a
dictionary that `Start` fills. In recovery mode `Start` has not run.

* `persistSharesCore_of_importable`: a batch is imported when every candidate's pool is known.
* `inv_recoverLine`: what was read is what was imported and what is still in the list, and a list
  that was not imported in time has a share that cannot be.
* **`complete_iff`**: a recovery is complete exactly when every share can be imported, and none
  shares its batch with a line `null` or comes behind it; `recovery_complete_iff` is the case
  without `Start`.

Models `ShareRecorder.cs:107-128` and `:182-280`. Out of scope: the progress that is logged.
-/

namespace AionPool.Mining.Recovery

open AionPool.Persistence

/-! ## The batch -/

/-- `pools[share.PoolId]`, in the dictionary of the pools' ids, null before `Start`. -/
def poolOf (pools : Option (List String)) (poolId : String) : Except Exn String :=
  match pools with
  | none => throw .nullReference
  | some ids => if poolId ∈ ids then return poolId else throw .keyNotFound

/-- The loop over the block candidates of a batch, each inserted and announced. -/
def insertBlocks (pools : Option (List String)) : Database → List (Share ℚ) → Except Exn Database
  | db, [] => return db
  | db, share :: shares =>
    if share.isBlockCandidate then do
      let db := BlockRepository.insertAsync db share.toModelBlock
      let _ ← poolOf pools share.poolId
      insertBlocks pools db shares
    else insertBlocks pools db shares

/-- The shares of a batch, as `BatchInsertAsync` reads them: it throws for one that is null. -/
def readShares : List (Option (Share ℚ)) → Except Exn (List (Share ℚ))
  | [] => return []
  | none :: _ => throw .nullReference
  | some share :: shares => return share :: (← readShares shares)

/-- `PersistSharesCoreAsync`: the tables it commits. One that throws is rolled back. -/
def persistSharesCore (pools : Option (List String)) (db : Database)
    (shares : List (Option (Share ℚ))) : Except Exn Database := do
  let read ← readShares shares
  insertBlocks pools (ShareRepository.batchInsertAsync db (read.map Share.toModelShare)) read

/-- The batch of the share does not throw for it. -/
def Importable (pools : Option (List String)) (share : Share ℚ) : Prop :=
  share.isBlockCandidate = true → ∃ ids, pools = some ids ∧ share.poolId ∈ ids

/-- An element of the list, which can be null. -/
def ImportableEntry (pools : Option (List String)) (entry : Option (Share ℚ)) : Prop :=
  ∃ share, entry = some share ∧ Importable pools share

variable {pools : Option (List String)}

theorem poolOf_ok_iff {poolId : String} :
    (∃ p, poolOf pools poolId = .ok p) ↔ ∃ ids, pools = some ids ∧ poolId ∈ ids := by
  unfold poolOf
  cases pools with
  | none => exact iff_of_false (fun ⟨_, h⟩ => nomatch h) (fun ⟨_, h, _⟩ => nomatch h)
  | some ids =>
    dsimp only
    split
    · rename_i hmem
      exact iff_of_true ⟨_, rfl⟩ ⟨ids, rfl, hmem⟩
    · rename_i hmem
      refine iff_of_false (fun ⟨_, h⟩ => nomatch h) ?_
      rintro ⟨ids', h, hmem'⟩
      obtain rfl := Option.some.inj h
      exact hmem hmem'

theorem insertBlocks_of_importable {shares : List (Share ℚ)}
    (h : ∀ s ∈ shares, Importable pools s) (db : Database) :
    insertBlocks pools db shares = .ok ((shares.filter fun s => s.isBlockCandidate).foldl
      (fun db s => BlockRepository.insertAsync db s.toModelBlock) db) := by
  induction shares generalizing db with
  | nil => rfl
  | cons s shares ih =>
    have hrest := ih fun t ht => h t (List.mem_cons_of_mem s ht)
    unfold insertBlocks
    split
    · rename_i hcandidate
      obtain ⟨p, hp⟩ := poolOf_ok_iff.mpr (h s List.mem_cons_self hcandidate)
      rw [hp, List.filter_cons_of_pos hcandidate]
      exact hrest _
    · rename_i hcandidate
      rw [List.filter_cons_of_neg hcandidate]
      exact hrest db

theorem readShares_of_not_none {entries : List (Option (Share ℚ))} (h : none ∉ entries) :
    readShares entries = .ok entries.reduceOption := by
  induction entries with
  | nil => rfl
  | cons entry entries ih =>
    cases entry with
    | none => exact absurd List.mem_cons_self h
    | some share =>
      rw [List.reduceOption_cons_of_some, readShares, ih fun hn => h (List.mem_cons_of_mem _ hn)]
      rfl

theorem none_not_mem_of_importable {entries : List (Option (Share ℚ))}
    (h : ∀ e ∈ entries, ImportableEntry pools e) : none ∉ entries := fun hmem => by
  obtain ⟨share, hshare, -⟩ := h _ hmem
  exact nomatch hshare

theorem importable_of_mem_reduceOption {entries : List (Option (Share ℚ))}
    (h : ∀ e ∈ entries, ImportableEntry pools e) {s : Share ℚ} (hs : s ∈ entries.reduceOption) :
    Importable pools s := by
  obtain ⟨share, hshare, himportable⟩ := h _ (List.reduceOption_mem_iff.mp hs)
  exact Option.some.inj hshare ▸ himportable

/-- **A batch is imported** when every share of it can be. -/
theorem persistSharesCore_of_importable {entries : List (Option (Share ℚ))}
    (h : ∀ e ∈ entries, ImportableEntry pools e) (db : Database) :
    persistSharesCore pools db entries = .ok (persistSharesCoreAsync db entries.reduceOption) := by
  unfold persistSharesCore
  rw [readShares_of_not_none (none_not_mem_of_importable h)]
  exact insertBlocks_of_importable (fun _ hs => importable_of_mem_reduceOption h hs) _

theorem readShares_of_none {entries : List (Option (Share ℚ))} (h : none ∈ entries) :
    ∃ e, readShares entries = .error e := by
  induction entries with
  | nil => exact absurd h List.not_mem_nil
  | cons entry entries ih =>
    cases entry with
    | none => exact ⟨_, rfl⟩
    | some share =>
      obtain ⟨e, he⟩ := ih (List.mem_of_ne_of_mem (by simp) h)
      rw [readShares, he]
      exact ⟨e, rfl⟩

theorem insertBlocks_of_not_importable {shares : List (Share ℚ)}
    (h : ∃ s ∈ shares, ¬ Importable pools s) (db : Database) :
    ∃ e, insertBlocks pools db shares = .error e := by
  induction shares generalizing db with
  | nil => exact absurd h (by simp)
  | cons s shares ih =>
    unfold insertBlocks
    split
    · rename_i hcandidate
      cases hpool : poolOf pools s.poolId with
      | error e => exact ⟨e, rfl⟩
      | ok p =>
        obtain ⟨t, ht, hnot⟩ := h
        rcases List.mem_cons.mp ht with rfl | ht
        · exact absurd (fun _ => poolOf_ok_iff.mp ⟨p, hpool⟩) hnot
        · exact ih ⟨t, ht, hnot⟩ _
    · rename_i hcandidate
      obtain ⟨t, ht, hnot⟩ := h
      rcases List.mem_cons.mp ht with rfl | ht
      · exact absurd (fun hc => absurd hc hcandidate) hnot
      · exact ih ⟨t, ht, hnot⟩ _

/-- One that cannot be imported takes its batch with it. -/
theorem persistSharesCore_of_not_importable {entries : List (Option (Share ℚ))}
    (h : ∃ e ∈ entries, ¬ ImportableEntry pools e) (db : Database) :
    ∃ e, persistSharesCore pools db entries = .error e := by
  unfold persistSharesCore
  by_cases hnone : none ∈ entries
  · obtain ⟨e, he⟩ := readShares_of_none hnone
    rw [he]
    exact ⟨e, rfl⟩
  · obtain ⟨entry, hentry, hnot⟩ := h
    rw [readShares_of_not_none hnone]
    cases entry with
    | none => exact absurd hentry hnone
    | some share =>
      refine insertBlocks_of_not_importable ⟨share, ?_, fun hs => hnot ⟨share, rfl, hs⟩⟩ _
      exact List.reduceOption_mem_iff.mpr hentry

/-! ## The file -/

/-- `char.IsWhiteSpace`. -/
def isWhiteSpace (c : Char) : Bool :=
  (9 ≤ c.toNat ∧ c.toNat ≤ 13) ∨ (0x2000 ≤ c.toNat ∧ c.toNat ≤ 0x200A) ∨
    c.toNat ∈ [0x20, 0x85, 0xA0, 0x1680, 0x2028, 0x2029, 0x202F, 0x205F, 0x3000]

/-- `Trim`. -/
def trim (line : String) : String :=
  String.ofList ((line.toList.dropWhile isWhiteSpace).reverse.dropWhile isWhiteSpace).reverse

/-- The lines that are left out, once they are trimmed. -/
def skips (line : String) : Bool := line = "" ∨ line.toList.head? = some '#'

/-- What `RecoverSharesAsync` works on: the tables, and the list of shares, some of them null. -/
structure State where
  database : Database
  shares : List (Option (Share ℚ))

/-- The size of a batch. -/
def bufferSize : ℕ := 100

/-- Import the list, which is kept when the batch fails. -/
def importShares (pools : Option (List String)) (st : State) : State :=
  match persistSharesCore pools st.database st.shares with
  | .ok database => ⟨database, []⟩
  | .error _ => st

variable (pools) (deserializeObject : String → Option (Option (Share ℚ)))

/-- One line. A `JsonException`, for which the deserializer has no result, is caught, and the list
is looked at all the same; a line `null` has the result null. -/
def recoverLine (st : State) (line : String) : State :=
  let line := trim line
  if skips line then st
  else
    let st := { st with shares := st.shares ++ (deserializeObject line).toList }
    if st.shares.length = bufferSize then importShares pools st else st

/-- `RecoverSharesAsync`, for the lines of the file. -/
def recoverSharesAsync (db : Database) (lines : List String) : Database :=
  let st := lines.foldl (recoverLine pools deserializeObject) ⟨db, []⟩
  if 0 < st.shares.length then (importShares pools st).database else st.database

/-- What a line of the file adds to the list. -/
def entryOf (line : String) : Option (Option (Share ℚ)) :=
  if skips (trim line) then none else deserializeObject (trim line)

/-- The shares of the lines. -/
def sharesOf (lines : List String) : List (Share ℚ) :=
  (lines.filterMap (entryOf deserializeObject)).reduceOption

/-- Every share is inserted once, and a pending block for each block candidate among them. -/
structure Complete (db db' : Database) (recovered : List (Share ℚ)) : Prop where
  shares : db'.shares.Perm (db.shares ++ recovered.map Share.toModelShare)
  blocks : db'.blocks.Perm (db.blocks ++ (recovered.filter fun s => s.isBlockCandidate).map fun s =>
    BlockRepository.row s.toModelBlock)

/-! ## What is imported -/

/-- The rows of the shares stand behind those of `db`, in order. -/
structure Inserted (db : Database) (imported : List (Share ℚ)) (db' : Database) : Prop where
  shares : db'.shares = db.shares ++ imported.map Share.toModelShare
  blocks : db'.blocks = db.blocks ++ (imported.filter fun s => s.isBlockCandidate).map fun s =>
    BlockRepository.row s.toModelBlock

variable {pools deserializeObject} {db db' : Database}

theorem Inserted.nil (db : Database) : Inserted db [] db where
  shares := by simp
  blocks := by simp

theorem Inserted.append {ss ts : List (Share ℚ)} (h : Inserted db ss db') :
    Inserted db (ss ++ ts) (persistSharesCoreAsync db' ts) where
  shares := by
    have hshares : (persistSharesCoreAsync db' ts).shares =
        db'.shares ++ ts.map Share.toModelShare := by
      unfold persistSharesCoreAsync
      rw [shares_foldl_insert]
      rfl
    rw [hshares, h.shares, List.map_append, List.append_assoc]
  blocks := by
    have hblocks : (persistSharesCoreAsync db' ts).blocks = db'.blocks ++
        (ts.filter fun s => s.isBlockCandidate).map fun s => BlockRepository.row s.toModelBlock :=
      blocks_foldl_insert _ _
    rw [hblocks, h.blocks, List.filter_append, List.map_append, List.append_assoc]

/-- What was read is what was imported, in whole batches, and what is in the list; and a list that
has not been imported at its size has an element in its first batch that cannot be. -/
structure Inv (pools : Option (List String)) (db : Database) (read : List (Option (Share ℚ)))
    (st : State) : Prop where
  imported : ∃ flushed, read = flushed ++ st.shares ∧
    Inserted db flushed.reduceOption st.database ∧ (∀ e ∈ flushed, ImportableEntry pools e) ∧
    bufferSize ∣ flushed.length
  buffered : st.shares.length < bufferSize ∨
    ∃ e ∈ st.shares.take bufferSize, ¬ ImportableEntry pools e

theorem Inv.init (pools : Option (List String)) (db : Database) : Inv pools db [] ⟨db, []⟩ where
  imported := ⟨[], rfl, Inserted.nil db, by simp, dvd_zero _⟩
  buffered := Or.inl (show 0 < 100 by norm_num)

/-- An import takes the whole list, or leaves all of it for an element that cannot be imported. -/
theorem importShares_cases (pools : Option (List String)) (st : State) :
    (importShares pools st = ⟨persistSharesCoreAsync st.database st.shares.reduceOption, []⟩ ∧
      ∀ e ∈ st.shares, ImportableEntry pools e) ∨
    importShares pools st = st ∧ ∃ e ∈ st.shares, ¬ ImportableEntry pools e := by
  unfold importShares
  by_cases hall : ∀ e ∈ st.shares, ImportableEntry pools e
  · rw [persistSharesCore_of_importable hall]
    exact .inl ⟨rfl, hall⟩
  · have hnot : ∃ e ∈ st.shares, ¬ ImportableEntry pools e := by simpa using hall
    obtain ⟨e, he⟩ := persistSharesCore_of_not_importable hnot st.database
    rw [he]
    exact .inr ⟨rfl, hnot⟩

/-- What an import that takes the list adds to what was imported. -/
theorem imported_append {flushed left : List (Option (Share ℚ))}
    (hinserted : Inserted db flushed.reduceOption db')
    (hflushed : ∀ e ∈ flushed, ImportableEntry pools e)
    (hleft : ∀ e ∈ left, ImportableEntry pools e) :
    Inserted db (flushed ++ left).reduceOption
        (persistSharesCoreAsync db' left.reduceOption) ∧
      ∀ e ∈ flushed ++ left, ImportableEntry pools e := by
  rw [List.reduceOption_append]
  exact ⟨hinserted.append, fun e he => (List.mem_append.mp he).elim (hflushed e) (hleft e)⟩

variable (deserializeObject)

/-- **One line** of the file. -/
theorem inv_recoverLine {read : List (Option (Share ℚ))} {st : State} (h : Inv pools db read st)
    (line : String) : Inv pools db (read ++ (entryOf deserializeObject line).toList)
      (recoverLine pools deserializeObject st line) := by
  obtain ⟨⟨flushed, hread, hinserted, hflushed, hdvd⟩, hbuffered⟩ := h
  unfold entryOf recoverLine
  dsimp only
  split
  · rw [Option.toList_none, List.append_nil]
    exact ⟨⟨flushed, hread, hinserted, hflushed, hdvd⟩, hbuffered⟩
  have hread' : read ++ (deserializeObject (trim line)).toList =
      flushed ++ (st.shares ++ (deserializeObject (trim line)).toList) := by
    rw [hread, List.append_assoc]
  split
  · rename_i hsize
    rcases importShares_cases pools
      { st with shares := st.shares ++ (deserializeObject (trim line)).toList } with
      ⟨himport, hall⟩ | ⟨himport, hnot⟩
    · rw [himport]
      obtain ⟨hinserted', hflushed'⟩ := imported_append hinserted hflushed hall
      refine ⟨⟨_, (hread'.trans (List.append_nil _).symm), hinserted', hflushed', ?_⟩,
        .inl (show 0 < 100 by norm_num)⟩
      rw [List.length_append, hsize]
      exact dvd_add hdvd dvd_rfl
    · rw [himport]
      refine ⟨⟨flushed, hread', hinserted, hflushed, hdvd⟩, .inr ?_⟩
      rwa [List.take_of_length_le hsize.le]
  · rename_i hsize
    refine ⟨⟨flushed, hread', hinserted, hflushed, hdvd⟩, ?_⟩
    rcases hbuffered with hlt | ⟨e, he, hnot⟩
    · left
      have hone : (deserializeObject (trim line)).toList.length ≤ 1 := by
        cases deserializeObject (trim line) <;> simp
      rw [List.length_append] at hsize ⊢
      omega
    · right
      rw [List.take_append]
      exact ⟨e, List.mem_append_left _ he, hnot⟩

theorem inv_foldl {read : List (Option (Share ℚ))} {st : State} (h : Inv pools db read st)
    (lines : List String) : Inv pools db (read ++ lines.filterMap (entryOf deserializeObject))
      (lines.foldl (recoverLine pools deserializeObject) st) := by
  induction lines generalizing read st with
  | nil => simpa using h
  | cons line lines ih =>
    have hnext := ih (inv_recoverLine deserializeObject h line)
    rw [List.append_assoc] at hnext
    rw [List.foldl_cons]
    cases hshare : entryOf deserializeObject line with
    | none =>
      rw [List.filterMap_cons_none hshare]
      rwa [hshare] at hnext
    | some s =>
      rw [List.filterMap_cons_some hshare]
      rwa [hshare] at hnext

/-- What a recovery imports: the whole list, or the batches in front of the first one with an
element that cannot be imported. -/
theorem recoverSharesAsync_spec (pools : Option (List String))
    (deserializeObject : String → Option (Option (Share ℚ))) (db : Database)
    (lines : List String) :
    ∃ flushed left,
    lines.filterMap (entryOf deserializeObject) = flushed ++ left ∧
    Inserted db flushed.reduceOption (recoverSharesAsync pools deserializeObject db lines) ∧
    (∀ e ∈ flushed, ImportableEntry pools e) ∧
    (left = [] ∨ bufferSize ∣ flushed.length ∧
      ∃ e ∈ left.take bufferSize, ¬ ImportableEntry pools e) := by
  obtain ⟨⟨flushed, hread, hinserted, hflushed, hdvd⟩, hbuffered⟩ :=
    inv_foldl deserializeObject (Inv.init pools db) lines
  rw [List.nil_append] at hread
  unfold recoverSharesAsync
  dsimp only
  split
  · rcases importShares_cases pools
      (lines.foldl (recoverLine pools deserializeObject) ⟨db, []⟩) with
      ⟨himport, hall⟩ | ⟨himport, hnot⟩
    · rw [himport]
      obtain ⟨hinserted', hflushed'⟩ := imported_append hinserted hflushed hall
      exact ⟨_, [], hread.trans (List.append_nil _).symm, hinserted', hflushed', .inl rfl⟩
    · rw [himport]
      refine ⟨flushed, _, hread, hinserted, hflushed, .inr ⟨hdvd, ?_⟩⟩
      rcases hbuffered with hlt | hnot'
      · rwa [List.take_of_length_le hlt.le]
      · exact hnot'
  · rename_i hempty
    exact ⟨flushed, _, hread, hinserted, hflushed,
      .inl (List.eq_nil_of_length_eq_zero (Nat.eq_zero_of_not_pos hempty))⟩

/-- Every share stands in an earlier batch than every line `null`. -/
def NullsLast (entries : List (Option (Share ℚ))) : Prop :=
  ∀ (i j : ℕ) (share : Share ℚ), entries[i]? = some none → entries[j]? = some (some share) →
    j < bufferSize * (i / bufferSize)

/-- Where the batches in front of a null have been imported, no share is left. -/
theorem nullsLast_append_iff {flushed left : List (Option (Share ℚ))}
    (hflushed : none ∉ flushed) (hdvd : bufferSize ∣ flushed.length)
    (hnull : none ∈ left.take bufferSize) :
    NullsLast (flushed ++ left) ↔ left.reduceOption = [] := by
  have hpos : 0 < bufferSize := by decide
  obtain ⟨m, hm⟩ := hdvd
  constructor
  · intro h
    by_contra hne
    obtain ⟨share, hshare⟩ := List.exists_mem_of_ne_nil _ hne
    obtain ⟨q, hq⟩ := List.mem_iff_getElem?.mp (List.reduceOption_mem_iff.mp hshare)
    obtain ⟨p, hp⟩ := List.mem_iff_getElem?.mp hnull
    rw [List.getElem?_take] at hp
    split at hp
    · rename_i hlt
      have hlast := h (flushed.length + p) (flushed.length + q) share
        (by rw [List.getElem?_append_right (Nat.le_add_right _ _), Nat.add_sub_cancel_left, hp])
        (by rw [List.getElem?_append_right (Nat.le_add_right _ _), Nat.add_sub_cancel_left, hq])
      rw [hm, Nat.mul_add_div hpos, Nat.div_eq_of_lt hlt, Nat.add_zero] at hlast
      omega
    · exact nomatch hp
  · intro h i j share hi hj
    have hjlt : j < flushed.length := by
      by_contra hge
      rw [List.getElem?_append_right (by omega)] at hj
      have := List.reduceOption_mem_iff.mpr (List.mem_of_getElem? hj)
      rw [h] at this
      exact List.not_mem_nil this
    have hile : flushed.length ≤ i := by
      by_contra hlt
      rw [List.getElem?_append_left (by omega)] at hi
      exact hflushed (List.mem_of_getElem? hi)
    rw [hm] at hjlt hile
    exact hjlt.trans_le (Nat.mul_le_mul_left _ ((Nat.le_div_iff_mul_le hpos).mpr (by
      rwa [Nat.mul_comm])))

/-- **A recovery is complete** exactly when every share of the file can be imported, and none stands
in the batch of a line `null` or behind it. -/
theorem complete_iff (db : Database) (lines : List String) :
    Complete db (recoverSharesAsync pools deserializeObject db lines)
        (sharesOf deserializeObject lines) ↔
      (∀ s ∈ sharesOf deserializeObject lines, Importable pools s) ∧
        NullsLast (lines.filterMap (entryOf deserializeObject)) := by
  obtain ⟨flushed, left, hread, hinserted, hflushed, hleft⟩ :=
    recoverSharesAsync_spec pools deserializeObject db lines
  have hnone := none_not_mem_of_importable hflushed
  have himportable : ∀ s ∈ flushed.reduceOption, Importable pools s :=
    fun _ hs => importable_of_mem_reduceOption hflushed hs
  unfold sharesOf
  rw [hread, List.reduceOption_append]
  -- nothing but the imported batches is in the tables
  have hcomplete : Complete db (recoverSharesAsync pools deserializeObject db lines)
      (flushed.reduceOption ++ left.reduceOption) ↔ left.reduceOption = [] := by
    constructor
    · intro hcomplete
      have hlength := hcomplete.shares.length_eq
      rw [hinserted.shares] at hlength
      simp only [List.length_append, List.length_map] at hlength
      exact List.eq_nil_of_length_eq_zero (by omega)
    · intro hnil
      rw [hnil, List.append_nil]
      exact ⟨by rw [hinserted.shares], by rw [hinserted.blocks]⟩
  rw [hcomplete]
  rcases hleft with rfl | ⟨hdvd, e, he, hnot⟩
  · rw [List.reduceOption_nil, List.append_nil, List.append_nil]
    refine iff_of_true rfl ⟨himportable, fun i j share hi _ => ?_⟩
    exact absurd (List.mem_of_getElem? hi) hnone
  constructor
  · intro hnil
    have hnull : e = none := by
      cases e with
      | none => rfl
      | some share =>
        have := List.reduceOption_mem_iff.mpr (List.mem_of_mem_take he)
        rw [hnil] at this
        exact absurd this List.not_mem_nil
    rw [hnil, List.append_nil]
    exact ⟨himportable, (nullsLast_append_iff hnone hdvd (hnull ▸ he)).mpr hnil⟩
  · rintro ⟨hall, hlast⟩
    have hnull : e = none := by
      cases e with
      | none => rfl
      | some share =>
        refine absurd ⟨share, rfl, hall share ?_⟩ hnot
        exact List.mem_append_right _ (List.reduceOption_mem_iff.mpr (List.mem_of_mem_take he))
    exact (nullsLast_append_iff hnone hdvd (hnull ▸ he)).mp hlast

/-! ## Recovery mode -/

/-- **Without `Start`** a recovery is complete exactly when no share of the file is a block
candidate, and none stands in the batch of a line `null` or behind it. -/
theorem recovery_complete_iff (db : Database) (lines : List String) :
    Complete db (recoverSharesAsync none deserializeObject db lines)
        (sharesOf deserializeObject lines) ↔
      (∀ s ∈ sharesOf deserializeObject lines, s.isBlockCandidate = false) ∧
        NullsLast (lines.filterMap (entryOf deserializeObject)) := by
  rw [complete_iff]
  refine and_congr_left fun _ => forall₂_congr fun s _ => ?_
  unfold Importable
  simp

/-- A share as a line of the file writes it. -/
def sampleShare (isBlockCandidate : Bool) : Share ℚ where
  poolId := "aion1"
  miner := "0xa0a"
  worker := none
  ipAddress := none
  userAgent := none
  source := none
  difficulty := 1
  blockHeight := 7
  blockReward := 0
  blockHash := none
  isBlockCandidate := isBlockCandidate
  transactionConfirmationData := "7f"
  networkDifficulty := 4
  created := 10

/-- A file with a comment, a share and a block candidate, of which nothing is recovered. -/
theorem recovery_incomplete :
    let deserializeObject := fun line => if line = "{block}" then some (some (sampleShare true))
      else if line = "{share}" then some (some (sampleShare false)) else none
    let lines := ["# shares", "", "{share}", " {block}"]
    sharesOf deserializeObject lines = [sampleShare false, sampleShare true] ∧
      recoverSharesAsync none deserializeObject Database.empty lines = Database.empty ∧
      ¬ Complete Database.empty (recoverSharesAsync none deserializeObject Database.empty lines)
        (sharesOf deserializeObject lines) := by
  intro deserializeObject lines
  have hparsed : sharesOf deserializeObject lines = [sampleShare false, sampleShare true] := by rfl
  refine ⟨hparsed, by rfl, fun h => ?_⟩
  have hall := ((complete_iff deserializeObject Database.empty lines).mp h).1
  rw [hparsed] at hall
  obtain ⟨ids, hids, -⟩ := hall (sampleShare true) (by simp) rfl
  exact nomatch hids

end AionPool.Mining.Recovery
