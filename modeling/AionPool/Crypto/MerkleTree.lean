import AionPool.Lib.PairTree
import AionPool.Runtime

/-!
# Merkle branches

`MerkleTree.CalculateSteps` runs over the levels of a Merkle tree whose first leaf is not known: a
null stands in its place, each level gives a step, and an odd level gets its last element twice.
`WithFirst` joins the first hash with the steps.

* `joinLevel_eq`: what the inner loop makes of a level.
* `calculateLoop_eq`: the steps are the branch of the hashes.
* **`withFirst_eq_root`**: the steps give the Merkle root, for every list and every digest.

Models `MerkleTree.cs:78-138`.
-/

namespace AionPool.Crypto.MerkleTree

open AionPool.Lib

/-- A `byte[]`. -/
abbrev Hash := List UInt8

/-- `L[i]`. -/
def get (L : List (Option Hash)) (i : ℕ) : Except Exn (Option Hash) :=
  match L[i]? with
  | none => throw .argumentOutOfRange
  | some hash => return hash

variable (doubleDigest : Hash → Hash)

/-- `MerkleJoin`. -/
def merkleJoin : Option Hash → Option Hash → Except Exn Hash
  | some hash1, some hash2 => return doubleDigest (hash1 ++ hash2)
  | _, _ => throw .argumentNull

/-- The loop that joins the elements of a level from `i` on, up to `Ll`. -/
def joinLoop (L : List (Option Hash)) (Ll i : ℕ) : Except Exn (List (Option Hash)) :=
  if i < Ll then do
    let left ← get L i
    let right ← get L (i + 1)
    let hash ← merkleJoin doubleDigest left right
    let Ld ← joinLoop L Ll (i + 2)
    return some hash :: Ld
  else return []
termination_by Ll - i

/-- An odd level gets its last element twice. -/
def padLevel (L : List (Option Hash)) : Except Exn (List (Option Hash)) :=
  if L.length % 2 = 1 then do
    let last ← get L (L.length - 1)
    return L ++ [last]
  else return L

/-- The body of `while(true)` behind its first step. -/
def joinLevel (L : List (Option Hash)) : Except Exn (List (Option Hash)) := do
  let padded ← padLevel L
  joinLoop doubleDigest padded L.length 2

variable {doubleDigest}

/-! ## The levels shrink -/

theorem length_joinLoop {L Ld : List (Option Hash)} {Ll i : ℕ}
    (h : joinLoop doubleDigest L Ll i = .ok Ld) : Ld.length = (Ll - i + 1) / 2 := by
  induction i using joinLoop.induct Ll generalizing Ld with
  | case1 i hlt ih =>
    rw [joinLoop, if_pos hlt] at h
    obtain ⟨left, -, h⟩ := bind_eq_ok.mp h
    obtain ⟨right, -, h⟩ := bind_eq_ok.mp h
    obtain ⟨hash, -, h⟩ := bind_eq_ok.mp h
    obtain ⟨Ld', hLd', h⟩ := bind_eq_ok.mp h
    obtain rfl := Except.ok.inj h
    rw [List.length_cons, ih hLd']
    omega
  | case2 i hge =>
    rw [joinLoop, if_neg hge] at h
    obtain rfl := Except.ok.inj h
    simp only [List.length_nil]
    omega

theorem length_joinLevel {L Ld : List (Option Hash)} {step : Option Hash}
    (hstep : get L 1 = .ok step) (h : joinLevel doubleDigest L = .ok Ld) :
    Ld.length + 1 < L.length := by
  have hlen : 1 < L.length := by
    by_contra hle
    unfold get at hstep
    rw [List.getElem?_eq_none (by omega)] at hstep
    exact nomatch hstep
  obtain ⟨L', -, h⟩ := bind_eq_ok.mp h
  rw [length_joinLoop h]
  omega

variable (doubleDigest)

/-- `while(true)`, with the level that it has come to. -/
def calculateLoop (L steps : List (Option Hash)) : Except Exn (List (Option Hash)) :=
  if L.length = 1 then return steps
  else
    match _hstep : get L 1, _hlevel : joinLevel doubleDigest L with
    | .ok step, .ok Ld => calculateLoop (none :: Ld) (steps ++ [step])
    | .error e, _ => throw e
    | .ok _, .error e => throw e
termination_by L.length
decreasing_by exact length_joinLevel ‹_› ‹_›

/-- `CalculateSteps`. -/
def calculateSteps (hashList : List Hash) : Except Exn (List (Option Hash)) :=
  let L := none :: hashList.map some
  if 1 < L.length then calculateLoop doubleDigest L [] else return []

/-- `WithFirst`, of a tree with these steps. -/
def withFirst (steps : List (Option Hash)) (first : Hash) : Except Exn Hash :=
  steps.foldlM (fun first step => merkleJoin doubleDigest (some first) step) first

variable {doubleDigest}

/-! ## What the loops compute -/

theorem get_drop {L : List (Option Hash)} {i j : ℕ} {hash : Option Hash}
    (h : (L.drop i)[j]? = some hash) : get L (i + j) = .ok hash := by
  rw [List.getElem?_drop] at h
  unfold get
  rw [h]
  rfl

/-- The elements that are joined in pairs are an even number of hashes. -/
theorem joinLoop_eq {L : List (Option Hash)} {Ll i : ℕ} {hashes : List Hash}
    (heven : hashes.length % 2 = 0) (hdrop : L.drop i = hashes.map some)
    (hle : i + hashes.length ≤ Ll + 1) (hge : Ll ≤ i + hashes.length) :
    joinLoop doubleDigest L Ll i =
      .ok ((PairTree.level (fun a b => doubleDigest (a ++ b)) hashes).map some) := by
  induction hashes using PairTree.level.induct generalizing i with
  | case1 =>
    rw [joinLoop, if_neg (by simpa using hge)]
    rfl
  | case2 a => exact absurd heven (by simp)
  | case3 a b rest ih =>
    simp only [List.length_cons] at heven hle hge
    have hleft : get L i = .ok (some a) := get_drop (j := 0) (by rw [hdrop]; rfl)
    have hright : get L (i + 1) = .ok (some b) := get_drop (by rw [hdrop]; rfl)
    have hrest : L.drop (i + 2) = rest.map some := by
      rw [← List.drop_drop, hdrop]
      rfl
    have hjoin := ih (by omega) hrest (by omega) (by omega)
    rw [joinLoop, if_pos (by omega), hleft, hright]
    simp only [bind, Except.bind, merkleJoin, pure, Except.pure, hjoin]
    rfl

theorem padLevel_of_odd {rest : List Hash} {last : Hash} (a : Option Hash)
    (hodd : rest.length % 2 = 1) (hlast : rest.getLast? = some last) :
    padLevel (none :: a :: rest.map some) = .ok (none :: a :: (rest ++ [last]).map some) := by
  have hlen : (none :: a :: rest.map some).length = rest.length + 2 := by simp
  have hget : get (none :: a :: rest.map some) (2 + (rest.length - 1)) = .ok (some last) := by
    refine get_drop ?_
    rw [List.drop_succ_cons, List.drop_succ_cons, List.drop_zero, List.getElem?_map,
      ← List.getLast?_eq_getElem?, hlast]
    rfl
  unfold padLevel
  rw [hlen, if_pos (by omega), show rest.length + 2 - 1 = 2 + (rest.length - 1) by omega, hget,
    List.map_append]
  rfl

/-- One level, when its elements behind the first are hashes. -/
theorem joinLevel_eq (a : Option Hash) (rest : List Hash) :
    joinLevel doubleDigest (none :: a :: rest.map some) =
      .ok ((PairTree.level (fun a b => doubleDigest (a ++ b)) rest).map some) := by
  have hlen : (none :: a :: rest.map some).length = rest.length + 2 := by simp
  unfold joinLevel
  rcases Nat.mod_two_eq_zero_or_one rest.length with heven | hodd
  · have hpad : padLevel (none :: a :: rest.map some) = .ok (none :: a :: rest.map some) := by
      unfold padLevel
      rw [hlen, if_neg (by omega)]
      rfl
    rw [hpad, hlen]
    exact joinLoop_eq heven rfl (by omega) (by omega)
  · obtain ⟨last, hlast⟩ : ∃ last, rest.getLast? = some last := by
      cases hrest : rest.getLast? with
      | none =>
        rw [List.getLast?_eq_none_iff.mp hrest] at hodd
        exact absurd hodd (by simp)
      | some last => exact ⟨last, rfl⟩
    have hlen' : (rest ++ [last]).length = rest.length + 1 := by simp
    rw [padLevel_of_odd a hodd hlast, hlen, ← PairTree.level_append_getLast _ hodd hlast]
    exact joinLoop_eq (by omega) rfl (by omega) (by omega)

/-- A round of the loop. -/
theorem calculateLoop_round {L Ld : List (Option Hash)} {step : Option Hash}
    (hlen : L.length ≠ 1) (hstep : get L 1 = .ok step)
    (hlevel : joinLevel doubleDigest L = .ok Ld) (steps : List (Option Hash)) :
    calculateLoop doubleDigest L steps =
      calculateLoop doubleDigest (none :: Ld) (steps ++ [step]) := by
  rw [calculateLoop, if_neg hlen]
  split
  · rename_i hstep' hlevel'
    obtain rfl := Except.ok.inj (hstep'.symm.trans hstep)
    obtain rfl := Except.ok.inj (hlevel'.symm.trans hlevel)
    rfl
  · rename_i herror
    exact nomatch herror.symm.trans hstep
  · rename_i herror
    exact nomatch herror.symm.trans hlevel

/-- **The steps are the branch of the hashes.** -/
theorem calculateLoop_eq (hashes : List Hash) (steps : List (Option Hash)) :
    calculateLoop doubleDigest (none :: hashes.map some) steps =
      .ok (steps ++ (PairTree.branch (fun a b => doubleDigest (a ++ b)) hashes).map some) := by
  induction hashes using
    PairTree.branch.induct (fun a b => doubleDigest (a ++ b)) generalizing steps with
  | case1 =>
    have hlen : (none :: ([] : List Hash).map some).length = 1 := rfl
    rw [calculateLoop, if_pos hlen, PairTree.branch, List.map_nil, List.append_nil]
    rfl
  | case2 a rest ih =>
    have hstep : get (none :: (a :: rest).map some) 1 = .ok (some a) := rfl
    rw [calculateLoop_round (by simp) hstep (joinLevel_eq (some a) rest), ih, PairTree.branch,
      List.map_cons, List.append_assoc]
    rfl

theorem calculateSteps_eq (hashList : List Hash) :
    calculateSteps doubleDigest hashList =
      .ok ((PairTree.branch (fun a b => doubleDigest (a ++ b)) hashList).map some) := by
  unfold calculateSteps
  dsimp only
  split
  · rw [calculateLoop_eq, List.nil_append]
  · rename_i hlen
    cases hashList with
    | nil =>
      rw [PairTree.branch]
      rfl
    | cons a rest => exact absurd (by simp) hlen

theorem withFirst_eq (steps : List Hash) (first : Hash) :
    withFirst doubleDigest (steps.map some) first =
      .ok (steps.foldl (fun a b => doubleDigest (a ++ b)) first) := by
  induction steps generalizing first with
  | nil => rfl
  | cons step steps ih => exact ih (doubleDigest (first ++ step))

/-- **The steps give the Merkle root** of the first hash and the others, whatever the digest is. -/
theorem withFirst_eq_root (doubleDigest : Hash → Hash) (hashes : List Hash) (first : Hash) :
    ∃ steps merkleRoot, calculateSteps doubleDigest hashes = .ok steps ∧
      withFirst doubleDigest steps first = .ok merkleRoot ∧
      PairTree.root (fun a b => doubleDigest (a ++ b)) (first :: hashes) = some merkleRoot :=
  ⟨_, _, calculateSteps_eq hashes, withFirst_eq _ first, PairTree.root_cons _ first hashes⟩

end AionPool.Crypto.MerkleTree
