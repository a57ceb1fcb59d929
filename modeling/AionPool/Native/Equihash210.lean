import AionPool.Native.Digest210
import AionPool.Native.StepRow

/-!
# The verification of Equihash (210, 9) (`equi210.cpp`, `equi210verify.cpp`, `exports.cpp`)

* `isValidSolution`: the rows of the 512 indices of a solution, and nine rounds over them.
* `hashValue header i`: the 210 bits of the digest of a header and half an index that are the hash
  value of `i`.
* **`verify_iff`**: a solution of 1408 bytes for a header of 64 is accepted if its indices solve the
  generalized birthday problem for these hash values, with the smaller first index on the left of
  each join, and only then; no access is out of bounds.
* **`existsUnique_accepted_iff`**: of the ways to write down some indices one is accepted if they
  are a solution, none otherwise, and never two.

Models `equi210.cpp:25-74` and `:332-370`, and `exports.cpp:242-249`.
-/

namespace AionPool.Native

open AionPool.Lib AionPool.Lib.Bytes AionPool.Lib.Bits AionPool.Lib.Blocks AionPool.Lib.Bracket
  AionPool.Lib.Birthday

namespace Equihash210

/-! ## The verification -/

/-- `InitialiseState`: the personal bytes are `AION0PoW`, `N` and `K`. -/
def initialiseState : Blake2bState :=
  Blake2b210.initParam
    { digestLength := UInt8.ofNat hashOutput
      keyLength := 0
      fanout := 1
      depth := 1
      leafLength := 0
      nodeOffset := 0
      nodeDepth := 0
      innerLength := 0
      reserved := Vector.replicate 14 0
      salt := Vector.replicate 16 0
      personal := #v[65, 73, 79, 78, 48, 80, 111, 87, 210, 0, 0, 0, 9, 0, 0, 0] }

/-- `GenerateHash`: the bytes of `hash` afterwards. The result of `blake2b_final210` is not looked
at. -/
def generateHash (build : Build) (baseState : Blake2bState) (g : UInt32) (hash : List UInt8)
    (hLen : ℕ) : Option (List UInt8) :=
  let state := Blake2b210.update210 build baseState (bytes 4 g.toNat)
  match Blake2b210.final210 build state (hLen % 256) with
  | some (out, _) => Buffer.store hash 0 out
  | none => some hash

/-- The rows of some indices. `tmpHash` is used for each of them. -/
def leaves (build : Build) (baseState : Blake2bState) (tmpHash : List UInt8) :
    List UInt32 → Option (List FullStepRow)
  | [] => some []
  | i :: is => do
    let tmpHash ← generateHash build baseState (i / UInt32.ofNat indicesPerHashOutput) tmpHash
      hashOutput
    let hashIn ←
      Buffer.load tmpHash ((i % UInt32.ofNat indicesPerHashOutput).toNat * hashLen) hashLen
    let row ← FullStepRow.leaf hashIn hashLength collisionBitLength i
    let rows ← leaves build baseState tmpHash is
    return row :: rows

/-- What `IsValidSolution` returns after the rounds: whether nothing is left in the last row. -/
def outcome : Except Stop (ℕ × FullStepRow) → Option Bool
  | .ok (rounds, row) => row.isZero (hashLength - rounds * collisionByteLength)
  | .error .invalid => some false
  | .error .undefined => none

/-- `IsValidSolution`. -/
def isValidSolution (build : Build) (baseState : Blake2bState) (soln : List UInt8) : Option Bool :=
  if soln.length ≠ solutionWidth then some false
  else do
    let indices ← getIndicesFromMinimal soln collisionBitLength
    let X ← leaves build baseState (List.replicate hashOutput 0) indices
    outcome (play FullStepRow.join .undefined 0 X)

/-- `verifyEH210`: 64 bytes of the header are read, and 1408 of the solution. -/
def verifyEH210 (build : Build) (hdr soln : List UInt8) : Option Bool := do
  let hdr ← Buffer.load hdr 0 64
  let minimal ← Buffer.load soln 0 1408
  isValidSolution build (Blake2b210.update210 build initialiseState hdr) minimal

/-- `equihash_verify_210_9_export`. -/
def equihashVerifyExport (build : Build) (header solution : List UInt8) : Option Bool :=
  if header.length ≠ 64 ∨ solution.length ≠ 1408 then some false
  else verifyEH210 build header solution

/-! ## The hash values -/

/-- The digest that two indices share. -/
def digestOf (header : List UInt8) (g : UInt32) : List UInt8 :=
  Blake2b.hashFrom initialiseState.h 54 (header ++ bytes 4 g.toNat)

/-- The half of the digest an index has. -/
def halfOf (header : List UInt8) (i : UInt32) : List UInt8 :=
  ((digestOf header (i / 2)).drop ((i % 2).toNat * 27)).take 27

/-- The hash value of an index. -/
def hashValue (header : List UInt8) (i : UInt32) : ℕ :=
  value ((byteBits (halfOf header i)).take 210)

/-- The indices a solution is made of. -/
def indicesOf (soln : List UInt8) : List UInt32 := (digits 22 (byteBits soln)).map UInt32.ofNat

theorem length_digestOf (header : List UInt8) (g : UInt32) : (digestOf header g).length = 54 := by
  unfold digestOf Blake2b.hashFrom
  rw [List.length_take, Blake2b210.length_wordBytes]
  rfl

/-- `GenerateHash` writes the digest. -/
theorem generateHash_eq (build : Build) {base : Blake2bState} {header : List UInt8}
    (hbase : Blake2b210.Represents base
      (after 128 (Blake2b210.compressAt build) initialiseState.h header))
    (hlen : header.length = 64) (g : UInt32) {tmp : List UInt8} (htmp : tmp.length = 54) :
    generateHash build base g tmp hashOutput = some (digestOf header g) := by
  have hdigest := Blake2b210.digest210_eq build hbase [bytes 4 g.toNat] (by decide : 54 ≤ 64) (by
    rw [List.length_append, List.flatten_singleton, length_bytes, hlen]
    decide)
  rw [List.foldl_cons, List.foldl_nil, List.flatten_singleton] at hdigest
  obtain ⟨⟨out, S⟩, hout, hdigest⟩ := Option.map_eq_some_iff.mp hdigest
  obtain rfl : out = digestOf header g := hdigest
  have hout54 := length_digestOf header g
  unfold generateHash
  dsimp only
  rw [show hashOutput % 256 = 54 from rfl, hout]
  dsimp only
  rw [Buffer.store_zero (by omega), List.drop_of_length_le (by omega), List.append_nil]

/-- The rows stand for their indices. -/
theorem leaves_stand (build : Build) {base : Blake2bState} {header : List UInt8}
    (hbase : Blake2b210.Represents base
      (after 128 (Blake2b210.compressAt build) initialiseState.h header))
    (hlen : header.length = 64) (is : List UInt32) {tmp : List UInt8} (htmp : tmp.length = 54) :
    ∃ rows, leaves build base tmp is = some rows ∧
      List.Forall₂ (fun i row => Stands (hashValue header) 0 [i] row) is rows := by
  induction is generalizing tmp with
  | nil => exact ⟨[], rfl, .nil⟩
  | cons i is ih =>
    have hdigest := length_digestOf header (i / 2)
    have hhalf : (i % 2).toNat < 2 := by
      rw [UInt32.toNat_mod]
      exact Nat.mod_lt _ (by decide)
    have hload : Buffer.load (digestOf header (i / 2)) ((i % 2).toNat * 27) 27 =
        some (halfOf header i) := if_pos (by omega)
    obtain ⟨row, hrow, hstands⟩ := @Stands.leaf (hashValue header) i (halfOf header i) (by
      unfold halfOf
      rw [List.length_take, List.length_drop]
      omega) rfl
    obtain ⟨rows, hrows, hall⟩ := ih hdigest
    refine ⟨row :: rows, ?_, .cons hstands hall⟩
    rw [leaves, show UInt32.ofNat indicesPerHashOutput = 2 from rfl,
      generateHash_eq build hbase hlen (i / 2) htmp]
    change (Buffer.load (digestOf header (i / 2)) ((i % 2).toNat * 27) 27).bind (fun hashIn => do
      let row ← FullStepRow.leaf hashIn hashLength collisionBitLength i
      let rows ← leaves build base (digestOf header (i / 2)) is
      return row :: rows) = _
    rw [hload, Option.bind_some, hrow]
    change (leaves build base (digestOf header (i / 2)) is).bind
      (fun rows => some (row :: rows)) = _
    rw [hrows, Option.bind_some]

theorem length_indicesOf {soln : List UInt8} (hlen : soln.length = 1408) :
    (indicesOf soln).length = 2 ^ 9 := by
  unfold indicesOf
  rw [List.length_map, length_digits (by decide), length_byteBits, hlen]
  rfl

/-! ## What is accepted -/

/-- A solution for a header is accepted. -/
structure Accepts (header soln : List UInt8) : Prop where
  length_header : header.length = 64
  length_soln : soln.length = 1408
  solves : IsSolution (hashValue header) 21 9 (indicesOf soln)
  ordered : Ordered 9 (indicesOf soln)

theorem isValidSolution_eq (build : Build) {base : Blake2bState} {header soln : List UInt8}
    (hbase : Blake2b210.Represents base
      (after 128 (Blake2b210.compressAt build) initialiseState.h header))
    (hheader : header.length = 64) (hsoln : soln.length = 1408) :
    ∃ valid, isValidSolution build base soln = some valid ∧
      (valid = true ↔ IsSolution (hashValue header) 21 9 (indicesOf soln) ∧
        Ordered 9 (indicesOf soln)) := by
  have hindices : getIndicesFromMinimal soln collisionBitLength = some (indicesOf soln) :=
    getIndicesFromMinimal_eq (by decide) (by decide) (by rw [hsoln]; decide)
  obtain ⟨rows, hrows, hall⟩ := @leaves_stand build _ _ hbase hheader (indicesOf soln)
    (List.replicate 54 0) List.length_replicate
  obtain ⟨hgood, hbad⟩ := @play_spec _ _ _ _ .undefined _ _ _ 9 (join_decides (hashValue header))
    (indicesOf soln) (length_indicesOf hsoln) rows hall
  have hrun : isValidSolution build base soln =
      outcome (play FullStepRow.join .undefined 0 rows) := by
    unfold isValidSolution
    rw [if_neg (not_not.mpr (hsoln.trans solutionWidth_eq.symm)), hindices]
    change (leaves build base (List.replicate 54 0) (indicesOf soln)).bind (fun X =>
      outcome (play FullStepRow.join .undefined 0 X)) = _
    rw [hrows, Option.bind_some]
  rw [solution_iff (length_indicesOf hsoln), hrun]
  by_cases hjoins : AllJoins (Meets (hashValue header)) 9 (indicesOf soln)
  · obtain ⟨row, hplay, hrow⟩ := hgood hjoins
    refine ⟨_, (congrArg outcome hplay).trans hrow.isZero, ?_⟩
    rw [decide_eq_true_iff]
    exact ⟨fun htotal => ⟨hjoins, htotal⟩, And.right⟩
  · refine ⟨false, congrArg outcome (hbad hjoins), ?_⟩
    exact ⟨nofun, fun h => absurd h.1 hjoins⟩

/-- The state after the header. -/
theorem header_represents (build : Build) (header : List UInt8) :
    Blake2b210.Represents (Blake2b210.update210 build initialiseState header)
      (after 128 (Blake2b210.compressAt build) initialiseState.h header) := by
  have hinit : Blake2b210.Represents initialiseState
      (after 128 (Blake2b210.compressAt build) initialiseState.h []) := by
    rw [after_nil]
    exact Blake2b210.initParam_represents _
  have := @Blake2b210.Represents.update210 build _ _ (by decide) hinit header
  rwa [absorb_after, List.nil_append] at this

/-- **What the verification accepts**; it has an answer for all bytes it is given. -/
theorem verify_eq (build : Build) (header soln : List UInt8) :
    ∃ valid, equihashVerifyExport build header soln = some valid ∧
      (valid = true ↔ Accepts header soln) := by
  unfold equihashVerifyExport
  split
  · rename_i hsize
    refine ⟨false, rfl, nofun, fun h => ?_⟩
    rcases hsize with hne | hne
    · exact absurd h.length_header hne
    · exact absurd h.length_soln hne
  · rename_i hsize
    obtain ⟨hheader, hsoln⟩ := not_or.mp hsize
    have hheader := not_not.mp hheader
    have hsoln := not_not.mp hsoln
    obtain ⟨valid, hvalid, hiff⟩ := isValidSolution_eq build (header_represents build header)
      hheader hsoln
    refine ⟨valid, ?_, hiff.trans
      ⟨fun h => ⟨hheader, hsoln, h.1, h.2⟩, fun h => ⟨h.solves, h.ordered⟩⟩⟩
    have hload : ∀ {bs : List UInt8} {n : ℕ}, bs.length = n → Buffer.load bs 0 n = some bs :=
      fun hn => by
        unfold Buffer.load
        rw [if_pos (by omega), List.drop_zero, List.take_of_length_le hn.le]
    unfold verifyEH210
    rw [hload hheader, hload hsoln]
    exact hvalid

/-- The answer is the same for all instruction sets, and it is told by the indices alone: all of
them are different; where two blocks meet 21 more bits cancel out, and the left block has the
smaller first index; after the last round nothing is left. -/
theorem verify_iff (build : Build) (header soln : List UInt8) :
    equihashVerifyExport build header soln ≠ none ∧
      (equihashVerifyExport build header soln = some true ↔
        header.length = 64 ∧ soln.length = 1408 ∧ (indicesOf soln).Nodup ∧
        (∀ h < 9, ∀ j < 2 ^ (9 - h - 1),
          total (hashValue header) (block (h + 1) j (indicesOf soln)) < 2 ^ (21 * (9 - h)) ∧
          HeadLt (block h (2 * j) (indicesOf soln)) (block h (2 * j + 1) (indicesOf soln))) ∧
        total (hashValue header) (indicesOf soln) = 0) := by
  obtain ⟨valid, hvalid, hiff⟩ := verify_eq build header soln
  rw [hvalid, Option.some.injEq, hiff]
  refine ⟨nofun, fun h => ?_, fun h => ?_⟩
  · refine ⟨h.length_header, h.length_soln, h.solves.nodup, fun r hr j hj => ⟨?_, ?_⟩,
      h.solves.total_eq⟩
    · have := h.solves.cancels r hr j hj
      rwa [Cancels, block_append] at this
    · exact h.ordered r hr j hj
  · obtain ⟨hheader, hsoln, hnodup, hjoins, htotal⟩ := h
    refine ⟨hheader, hsoln, ⟨length_indicesOf hsoln, hnodup, fun r hr j hj => ?_, htotal⟩,
      fun r hr j hj => (hjoins r hr j hj).2⟩
    rw [Cancels, block_append]
    exact (hjoins r hr j hj).1

/-! ## One way to write a solution down -/

/-- The bytes are those the indices are written as. -/
theorem getMinimal_indicesOf {soln : List UInt8} (hlen : soln.length = 1408) :
    getMinimalFromIndices (indicesOf soln) 21 = some soln := by
  have hdvd : 21 + 1 ∣ 8 * soln.length := by rw [hlen]; decide
  have := getMinimal_getIndices (by decide) (by decide) hdvd
  rwa [getIndicesFromMinimal_eq (by decide) (by decide) hdvd, Option.bind_some] at this

/-- Indices of 22 bits can be written down. -/
theorem exists_soln {is : List UInt32} (hlen : is.length = 2 ^ 9)
    (hlt : ∀ i ∈ is, i.toNat < 2 ^ 22) :
    ∃ soln, soln.length = 1408 ∧ indicesOf soln = is := by
  have hdvd : 8 ∣ (21 + 1) * is.length := by rw [hlen]; decide
  obtain ⟨soln, hsoln, hbits⟩ := getMinimalFromIndices_eq (by decide) (by decide) hlt hdvd
  have hlength : soln.length = 1408 := by
    have := congrArg List.length hbits
    rw [length_byteBits, length_flatMap_bits, List.length_map, hlen] at this
    omega
  have hback := getIndices_getMinimal (by decide) (by decide) hlt hdvd
  rw [hsoln, Option.bind_some, getIndicesFromMinimal_eq (by decide) (by decide)
    (by rw [hlength]; decide)] at hback
  exact ⟨soln, hlength, Option.some.inj hback⟩

theorem indicesOf_lt {soln : List UInt8} : ∀ i ∈ indicesOf soln, i.toNat < 2 ^ 22 := by
  intro i hi
  obtain ⟨v, hv, rfl⟩ := List.mem_map.mp hi
  have hlt := digits_lt v hv
  rw [UInt32.toNat_ofNat']
  exact (Nat.mod_le _ _).trans_lt hlt

/-- **One form is accepted**: of the ways of writing down indices, in whatever order they are
joined, one is accepted if they solve the problem, and none otherwise; there are never two. -/
theorem existsUnique_accepted_iff (build : Build) (header : List UInt8) (is : List UInt32) :
    ((∃ soln, equihashVerifyExport build header soln = some true ∧
      Rearranged 9 is (indicesOf soln)) ↔
      header.length = 64 ∧ (∀ i ∈ is, i.toNat < 2 ^ 22) ∧
        IsSolution (hashValue header) 21 9 is) ∧
    ∀ soln soln', equihashVerifyExport build header soln = some true →
      equihashVerifyExport build header soln' = some true →
      Rearranged 9 is (indicesOf soln) → Rearranged 9 is (indicesOf soln') → soln = soln' := by
  have hiff : ∀ soln, equihashVerifyExport build header soln = some true ↔ Accepts header soln := by
    intro soln
    obtain ⟨valid, hvalid, hiff⟩ := verify_eq build header soln
    rw [hvalid, Option.some.injEq, hiff]
  refine ⟨⟨?_, ?_⟩, ?_⟩
  · rintro ⟨soln, haccepted, hr⟩
    have haccepts := (hiff soln).mp haccepted
    refine ⟨haccepts.length_header, fun i hi => ?_, haccepts.solves.of_rearranged hr.symm⟩
    exact indicesOf_lt i (hr.perm.mem_iff.mp hi)
  · rintro ⟨hheader, hlt, hsolves⟩
    obtain ⟨js, ⟨hr, hjs, ho⟩, -⟩ := existsUnique_ordered hsolves
    obtain ⟨soln, hlength, hindices⟩ := exists_soln hjs.length_eq fun i hi =>
      hlt i (hr.perm.mem_iff.mpr hi)
    exact ⟨soln, (hiff soln).mpr ⟨hheader, hlength, hindices ▸ hjs, hindices ▸ ho⟩, hindices ▸ hr⟩
  · intro soln soln' haccepted haccepted' hr hr'
    have haccepts := (hiff soln).mp haccepted
    have haccepts' := (hiff soln').mp haccepted'
    obtain ⟨js, -, honly⟩ := existsUnique_ordered (haccepts.solves.of_rearranged hr.symm)
    have hindices : indicesOf soln = indicesOf soln' :=
      (honly _ ⟨hr, haccepts.solves, haccepts.ordered⟩).trans
        (honly _ ⟨hr', haccepts'.solves, haccepts'.ordered⟩).symm
    have hbytes := getMinimal_indicesOf haccepts.length_soln
    rw [hindices, getMinimal_indicesOf haccepts'.length_soln] at hbytes
    exact (Option.some.inj hbytes).symm

end Equihash210

end AionPool.Native
