import IrohRooms.Lib.MerkleTree
import IrohRooms.Member.Projected

/-!
# The sorted Merkle map of members

Leaves in ascending order of their identity keys, every level of the tree over them, and the position of each key. A
replacement recomputes one path and an insertion or removal the part of each level from the changed position on; the
rest of the levels is reused. `prove` reads the siblings of a leaf off the levels, and `verifyInclusion` climbs back to
the root from the record alone.
-/

namespace IrohRooms.Member

open Governance

variable (env : Env)

def maxLevels : Nat := 64

structure Leaf where
  memberId : PrincipalId
  canonical : Bytes
  hash : Digest

structure SortedMerkleMap where
  leaves : List Leaf
  levels : List (List Digest)
  index : OrdMap PrincipalId Nat

/-- The digest that fills new slots. -/
def zeroHash : Digest := Id.ofNat 0

def validateKeyedRecord (memberId : PrincipalId) (canonical : Bytes) : Except Reject Unit := do
  let record ← ProjectedMemberRecord.fromBytes canonical
  if record.memberId = memberId then .ok () else .error .invalidContent

/-! ### Inclusion proofs -/

inductive SiblingSide
  | left | right
  deriving DecidableEq, Repr

structure ProofStep where
  side : SiblingSide
  hash : Digest
  deriving DecidableEq

structure InclusionProof where
  leafCount : UInt64
  leafIndex : UInt64
  siblings : List ProofStep

/-- The side of the sibling at a position of a level; a last node without a neighbour has none. -/
def expectedSide (leafCount leafIndex : Nat) : Option SiblingSide :=
  if leafIndex % 2 = 1 then some .left
  else if leafIndex + 1 < leafCount then some .right
  else none

/-- Levels halve, so the count is fuel enough for every walk up. -/
def siblingCountLoop : Nat → Nat → Nat → Nat → Nat
  | 0, _, _, steps => steps
  | fuel + 1, leafCount, leafIndex, steps =>
    if leafCount > 1 then
      let paired := if leafIndex % 2 = 1 then true else decide (leafIndex + 1 < leafCount)
      siblingCountLoop fuel (leafCount / 2 + leafCount % 2) (leafIndex / 2) (if paired then steps + 1 else steps)
    else steps

def expectedSiblingCount (leafCount leafIndex : Nat) : Nat :=
  if leafCount = 0 then 0 else siblingCountLoop leafCount leafCount leafIndex 0

def validateSides : Nat → Nat → Nat → List ProofStep → Except Reject Unit
  | fuel + 1, leafCount, leafIndex, steps =>
    if leafCount > 1 then
      match expectedSide leafCount leafIndex, steps with
      | none, steps => validateSides fuel (leafCount / 2 + leafCount % 2) (leafIndex / 2) steps
      | some _, [] => .error .invalidMerkleProof
      | some side, step :: steps =>
        if step.side ≠ side then .error .invalidMerkleProof
        else validateSides fuel (leafCount / 2 + leafCount % 2) (leafIndex / 2) steps
    else if steps ≠ [] then .error .invalidMerkleProof
    else .ok ()
  | 0, _, _, steps => if steps ≠ [] then .error .invalidMerkleProof else .ok ()

def validateInclusionStructure (proof : InclusionProof) : Except Reject Unit :=
  let leafCount := proof.leafCount.toNat
  let leafIndex := proof.leafIndex.toNat
  if leafCount = 0 ∨ leafIndex ≥ leafCount ∨ proof.siblings.length > maxLevels ∨
      proof.siblings.length ≠ expectedSiblingCount leafCount leafIndex then .error .invalidMerkleProof
  else validateSides leafCount leafCount leafIndex proof.siblings

/-- The hash above the accumulator and its sibling. -/
def ProofStep.above (acc : Digest) (step : ProofStep) : Digest :=
  match step.side with
  | .left => merkleNodeHash env step.hash acc
  | .right => merkleNodeHash env acc step.hash

/-- The climb from a leaf: every step must stand on the side that the position says. -/
def climb : Nat → Nat → Nat → Digest → List ProofStep → Except Reject Digest
  | fuel + 1, leafCount, leafIndex, acc, steps =>
    if leafCount > 1 then
      let paired := if leafIndex % 2 = 1 then true else decide (leafIndex + 1 < leafCount)
      if paired then
        match steps with
        | [] => .error .invalidMerkleProof
        | step :: steps =>
          if step.side ≠ (if leafIndex % 2 = 1 then .left else .right) then .error .invalidMerkleProof
          else climb fuel (leafCount / 2 + leafCount % 2) (leafIndex / 2) (step.above env acc) steps
      else climb fuel (leafCount / 2 + leafCount % 2) (leafIndex / 2) acc steps
    else if steps ≠ [] then .error .invalidMerkleProof
    else .ok acc
  | 0, _, _, acc, steps => if steps ≠ [] then .error .invalidMerkleProof else .ok acc

def verifyInclusion (root : Digest) (memberId : PrincipalId) (canonicalRecord : Bytes) (proof : InclusionProof) :
    Except Reject Unit := do
  match ProjectedMemberRecord.fromBytes canonicalRecord with
  | .error _ => .error .invalidMerkleProof
  | .ok record =>
    if record.memberId ≠ memberId then .error .invalidMerkleProof
    else
      validateInclusionStructure proof
      let count := proof.leafCount.toNat
      let acc ← climb env count count proof.leafIndex.toNat (memberLeafHash env canonicalRecord) proof.siblings
      if acc = root then .ok () else .error .invalidMerkleProof

/-! ### The map -/

namespace SortedMerkleMap

def new : SortedMerkleMap := ⟨[], [], OrdMap.empty⟩

/-- The level over each level until one node is left. -/
def buildLevels : Nat → List Digest → List (List Digest)
  | fuel + 1, level => if level.length > 1 then level :: buildLevels fuel (pairLevel env level) else [level]
  | 0, level => [level]

def rebuildLevels (m : SortedMerkleMap) : SortedMerkleMap :=
  if m.leaves = [] then { m with levels := [] }
  else { m with levels := buildLevels env m.leaves.length (m.leaves.map Leaf.hash) }

def positions (leaves : List Leaf) : OrdMap PrincipalId Nat :=
  leaves.zipIdx.foldl (fun m e => m.insert e.1.memberId e.2) OrdMap.empty

def fromValidatedRecords (records : List (PrincipalId × Bytes)) : Except Reject SortedMerkleMap :=
  let leaves := (records.map fun r => Leaf.mk r.1 r.2 (memberLeafHash env r.2)).insertionSort
    fun a b => a.memberId ≤ b.memberId
  if windowsAny (fun a b => decide (a.memberId = b.memberId)) leaves then .error .invalidContent
  else .ok (rebuildLevels env ⟨leaves, [], positions leaves⟩)

def fromRecords (records : List (PrincipalId × Bytes)) : Except Reject SortedMerkleMap := do
  let _ ← records.mapM fun r => validateKeyedRecord r.1 r.2
  fromValidatedRecords env records

def get (m : SortedMerkleMap) (id : PrincipalId) : Option Leaf := do
  let pos ← m.index.get? id
  m.leaves[pos]?

/-- The root of the last level; a map with leaves has one. -/
def root (m : SortedMerkleMap) : Digest :=
  if m.leaves = [] then emptyMemberRoot env
  else match (m.levels.getLast?).bind List.head? with
    | some hash => hash
    | none => reduceLevels env m.leaves.length (m.leaves.map Leaf.hash)

/-- `Vec::resize`. -/
def resizeTo (n : Nat) (level : List Digest) : List Digest := level.take n ++ List.replicate (n - level.length) zeroHash

/-- The length of every level over so many leaves. -/
def levelSizes : Nat → Nat → List Nat
  | fuel + 1, n => if n = 1 then [n] else n :: levelSizes fuel (n / 2 + n % 2)
  | 0, n => [n]

/-- As many levels as there are sizes, each of its size. -/
def resizeAll : List Nat → List (List Digest) → List (List Digest)
  | [], _ => []
  | n :: sizes, [] => resizeTo n [] :: resizeAll sizes []
  | n :: sizes, level :: levels => resizeTo n level :: resizeAll sizes levels

def resizeLevels (m : SortedMerkleMap) : List (List Digest) :=
  if m.leaves = [] then [] else resizeAll (levelSizes m.leaves.length m.leaves.length) m.levels

/-- The node over a pair, or over a last node alone. -/
def parentHash (below : List Digest) (parent : Nat) : Digest :=
  let left := below.getD (2 * parent) zeroHash
  if 2 * parent + 1 < below.length then merkleNodeHash env left (below.getD (2 * parent + 1) zeroHash) else left

/-- The slots of a level written again from a position on. -/
def overwriteFrom (level : List Digest) (start : Nat) (value : Nat → Digest) : List Digest :=
  (List.range' start (level.length - start)).foldl (fun level i => level.set i (value i)) level

/-- Every level above the given one recomputed from half the position of the one below. -/
def recomputeFrom (start : Nat) : List Digest → List (List Digest) → List (List Digest)
  | below, [] => [below]
  | below, above :: rest =>
    below :: recomputeFrom (start / 2) (overwriteFrom above (start / 2) (parentHash env below)) rest

def recomputeSuffix (m : SortedMerkleMap) (pos : Nat) : SortedMerkleMap :=
  if m.leaves = [] then { m with levels := [] }
  else match m.resizeLevels with
    | [] => { m with levels := [] }
    | level :: rest =>
      let refreshed := overwriteFrom level pos fun i => (m.leaves.map Leaf.hash).getD i zeroHash
      { m with levels := recomputeFrom env pos refreshed rest }

/-- The nodes above a position recomputed, one on each level. -/
def recomputeUp (index : Nat) : List Digest → List (List Digest) → List (List Digest)
  | below, [] => [below]
  | below, above :: rest =>
    below :: recomputeUp (index / 2) (above.set (index / 2) (parentHash env below (index / 2))) rest

def recomputePath (m : SortedMerkleMap) (pos : Nat) : SortedMerkleMap :=
  if m.leaves = [] then { m with levels := [] }
  else match m.resizeLevels with
    | [] => { m with levels := [] }
    | level :: rest =>
      let refreshed := level.set pos ((m.leaves.map Leaf.hash).getD pos zeroHash)
      { m with levels := recomputeUp env pos refreshed rest }

/-- The rank of every leaf in the list moved. -/
def shiftIndex (index : OrdMap PrincipalId Nat) (shift : Nat → Nat) (leaves : List Leaf) : OrdMap PrincipalId Nat :=
  leaves.foldl (fun m leaf => match m.get? leaf.memberId with
    | some slot => m.insert leaf.memberId (shift slot)
    | none => m) index

/-- The place of a new key: after the position of the last lower one. -/
def insertPos (m : SortedMerkleMap) (memberId : PrincipalId) : Nat :=
  match (m.index.entries.filter fun e => decide (e.1 < memberId)).getLast? with
  | some (_, p) => p + 1
  | none => 0

def insertNew (m : SortedMerkleMap) (memberId : PrincipalId) (canonical : Bytes) : Except Reject SortedMerkleMap := do
  validateKeyedRecord memberId canonical
  if m.index.contains memberId then .error .invalidContent
  else
    let pos := m.insertPos memberId
    let leaves := m.leaves.insertIdx pos ⟨memberId, canonical, memberLeafHash env canonical⟩
    let index := (shiftIndex m.index (· + 1) (leaves.drop (pos + 1))).insert memberId pos
    pure (recomputeSuffix env ⟨leaves, m.levels, index⟩ pos)

/-- The new map and the bytes that were replaced. -/
def replaceExisting (m : SortedMerkleMap) (memberId : PrincipalId) (canonical : Bytes) :
    Except Reject (SortedMerkleMap × Bytes) := do
  validateKeyedRecord memberId canonical
  let pos ← orReject .invalidContent (m.index.get? memberId)
  let prev ← orReject .invalidContent m.leaves[pos]?
  let leaves := m.leaves.set pos ⟨prev.memberId, canonical, memberLeafHash env canonical⟩
  pure (recomputePath env { m with leaves := leaves } pos, prev.canonical)

/-- The new map and the bytes that were removed. -/
def removeExisting (m : SortedMerkleMap) (memberId : PrincipalId) : Except Reject (SortedMerkleMap × Bytes) := do
  let pos ← orReject .invalidContent (m.index.get? memberId)
  let removed ← orReject .invalidContent m.leaves[pos]?
  let leaves := m.leaves.eraseIdx pos
  let index := shiftIndex (m.index.erase memberId) (· - 1) (leaves.drop pos)
  let next : SortedMerkleMap := ⟨leaves, m.levels, index⟩
  if leaves = [] then pure ({ next with levels := [] }, removed.canonical)
  else pure (recomputeSuffix env next (min pos leaves.length), removed.canonical)

/-- The number of nodes of a level. -/
def levelLen (m : SortedMerkleMap) : Nat → Nat
  | 0 => m.leaves.length
  | level + 1 => m.levelLen level / 2 + m.levelLen level % 2

def computeLevelNode (m : SortedMerkleMap) : Nat → Nat → Digest
  | 0, index => (m.leaves.map Leaf.hash).getD index zeroHash
  | level + 1, index =>
    let left := computeLevelNode m level (2 * index)
    if 2 * index + 1 ≥ m.levelLen level then left
    else merkleNodeHash env left (computeLevelNode m level (2 * index + 1))

def levelNode (m : SortedMerkleMap) (level index : Nat) : Digest :=
  if level = 0 then (m.leaves.map Leaf.hash).getD index zeroHash
  else match m.levels[level]? with
    | some nodes => nodes.getD index zeroHash
    | none => m.computeLevelNode env level index

/-- The siblings met on the way up from a position. -/
def siblingsFrom (m : SortedMerkleMap) : Nat → Nat → Nat → Nat → List ProofStep
  | fuel + 1, count, index, level =>
    if count > 1 then
      let above := siblingsFrom m fuel (count / 2 + count % 2) (index / 2) (level + 1)
      if index % 2 = 1 then ⟨.left, m.levelNode env level (index - 1)⟩ :: above
      else if index + 1 < count then ⟨.right, m.levelNode env level (index + 1)⟩ :: above
      else above
    else []
  | 0, _, _, _ => []

def prove (m : SortedMerkleMap) (memberId : PrincipalId) : Option InclusionProof := do
  let pos ← m.index.get? memberId
  let count := m.leaves.length
  if count < 2 ^ 64 ∧ pos < 2 ^ 64 then
    pure ⟨UInt64.ofNat count, UInt64.ofNat pos, m.siblingsFrom env count count pos 0⟩
  else none

end SortedMerkleMap

end IrohRooms.Member
