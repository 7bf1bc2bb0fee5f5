import IrohRooms.Governance.CborV2
import IrohRooms.Governance.Fields
import IrohRooms.Governance.Model
import IrohRooms.Lib.SparseTree

/-!
# The sparse Merkle map

A map over 256-bit keys whose root is that of the complete tree of depth 256: an absent subtree has the hash of its
height, and a set key its stored leaf. A proof of a key holds the leaf at the key, if there is one, and the sibling of
every node on the way; `verify` climbs back to the root. The depth of a node in the source is `256` less its height here.
-/

namespace IrohRooms.Member.Sparse

open Governance (Id Digest Reject blake3Domain)

abbrev CborValue := CborV2.CborValue

namespace Domain

def merkleEmpty : String := "iroh-rooms:v2:merkle:empty:v1"

def merkleKey : String := "iroh-rooms:v2:merkle:key:v1"

end Domain

def depth : Nat := 256

abbrev Key := Digest

abbrev Hash := Digest

abbrev MerkleRoot := Digest

/-- The bit at a depth; the most significant one decides at the root. -/
def bit (key : Key) (d : Nat) : Bool := key.bits.getMsbD d

section Hashing

variable (env : Env)

def emptyBase : Hash := ⟨blake3Domain env Domain.merkleEmpty (beBytes 8 depth)⟩

def nodeHash (left right : Hash) : Hash :=
  ⟨blake3Domain env Governance.Domain.merkleNode (left.asBytes ++ right.asBytes)⟩

/-- `empty_table` at depth `256 - height`. -/
def emptyTable : Nat → Hash
  | 0 => emptyBase env
  | height + 1 => nodeHash env (emptyTable height) (emptyTable height)

def mapKey (logicalKey : Bytes) : Key := ⟨blake3Domain env Domain.merkleKey logicalKey⟩

def leafHash (key : Key) (valueHash : Hash) : Hash :=
  ⟨blake3Domain env Governance.Domain.memberLeaf (key.asBytes ++ valueHash.asBytes)⟩

def valueHash (value : CborValue) : Hash := ⟨env.blake3 (CborV2.encode value)⟩

end Hashing

structure MerkleMap where
  leaves : OrdMap Key Hash

structure Proof where
  key : Key
  leaf : Option Hash
  siblings : List Hash
  deriving DecidableEq

namespace MerkleMap

def new : MerkleMap := ⟨.empty⟩

def get (m : MerkleMap) (key : Key) : Option Hash := m.leaves.get? key

def insertHash (m : MerkleMap) (key : Key) (leaf : Hash) : MerkleMap := ⟨m.leaves.insert key leaf⟩

variable (env : Env)

def insertValue (m : MerkleMap) (logicalKey : Bytes) (value : CborValue) : MerkleMap :=
  m.insertHash (mapKey env logicalKey) (leafHash env (mapKey env logicalKey) (valueHash env value))

/-- The subtree of a height over a bucket of keys. -/
def recurseRoot (m : MerkleMap) : Nat → List Key → Hash
  | 0, [] => emptyTable env 0
  | 0, key :: _ => (m.get key).getD (emptyTable env 0)
  | height + 1, keys =>
    if keys.isEmpty then emptyTable env (height + 1)
    else nodeHash env (m.recurseRoot height (keys.filter fun k => !bit k (depth - 1 - height)))
      (m.recurseRoot height (keys.filter fun k => bit k (depth - 1 - height)))

def root (m : MerkleMap) : MerkleRoot := m.recurseRoot env depth m.leaves.keys

/-- The siblings below a node of a height, over the keys of its bucket; the shallowest comes first. -/
def siblingsFrom (m : MerkleMap) (key : Key) : Nat → List Key → List Hash
  | 0, _ => []
  | height + 1, keys =>
    m.recurseRoot env height (keys.filter fun k => bit k (depth - 1 - height) != bit key (depth - 1 - height)) ::
      m.siblingsFrom key height (keys.filter fun k => bit k (depth - 1 - height) == bit key (depth - 1 - height))

def siblingPath (m : MerkleMap) (key : Key) : List Hash := m.siblingsFrom env key depth m.leaves.keys

def proveInclusion (m : MerkleMap) (logicalKey : Bytes) : Option Proof :=
  match m.get (mapKey env logicalKey) with
  | none => none
  | some leaf => some ⟨mapKey env logicalKey, some leaf, m.siblingPath env (mapKey env logicalKey)⟩

def proveExclusion (m : MerkleMap) (logicalKey : Bytes) : Proof :=
  ⟨mapKey env logicalKey, m.get (mapKey env logicalKey), m.siblingPath env (mapKey env logicalKey)⟩

end MerkleMap

namespace Proof

variable (env : Env)

/-- The climb from the deepest sibling, which is the last, up to a node of a height. -/
def reconstruct (key : Key) (start : Hash) : Nat → List Hash → Hash
  | height + 1, sibling :: siblings =>
    let acc := reconstruct key start height siblings
    if bit key (depth - 1 - height) then nodeHash env sibling acc else nodeHash env acc sibling
  | _, _ => start

def verify (p : Proof) (root : MerkleRoot) (requireInclusion : Bool) : Except Reject Unit :=
  if p.siblings.length ≠ depth then .error .invalidMerkleProof
  else match p.leaf, requireInclusion with
    | none, true => .error .invalidMerkleProof
    | some h, _ =>
      if reconstruct env p.key h depth p.siblings = root then .ok () else .error .invalidMerkleProof
    | none, false =>
      if reconstruct env p.key (emptyTable env 0) depth p.siblings = root then .ok () else .error .invalidMerkleProof

end Proof

end IrohRooms.Member.Sparse
