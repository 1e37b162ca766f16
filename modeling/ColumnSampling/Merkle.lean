import ColumnSampling.Blob
import ColumnSampling.Bytes
import ColumnSampling.Sha256

/-!
# Sparse merkle trees

A tree of depth `d` has `2 ^ d` leaves, of which the first few are given and all others are zero.
Only the layers above the given leaves are hashed; whatever lies beyond them is the root of an
all-zero tree of the same height.

The list of commitments of a block is a tree of its own with the number of commitments mixed in at
the top, and its root is a leaf of the tree of the block body. An inclusion proof of one commitment
is the branch in the list, the number of commitments, and the branch in the body.
-/

namespace ColumnSampling.Merkle

/-- The leaves of a tree of depth `depth`. -/
def capacity (depth : Nat) : Nat := Nat.pow 2 depth

/-- The roots of the all-zero trees of `count` successive heights, the lowest one given. -/
def zeroRootsFrom (lowest : Root) : (count : Nat) → List Root
  | 0 => []
  | count + 1 => lowest :: zeroRootsFrom (hashPair lowest lowest) count

def zeroRoots (depth : Nat) : List Root := zeroRootsFrom (.zero 32) (depth + 1)

/-- The layer above `layer`. A last node without a neighbour is paired with `zero`. -/
def pairUp (zero : Root) : (layer : List Root) → List Root
  | [] => []
  | [last] => [hashPair last zero]
  | left :: right :: rest => hashPair left right :: pairUp zero rest

/-- The position that has the same parent. -/
def sibling (position : Nat) : Nat :=
  if position % 2 = 0 then position + 1 else position - 1

/--
The root above `layer`, `depth` levels up, and the siblings on the way there from `position`.
Nodes beyond the layer are `zero`.
-/
def climb : (depth : Nat) → (zero : Root) → (layer : List Root) → (position : Nat) →
    Root × List Root
  | 0, zero, layer, _ => (layer.headD zero, [])
  | depth + 1, zero, layer, position =>
    let above := climb depth (hashPair zero zero) (pairUp zero layer) (position / 2)
    (above.1, layer.getD (sibling position) zero :: above.2)

def rootAndBranch (leaves : List Root) (depth index : Nat) : Root × List Root :=
  climb depth (.zero 32) leaves index

def root (leaves : List Root) (depth : Nat) : Root := (rootAndBranch leaves depth 0).1

/-- The branch of the leaf at `index`, from the bottom up. -/
def branch (leaves : List Root) (depth index : Nat) : List Root :=
  (rootAndBranch leaves depth index).2

/-- Folds a branch onto a leaf. The bits of `index` tell which side each sibling is on. -/
def foldBranch (leaf : Root) : (branch : List Root) → (index : Nat) → Root
  | [], _ => leaf
  | node :: rest, index =>
    foldBranch (if index % 2 = 1 then hashPair node leaf else hashPair leaf node) rest (index / 2)

/-- Whether a branch of the right length leads from `leaf` at `index` to `root`. -/
def checkBranch (leaf : Root) (branch : List Root) (depth index : Nat) (root : Root) : Bool :=
  branch.length = depth && foldBranch leaf branch index = root

/-- A number as a leaf: its bytes, least significant first, filled up with zeros. -/
def numberLeaf (n : Nat) : Root := .ofList (Endian.little 32 n) (by simp)

end ColumnSampling.Merkle

namespace ColumnSampling

inductive MerkleError where
  | emptyCommitments
  | indexOutOfBounds (index length : Nat)
  | tooManyCommitments (got depth capacity : Nat)
  | bodyBranchLength (expected actual : Nat)
deriving DecidableEq, Repr

def MerkleError.message : MerkleError → String
  | .emptyCommitments => "Commitments list is empty"
  | .indexOutOfBounds index length => s!"Index {index} out of bounds for {length} commitments"
  | .tooManyCommitments got depth capacity =>
    s!"Too many commitments: got {got}, tree of depth {depth} holds {capacity}"
  | .bodyBranchLength expected actual => s!"Body branch must have {expected} nodes, got {actual}"

namespace Commitment

/-- The leaf of a commitment: its two chunks, the second filled up with zeros. -/
def leaf (c : Commitment) : Root := Sha256.digest (c.bytes ++ (FixedBytes.zero 16).bytes)

/-- The leaves of a list that fits a tree of depth `depth`. -/
def leaves (commitments : List Commitment) (depth : Nat) : Except MerkleError (List Root) :=
  if commitments.length ≤ Merkle.capacity depth then .ok (commitments.map leaf)
  else .error (.tooManyCommitments commitments.length depth (Merkle.capacity depth))

/-- The root of a list of at most `2 ^ depth` commitments, with its length mixed in. -/
def listRoot (commitments : List Commitment) (depth : Nat) : Except MerkleError Root := do
  let nodes ← leaves commitments depth
  return hashPair (Merkle.root nodes depth) (Merkle.numberLeaf commitments.length)

/--
The proof that the commitment at `index` is in the body whose list of commitments `bodyBranch`
opens: `depth + 1 + bodyDepth` nodes.
-/
def inclusionProof (commitments : List Commitment) (index depth : Nat) (bodyBranch : List Root)
    (bodyDepth : Nat) : Except MerkleError (List Root) :=
  if commitments.isEmpty then .error .emptyCommitments
  else if commitments.length ≤ index then .error (.indexOutOfBounds index commitments.length)
  else if bodyBranch.length ≠ bodyDepth then
    .error (.bodyBranchLength bodyDepth bodyBranch.length)
  else do
    let nodes ← leaves commitments depth
    return Merkle.branch nodes depth index ++
      Merkle.numberLeaf commitments.length :: bodyBranch

/-- Whether `proof` shows that the commitment is at `index` of the list in the body. -/
def checkInclusion (c : Commitment) (proof : List Root) (index depth bodyDepth : Nat)
    (bodyRoot : Root) : Bool :=
  proof.length = depth + 1 + bodyDepth && index < Merkle.capacity depth &&
    Merkle.checkBranch (Merkle.foldBranch c.leaf (proof.take (depth + 1)) index)
      (proof.drop (depth + 1)) bodyDepth commitmentsFieldIndex bodyRoot

end Commitment

end ColumnSampling
