import ColumnSampling.Blob
import ColumnSampling.Merkle

/-!
# Blocks and their headers

A header names the block it belongs to by the root of its body. Its own root is what the proposer
signs, and so what every column of the block leads to. Of the body only the commitments and the
randao reveal are kept as they are. Every other field is kept as its root, which is enough to
rebuild the root of the body and the branch that leads there from the list of commitments.
-/

namespace ColumnSampling

/-- The header of a block. -/
@[ext] structure Header where
  slot : UInt64 := 0
  proposerIndex : UInt64 := 0
  parentRoot : Root := .zero 32
  stateRoot : Root := .zero 32
  bodyRoot : Root := .zero 32
deriving DecidableEq, Inhabited

structure SignedHeader where
  message : Header := default
  signature : Signature := .zero 96
deriving DecidableEq, Inhabited

def Header.leaves (h : Header) : List Root :=
  [Merkle.numberLeaf h.slot.toNat, Merkle.numberLeaf h.proposerIndex.toNat,
    h.parentRoot, h.stateRoot, h.bodyRoot]

/-- The root of a header: five fields in a tree of eight leaves. -/
def Header.root (h : Header) : Root := Merkle.root h.leaves 3

/-- What the proposer signs. -/
def SignedHeader.signingRoot (h : SignedHeader) : Root := h.message.root

/-- The roots of the body fields that are never looked into. -/
@[ext] structure BodyRoots where
  eth1Data : Root := .zero 32
  graffiti : Root := .zero 32
  proposerSlashings : Root := .zero 32
  attesterSlashings : Root := .zero 32
  attestations : Root := .zero 32
  deposits : Root := .zero 32
  voluntaryExits : Root := .zero 32
  syncAggregate : Root := .zero 32
  executionPayload : Root := .zero 32
  blsToExecutionChanges : Root := .zero 32
  executionRequests : Root := .zero 32
deriving DecidableEq, Inhabited

/-- The body of a block. -/
@[ext] structure Body where
  randaoReveal : Signature := .zero 96
  roots : BodyRoots := {}
  commitments : List Commitment := []
deriving DecidableEq, Inhabited

@[ext] structure Block where
  slot : UInt64 := 0
  proposerIndex : UInt64 := 0
  parentRoot : Root := .zero 32
  stateRoot : Root := .zero 32
  body : Body := {}
deriving DecidableEq, Inhabited

structure SignedBlock where
  message : Block := {}
  signature : Signature := .zero 96
deriving DecidableEq, Inhabited

/-- The root of a signature: three chunks in a tree of four leaves. -/
def Signature.root (s : Signature) : Root :=
  hashPair (Sha256.digest (s.bytes.extract 0 64))
    (Sha256.digest (s.bytes.extract 64 96 ++ (FixedBytes.zero 32).bytes))

namespace Body

/-- The leaves of the tree of a body, in the order of its thirteen fields. -/
def leaves (b : Body) (depth : Nat) : Except MerkleError (List Root) := do
  let list ← Commitment.listRoot b.commitments depth
  return [b.randaoReveal.root, b.roots.eth1Data, b.roots.graffiti, b.roots.proposerSlashings,
    b.roots.attesterSlashings, b.roots.attestations, b.roots.deposits, b.roots.voluntaryExits,
    b.roots.syncAggregate, b.roots.executionPayload, b.roots.blsToExecutionChanges, list,
    b.roots.executionRequests]

/-- The root of a body whose list of commitments is a tree of depth `depth`. -/
def root (b : Body) (depth : Nat) : Except MerkleError Root := do
  let nodes ← b.leaves depth
  return Merkle.root nodes blockBodyTreeDepth

def commitmentsBranch (b : Body) (depth : Nat) : Except MerkleError (List Root) := do
  let nodes ← b.leaves depth
  return Merkle.branch nodes blockBodyTreeDepth commitmentsFieldIndex

end Body

/-- The header that commits to the body of the block. -/
def Block.header (b : Block) (depth : Nat) : Except MerkleError Header := do
  let bodyRoot ← b.body.root depth
  return { slot := b.slot, proposerIndex := b.proposerIndex, parentRoot := b.parentRoot,
           stateRoot := b.stateRoot, bodyRoot := bodyRoot }

namespace SignedBlock

/-- The signed header of the block. The signature covers the root of the header, so it stays. -/
def header (b : SignedBlock) (depth : Nat) : Except MerkleError SignedHeader := do
  let message ← b.message.header depth
  return { message := message, signature := b.signature }

def commitments (b : SignedBlock) : List Commitment := b.message.body.commitments

end SignedBlock

end ColumnSampling
