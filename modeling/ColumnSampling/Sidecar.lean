import ColumnSampling.Block
import ColumnSampling.Parameters

/-!
# Sidecars

A column sidecar holds one column of the extended blob matrix of a block: a cell and a proof for
every blob. It repeats the commitments and the signed header of the block, so that it can be checked
alone. A blob sidecar holds a blob that was rebuilt from columns.
-/

namespace ColumnSampling

/-- One column of the extended blob matrix of a block. -/
structure ColumnSidecar where
  index : UInt64
  /-- A cell for every blob, in the order of the blobs. -/
  cells : List Cell
  /-- All commitments of the block. -/
  commitments : List Commitment
  /-- The proof of every cell. -/
  proofs : List Proof
  /-- Missing only in malformed input. -/
  header : Option SignedHeader
  /-- The branch from the list of commitments to the root of the body. -/
  inclusionProof : List Root
deriving DecidableEq, Inhabited

namespace ColumnSidecar

def blobCount (s : ColumnSidecar) : Nat := s.cells.length

def slot (s : ColumnSidecar) : Option UInt64 := s.header.map (·.message.slot)

def blockRoot (s : ColumnSidecar) : Option Root := s.header.map (·.signingRoot)

/-- About how many bytes the sidecar takes on the wire. -/
def sizeBytes (s : ColumnSidecar) : Nat :=
  8 + s.cells.length * bytesPerCell + s.commitments.length * bytesPerCommitment +
    s.proofs.length * bytesPerProof + s.inclusionProof.length * bytesPerRoot

end ColumnSidecar

/-- A rebuilt blob, with what is needed to check it against its block. -/
structure BlobSidecar where
  index : UInt64
  blob : Blob
  commitment : Commitment
  /-- The proof of the whole blob. -/
  proof : Proof
  header : SignedHeader
  /-- Shows that the commitment is at `index` of the list in the body. -/
  inclusionProof : List Root
deriving DecidableEq, Inhabited

def BlobSidecar.sizeBytes (s : BlobSidecar) : Nat :=
  8 + bytesPerBlob + bytesPerCommitment + bytesPerProof + s.inclusionProof.length * bytesPerRoot

end ColumnSampling
