import ColumnSampling.Blob

/-!
# Polynomial commitments

The rest of the library never touches field arithmetic. What it needs of a commitment scheme is six
operations, each of which answers or fails.
-/

namespace ColumnSampling

inductive KzgError where
  | trustedSetupLoad (reason : String)
  | invalidBlob (reason : String)
  | invalidCell (reason : String)
  | invalidBytes48 (reason : String)
  | operation (name reason : String)
deriving DecidableEq, Repr

def KzgError.message : KzgError → String
  | .trustedSetupLoad reason => s!"Failed to load trusted setup: {reason}"
  | .invalidBlob reason => s!"Invalid blob data: {reason}"
  | .invalidCell reason => s!"Invalid cell data: {reason}"
  | .invalidBytes48 reason => s!"Invalid 48-byte input: {reason}"
  | .operation name reason => s!"KZG operation `{name}` failed: {reason}"

/-- A commitment scheme that opens the cells of extended blobs. -/
structure KzgBackend where
  /-- The commitment to a blob. -/
  commit : Blob → Except KzgError Commitment
  /-- The cells of the extended blob. -/
  cells : Blob → Except KzgError (List Cell)
  /-- The proof of a whole blob against its commitment. -/
  blobProof : Blob → Commitment → Except KzgError Proof
  /-- The cells of the extended blob, each with its proof. -/
  extend : Blob → Except KzgError ExtendedBlob
  /-- Whether each cell, at its column, opens its commitment by its proof. -/
  verifyCells : (commitments : List Commitment) → (columns : List Nat) → (cells : List Cell) →
    (proofs : List Proof) → Except KzgError Bool
  /-- The extended blob that has the given cells at the given columns. -/
  recover : (columns : List Nat) → (cells : List Cell) → Except KzgError ExtendedBlob

end ColumnSampling
