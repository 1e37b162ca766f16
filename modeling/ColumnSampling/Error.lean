import ColumnSampling.Custody.Groups
import ColumnSampling.Kzg.Backend
import ColumnSampling.Merkle
import ColumnSampling.Record

/-!
# Failures of the engine

One type for each class of failure, so that a caller can tell malformed input from a proof that does
not hold, and either from a lack of columns.
-/

namespace ColumnSampling

/-- Malformed input: a wrong size, length or index. -/
inductive ValidationError where
  | indexTooLarge (index max : Nat)
  | noCommitments (index : Nat)
  | mismatchedLengths (index cells commitments proofs : Nat)
  | blobCount (expected actual : Nat)
  | cellCount (blob expected actual : Nat)
  | columnLength (column expected actual : Nat)
  | otherBlock (column first : Nat)
  | noHeader (index : Nat)
  | rootLength (expected actual : Nat)
  | invalidCell (column blob : Nat) (reason : SizeError)
  | block (cause : MerkleError)
deriving DecidableEq, Repr

def ValidationError.message : ValidationError → String
  | .indexTooLarge index max => s!"Column index {index} too large, must be below {max}"
  | .noCommitments index => s!"Sidecar for column {index} has no KZG commitments"
  | .mismatchedLengths index cells commitments proofs =>
    s!"Sidecar for column {index} has mismatched lengths: {cells} cells, {commitments} " ++
      s!"commitments, {proofs} proofs"
  | .blobCount expected actual =>
    s!"Got cells and proofs for {actual} blobs but the block commits to {expected}"
  | .cellCount blob expected actual => s!"Blob {blob} has {actual} cells, expected {expected}"
  | .columnLength column expected actual =>
    s!"Column {column} has {actual} blobs, expected {expected}"
  | .otherBlock column first =>
    s!"Column {column} belongs to a different block than column {first}"
  | .noHeader index => s!"Sidecar for column {index} has no signed block header"
  | .rootLength expected actual => s!"Body root has {actual} bytes, expected {expected}"
  | .invalidCell column blob reason =>
    s!"Invalid cell at column {column}, blob {blob}: {reason.message}"
  | .block cause => s!"Block merkleization failed: {cause.message}"

/-- Why a batch of cell proofs was refused. -/
inductive ProofFault where
  | backend (cause : KzgError)
  | rejected
deriving DecidableEq, Repr

def ProofFault.message : ProofFault → String
  | .backend cause => cause.message
  | .rejected => "verification returned false"

/-- Well-formed input whose proof does not hold. -/
inductive CryptographicError where
  | invalidKzgProof (sidecars : Nat) (reason : ProofFault)
  | invalidInclusionProof (index : Nat)
deriving DecidableEq, Repr

def CryptographicError.message : CryptographicError → String
  | .invalidKzgProof sidecars reason =>
    s!"Invalid KZG cell proof in batch of {sidecars} sidecars: {reason.message}"
  | .invalidInclusionProof index => s!"Invalid commitments inclusion proof for column {index}"

/-- Too few columns, or columns that do not belong together. -/
inductive ReconstructionError where
  | noSidecars
  | missingColumns (missing : List Nat)
  | notEnoughColumns (present need : Nat)
  | inconsistent (cause : ValidationError)
  | blobRecovery (blob : Nat) (cause : KzgError)
deriving DecidableEq, Repr

def ReconstructionError.message : ReconstructionError → String
  | .noSidecars => "No data column sidecars to reconstruct from"
  | .missingColumns missing =>
    "Missing data columns [" ++ ", ".intercalate (missing.map toString) ++ "]"
  | .notEnoughColumns present need =>
    s!"Have {present} distinct columns, need at least {need} to reconstruct"
  | .inconsistent cause => cause.message
  | .blobRecovery blob cause =>
    s!"Failed to recover cells and proofs for blob {blob}: {cause.message}"

inductive EngineError where
  | validation (cause : ValidationError)
  | cryptographic (cause : CryptographicError)
  | reconstruction (cause : ReconstructionError)
  | custody (cause : CustodyError)
  | kzg (cause : KzgError)
  | record (cause : RecordError)
  | parameters (cause : ParameterError)
deriving DecidableEq, Repr

def EngineError.message : EngineError → String
  | .validation cause => cause.message
  | .cryptographic cause => cause.message
  | .reconstruction cause => cause.message
  | .custody cause => cause.message
  | .kzg cause => cause.message
  | .record cause => cause.message
  | .parameters cause => "Invalid configuration: " ++ cause.message

end ColumnSampling
