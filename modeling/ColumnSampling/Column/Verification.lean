import ColumnSampling.Error
import ColumnSampling.Sidecar

/-!
# Verification of columns

A sidecar passes three gates: its lists fit together, its commitments are those of the body that its
header names, and every cell opens its commitment. The last gate takes a whole batch in one call.
Only a batch that passed all three gives verified columns, which decoding and recovery start from.
-/

namespace ColumnSampling

/-- A sidecar that passed verification, with the header it was verified against. -/
structure VerifiedColumn where
  sidecar : ColumnSidecar
  header : SignedHeader
  header_eq : sidecar.header = some header
  length_commitments : sidecar.commitments.length = sidecar.cells.length
  length_proofs : sidecar.proofs.length = sidecar.cells.length
deriving DecidableEq

namespace VerifiedColumn

def index (c : VerifiedColumn) : Nat := c.sidecar.index.toNat

def blobCount (c : VerifiedColumn) : Nat := c.sidecar.blobCount

/-- Why two columns are not of one block, if they are not. -/
def sameBlock (first other : VerifiedColumn) : Except ValidationError Unit :=
  if other.blobCount ≠ first.blobCount then
    .error (.columnLength other.index first.blobCount other.blobCount)
  else if other.header ≠ first.header ∨ other.sidecar.commitments ≠ first.sidecar.commitments then
    .error (.otherBlock other.index first.index)
  else .ok ()

end VerifiedColumn

namespace ColumnSidecar

/-- The first gate: the column exists, it has commitments, and its lists are equally long. -/
def checkStructure (s : ColumnSidecar) (p : Parameters) : Except ValidationError Unit :=
  if p.columns ≤ s.index.toNat then .error (.indexTooLarge s.index.toNat p.columns)
  else if s.commitments.isEmpty then .error (.noCommitments s.index.toNat)
  else if s.cells.length ≠ s.commitments.length ∨ s.commitments.length ≠ s.proofs.length then
    .error (.mismatchedLengths s.index.toNat s.cells.length s.commitments.length s.proofs.length)
  else .ok ()

/-- The second gate: the list of commitments is a field of the body that the header names. -/
def checkInclusion (s : ColumnSidecar) (p : Parameters) : Except EngineError Unit :=
  match s.header with
  | none => .error (.validation (.noHeader s.index.toNat))
  | some header =>
    if p.rootLength.toNat ≠ bytesPerRoot then
      .error (.validation (.rootLength p.rootLength.toNat bytesPerRoot))
    else match Commitment.listRoot s.commitments p.commitmentsTreeDepth with
      | .error cause => .error (.validation (.block cause))
      | .ok list =>
        if Merkle.checkBranch list s.inclusionProof p.inclusionProofDepth.toNat
            commitmentsFieldIndex header.message.bodyRoot then .ok ()
        else .error (.cryptographic (.invalidInclusionProof s.index.toNat))

def verified (s : ColumnSidecar) : Except EngineError VerifiedColumn :=
  match h : s.header with
  | none => .error (.validation (.noHeader s.index.toNat))
  | some header =>
    if lengths : s.commitments.length = s.cells.length ∧ s.proofs.length = s.cells.length then
      .ok ⟨s, header, h, lengths.1, lengths.2⟩
    else .error (.validation (.mismatchedLengths s.index.toNat s.cells.length
      s.commitments.length s.proofs.length))

/-- What the backend is asked about one row: commitment, column, cell and proof. -/
structure Opening where
  commitment : Commitment
  column : Nat
  cell : Cell
  proof : Proof
deriving DecidableEq

/-- The openings of a column, row by row. -/
def openings (s : ColumnSidecar) : List Opening :=
  (s.commitments.zip (s.cells.zip s.proofs)).map fun row =>
    ⟨row.1, s.index.toNat, row.2.1, row.2.2⟩

end ColumnSidecar

namespace Verification

/-- The third gate: one call of the backend for all openings of the batch. -/
def checkProofs (kzg : KzgBackend) (batch : List ColumnSidecar) :
    Except CryptographicError Unit :=
  if batch.all (·.cells.isEmpty) then .ok ()
  else
    let openings := batch.flatMap (·.openings)
    match kzg.verifyCells (openings.map (·.commitment)) (openings.map (·.column))
        (openings.map (·.cell)) (openings.map (·.proof)) with
    | .error cause => .error (.invalidKzgProof batch.length (.backend cause))
    | .ok false => .error (.invalidKzgProof batch.length .rejected)
    | .ok true => .ok ()

/-- The first two gates for one sidecar. -/
def checkSidecar (p : Parameters) (s : ColumnSidecar) : Except EngineError Unit :=
  match s.checkStructure p with
  | .error cause => .error (.validation cause)
  | .ok () => s.checkInclusion p

/-- Verifies a batch. It is accepted as a whole or not at all. -/
def verify (kzg : KzgBackend) (batch : List ColumnSidecar) (p : Parameters) :
    Except EngineError (List VerifiedColumn) := do
  batch.forM (checkSidecar p)
  match checkProofs kzg batch with
  | .error cause => .error (.cryptographic cause)
  | .ok () => batch.mapM (·.verified)

end Verification

end ColumnSampling
