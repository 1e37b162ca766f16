import ColumnSampling.Kzg.Backend
import ColumnSampling.Kzg.Curve
import ColumnSampling.Kzg.Extension

/-!
# The scheme without a setup

The backend over the curve, as far as it needs no points but the generator. Cells are computed and
recovered for all blobs. Commitments and proofs are those of blobs whose polynomial is constant:
such a commitment is a multiple of the generator, and every proof is the neutral point. Anything
else is answered with an error.
-/

namespace ColumnSampling.BareKzg

def refused (name : String) : KzgError := .operation name "CError(C_KZG_BADARGS)"

def mismatch (name text : String) : KzgError :=
  .operation name ("MismatchLength(\"" ++ text ++ "\")")

/-- The answer would need the points of a setup. -/
def unsupported (name : String) : KzgError := .operation name "no trusted setup"

/-- The field elements of data, all of which must be below the modulus. -/
def scalars (name : String) (data : ByteArray) : Except KzgError (List Scalar) :=
  match Scalar.listOfBytes? data with
  | some scalars => .ok scalars
  | none => .error (refused name)

def point (name : String) (bytes : FixedBytes 48) : Except KzgError CurvePoint :=
  match CurvePoint.ofBytes? bytes.toList with
  | some point => .ok point
  | none => .error (refused name)

/-- The value of a polynomial that has the same value everywhere. -/
def constant (name : String) (values : List Scalar) : Except KzgError Scalar :=
  match values with
  | [] => .ok (Modular.ofNat 0)
  | value :: rest => if rest.all (· = value) then .ok value else .error (unsupported name)

def commitmentTo (value : Scalar) : CurvePoint := CurvePoint.generator.multiple value.val

def fixed (p : CurvePoint) : FixedBytes 48 := .ofList p.toBytes (by simp)

def neutralProof : Proof := fixed .zero

def cellsOf (values : List Scalar) : List Cell :=
  (Extension.cut cellsPerExtendedBlob values).map fun cell => ⟨Scalar.bytesOfList cell⟩

def withProofs (name : String) (values : List Scalar) (cells : List Cell) :
    Except KzgError ExtendedBlob :=
  match constant name values with
  | .error e => .error e
  | .ok _ => .ok ⟨cells, cells.map fun _ => neutralProof, by simp⟩

def commit (b : Blob) : Except KzgError Commitment := do
  let name := "blob_to_kzg_commitment"
  let value ← constant name (← scalars name b.data)
  return fixed (commitmentTo value)

def cells (b : Blob) : Except KzgError (List Cell) := do
  let values ← scalars "compute_cells" b.data
  return cellsOf (Extension.extend values)

/-- The proof of a blob. The commitment need not be that of the blob. -/
def blobProof (b : Blob) (c : Commitment) : Except KzgError Proof := do
  let name := "compute_blob_kzg_proof"
  let values ← scalars name b.data
  let _ ← point name c
  let _ ← constant name values
  return neutralProof

def extend (b : Blob) : Except KzgError ExtendedBlob := do
  let name := "compute_cells_and_kzg_proofs"
  let values ← scalars name b.data
  withProofs name values (cellsOf (Extension.extend values))

def verifyCell (name : String) (c : Commitment) (column : Nat) (cell : Cell) (p : Proof) :
    Except KzgError Bool := do
  if cellsPerExtendedBlob ≤ column then throw (refused name)
  let commitment ← point name c
  let values ← scalars name cell.data
  let proof ← point name p
  let value ← constant name values
  return proof.isZero && commitment.toBytes = (commitmentTo value).toBytes

def verifyCells (commitments : List Commitment) (columns : List Nat) (cells : List Cell)
    (proofs : List Proof) : Except KzgError Bool := do
  let name := "verify_cell_kzg_proof_batch"
  let count := cells.length
  let differ (n : Nat) (what : String) : KzgError :=
    mismatch name s!"There are {count} cells and {n} {what}"
  if commitments.length ≠ count then throw (differ commitments.length "commitments")
  if columns.length ≠ count then throw (differ columns.length "column indices")
  if proofs.length ≠ count then throw (differ proofs.length "proofs")
  let answers ← (commitments.zip (columns.zip (cells.zip proofs))).mapM
    fun (commitment, column, cell, proof) => verifyCell name commitment column cell proof
  return answers.all id

def ascending : List Nat → Bool
  | a :: b :: rest => a < b && ascending (b :: rest)
  | _ => true

def recoverName : String := "recover_cells_and_kzg_proofs"

/-- All cells of an extended blob from at least half of them, with their field elements. -/
def recoverCells (columns : List Nat) (cells : List Cell) :
    Except KzgError (List Scalar × List Cell) := do
  if columns.length ≠ cells.length then
    throw (mismatch recoverName
      s!"There are {columns.length} cell indices and {cells.length} cells")
  if cellsPerExtendedBlob < columns.length ∨ columns.length < cellsPerExtendedBlob / 2 ∨
      columns.any (cellsPerExtendedBlob ≤ ·) ∨ !ascending columns then
    throw (refused recoverName)
  let given ← cells.mapM fun cell => scalars recoverName cell.data
  if columns.length = cellsPerExtendedBlob then return (given.flatten, cells)
  let values := Extension.recover (columns.zip given)
  return (values, cellsOf values)

def recover (columns : List Nat) (cells : List Cell) : Except KzgError ExtendedBlob := do
  let (values, cells) ← recoverCells columns cells
  withProofs recoverName values cells

end ColumnSampling.BareKzg

namespace ColumnSampling

/-- The backend over the curve, without a setup. -/
def KzgBackend.bare : KzgBackend where
  commit := BareKzg.commit
  cells := BareKzg.cells
  blobProof := BareKzg.blobProof
  extend := BareKzg.extend
  verifyCells := BareKzg.verifyCells
  recover := BareKzg.recover

end ColumnSampling
