import ColumnSampling.Ascending
import ColumnSampling.Column.Codec
import ColumnSampling.Column.Verification

/-!
# Reconstruction

Any half of the columns of a block determines all of them. The backend recovers the rows one by
one, and the rows are encoded again with the header, the commitments and the branch of the first
sidecar.
-/

namespace ColumnSampling.Reconstruction

/-- The first sidecar of a column. -/
def firstOf (sidecars : List VerifiedColumn) (column : Nat) : Option VerifiedColumn :=
  sidecars.find? (·.index = column)

/--
The columns present, in ascending order, each with its first sidecar. All sidecars must be of the
block of the first one.
-/
def distinctColumns (sidecars : List VerifiedColumn) :
    Except ReconstructionError (List VerifiedColumn) :=
  match sidecars with
  | [] => .error .noSidecars
  | first :: _ =>
    match sidecars.forM first.sameBlock with
    | .error cause => .error (.inconsistent cause)
    | .ok () =>
      .ok ((Ascending.ofList (sidecars.map (·.index))).filterMap (firstOf sidecars))

def rowCells (columns : List VerifiedColumn) (row : Nat) : List Cell :=
  columns.filterMap (·.sidecar.cells[row]?)

def recoverRow (kzg : KzgBackend) (columns : List VerifiedColumn) (row : Nat) :
    Except ReconstructionError ExtendedBlob :=
  match kzg.recover (columns.map (·.index)) (rowCells columns row) with
  | .error cause => .error (.blobRecovery row cause)
  | .ok blob => .ok blob

def recoverRows (kzg : KzgBackend) (columns : List VerifiedColumn) :
    Except ReconstructionError (List ExtendedBlob) :=
  (List.range (columns.head?.elim 0 (·.blobCount))).mapM (recoverRow kzg columns)

/-- Recovers every row from the columns present. -/
def recover (kzg : KzgBackend) (sidecars : List VerifiedColumn) :
    Except ReconstructionError (List ExtendedBlob) :=
  match distinctColumns sidecars with
  | .error e => .error e
  | .ok columns => recoverRows kzg columns

/-- What the rebuilt columns take over from a sidecar. -/
def sharedOf (c : VerifiedColumn) : Encoding.Shared where
  commitments := c.sidecar.commitments
  inclusionProof := c.sidecar.inclusionProof
  header := c.header

/--
Rebuilds all columns of a block. A full set is given back in order; from fewer columns, but at least
half of them, the rows are recovered and encoded again.
-/
def columns (kzg : KzgBackend) (sidecars : List VerifiedColumn) (p : Parameters) :
    Except EngineError (List ColumnSidecar) :=
  match distinctColumns sidecars with
  | .error e => .error (.reconstruction e)
  | .ok present =>
    if p.columns ≤ present.length then .ok (present.map (·.sidecar))
    else if present.length < p.columnsForRecovery then
      .error (.reconstruction (.notEnoughColumns present.length p.columnsForRecovery))
    else match recover kzg sidecars, sidecars with
      | .error e, _ => .error (.reconstruction e)
      | .ok _, [] => .error (.reconstruction .noSidecars)
      | .ok rows, first :: _ =>
        match Encoding.transpose (sharedOf first) rows p with
        | .error cause => .error (.validation cause)
        | .ok rebuilt => .ok rebuilt

end ColumnSampling.Reconstruction
