import ColumnSampling.Ascending
import ColumnSampling.Block
import ColumnSampling.Column.Verification
import ColumnSampling.Error
import ColumnSampling.Sidecar

/-!
# Encoding and decoding of blobs

The cells of the blobs of a block are a matrix with a row for each blob. Encoding reads it column by
column: sidecar `c` holds cell `c` of every blob. The first half of the columns holds the bytes of
the blobs, so decoding rebuilds a blob from its row of these columns by copying. Its proof is
computed anew.
-/

namespace ColumnSampling.Encoding

/-- The cells and proofs of every blob, or the failure of the first blob that has none. -/
def extendBlobs (kzg : KzgBackend) (blobs : List Blob) : Except KzgError (List ExtendedBlob) :=
  blobs.mapM kzg.extend

/-- The first row that does not have one cell for each column. -/
def firstBadRow (columns : Nat) : (rows : List ExtendedBlob) → (index : Nat) → Option (Nat × Nat)
  | [], _ => none
  | row :: rest, index =>
    if row.length = columns then firstBadRow columns rest (index + 1)
    else some (index, row.length)

/-- What all columns of a block share. -/
structure Shared where
  commitments : List Commitment
  inclusionProof : List Root
  header : SignedHeader
deriving DecidableEq

def column (shared : Shared) (rows : List ExtendedBlob) (index : Nat) : ColumnSidecar where
  index := index.toUInt64
  cells := rows.filterMap (·.cells[index]?)
  commitments := shared.commitments
  proofs := rows.filterMap (·.proofs[index]?)
  header := some shared.header
  inclusionProof := shared.inclusionProof

/-- All columns of the matrix, each row of which must have one cell for each column. -/
def transpose (shared : Shared) (rows : List ExtendedBlob) (p : Parameters) :
    Except ValidationError (List ColumnSidecar) :=
  match firstBadRow p.columns rows 0 with
  | some (blob, actual) => .error (.cellCount blob p.columns actual)
  | none => .ok ((List.range p.columns).map (column shared rows))

def sharedOf (block : SignedBlock) (depth : Nat) : Except MerkleError Shared := do
  let inclusionProof ← block.message.body.commitmentsBranch depth
  let header ← block.header depth
  return { commitments := block.commitments, inclusionProof := inclusionProof, header := header }

/-- One sidecar for each column; none without a block or without blobs. -/
def sidecars (block : Option SignedBlock) (rows : List ExtendedBlob) (p : Parameters) :
    Except ValidationError (List ColumnSidecar) :=
  match block with
  | none => .ok []
  | some block =>
    if rows.isEmpty then .ok []
    else if rows.length ≠ block.commitments.length then
      .error (.blobCount block.commitments.length rows.length)
    else match sharedOf block p.commitmentsTreeDepth with
      | .error cause => .error (.block cause)
      | .ok shared => transpose shared rows p

end ColumnSampling.Encoding

namespace ColumnSampling.Decoding

/-- The last sidecar of a column. -/
def lastOf (sidecars : List VerifiedColumn) (column : Nat) : Option VerifiedColumn :=
  sidecars.reverse.find? (·.index = column)

/-- The columns present, in ascending order, each with its last sidecar. -/
def distinct (sidecars : List VerifiedColumn) : List VerifiedColumn :=
  (Ascending.ofList (sidecars.map (·.index))).filterMap (lastOf sidecars)

/-- The rows asked for: all of them, or those of the list that exist. -/
def requestedRows (indices : List Nat) (blobCount : Nat) : List Nat :=
  if indices.isEmpty then List.range blobCount else indices.filter (· < blobCount)

/-- The cells of one row, joined. -/
def rowData (columns : List VerifiedColumn) (row : Nat) : ByteArray :=
  columns.foldl (fun data c => data ++ (c.sidecar.cells[row]?.getD default).data) .empty

/-- One rebuilt blob, with the proofs that tie it to the block of `first`. -/
def blobSidecar (kzg : KzgBackend) (p : Parameters) (first : VerifiedColumn)
    (columns : List VerifiedColumn) (row : Nat) : Except EngineError BlobSidecar :=
  match Blob.ofBytes (rowData columns row) with
  | .error reason => .error (.validation (.invalidCell 0 row reason))
  | .ok blob =>
    match first.sidecar.commitments[row]? with
    | none =>
      .error (.validation (.block (.indexOutOfBounds row first.sidecar.commitments.length)))
    | some commitment =>
      match kzg.blobProof blob commitment with
      | .error cause => .error (.kzg cause)
      | .ok proof =>
        match Commitment.inclusionProof first.sidecar.commitments row p.commitmentsTreeDepth
            first.sidecar.inclusionProof blockBodyTreeDepth with
        | .error cause => .error (.validation (.block cause))
        | .ok nodes =>
          .ok { index := row.toUInt64, blob := blob, commitment := commitment, proof := proof,
                header := first.header, inclusionProof := nodes }

/--
Rebuilds blobs from the first half of the columns. The indices select blobs; none at all select
every blob, and those beyond the blobs of the block are passed over.
-/
def blobs (kzg : KzgBackend) (sidecars : List VerifiedColumn) (indices : List Nat)
    (p : Parameters) : Except EngineError (List BlobSidecar) :=
  let needed := List.range p.columnsForRecovery
  let missing := needed.filter fun column => (lastOf sidecars column).isNone
  if missing ≠ [] then .error (.reconstruction (.missingColumns missing))
  else
    let systematic := needed.filterMap (lastOf sidecars)
    match systematic with
    | [] => .ok []
    | first :: _ =>
      match (distinct sidecars).forM first.sameBlock with
      | .error cause => .error (.validation cause)
      | .ok () =>
        (requestedRows indices first.blobCount).mapM (blobSidecar kzg p first systematic)

end ColumnSampling.Decoding
