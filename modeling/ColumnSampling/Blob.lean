import ColumnSampling.Bytes
import ColumnSampling.Parameters

/-!
# Blobs, cells, commitments and proofs

A blob is the payload that a block commits to. For sampling it is extended to twice its length and
cut into cells, one for each column; a proof opens each cell against the commitment of the blob.
The first half of the cells holds the bytes of the blob unchanged.
-/

namespace ColumnSampling

/-- Which byte string had a wrong size, and what the size was. -/
inductive SizeError where
  | blob (actual : Nat)
  | cell (actual : Nat)
  | commitment (actual : Nat)
  | proof (actual : Nat)
  | extendedBlob (cells proofs : Nat)
deriving Repr, DecidableEq

def SizeError.message : SizeError → String
  | .blob actual => s!"Invalid blob size: expected {bytesPerBlob} bytes, got {actual} bytes"
  | .cell actual => s!"Invalid cell size: expected {bytesPerCell} bytes, got {actual} bytes"
  | .commitment actual =>
    s!"Invalid commitment size: expected {bytesPerCommitment} bytes, got {actual}"
  | .proof actual => s!"Invalid proof size: expected {bytesPerProof} bytes, got {actual}"
  | .extendedBlob cells proofs =>
    s!"Cells and proofs length mismatch: {cells} cells, {proofs} proofs"

/-- The payload of a block. `Blob.ofBytes` builds only blobs of the right size. -/
@[ext] structure Blob where
  data : ByteArray
deriving Inhabited

instance : DecidableEq Blob := fun x y =>
  if h : x.data.data = y.data.data then isTrue (Blob.ext (ByteArray.ext h))
  else isFalse fun e => h (congrArg (·.data.data) e)

/-- The part of an extended blob that belongs to one column. -/
@[ext] structure Cell where
  data : ByteArray
deriving Inhabited

instance : DecidableEq Cell := fun x y =>
  if h : x.data.data = y.data.data then isTrue (Cell.ext (ByteArray.ext h))
  else isFalse fun e => h (congrArg (·.data.data) e)

/-- The commitment to a blob. Whether its bytes are a curve point is for the backend to decide. -/
abbrev Commitment := FixedBytes 48

abbrev Proof := FixedBytes 48

/-- A signature, carried and never checked. -/
abbrev Signature := FixedBytes 96

def Blob.ofBytes (data : ByteArray) : Except SizeError Blob :=
  if data.size = bytesPerBlob then .ok ⟨data⟩ else .error (.blob data.size)

/-- The size that every blob is meant to have. -/
def Blob.size (_ : Blob) : Nat := bytesPerBlob

def Cell.ofBytes (data : ByteArray) : Except SizeError Cell :=
  if data.size = bytesPerCell then .ok ⟨data⟩ else .error (.cell data.size)

def Commitment.ofBytes (data : ByteArray) : Except SizeError Commitment :=
  match FixedBytes.ofBytes? data with
  | some commitment => .ok commitment
  | none => .error (.commitment data.size)

def Proof.ofBytes (data : ByteArray) : Except SizeError Proof :=
  match FixedBytes.ofBytes? data with
  | some proof => .ok proof
  | none => .error (.proof data.size)

/-- The cells of one extended blob, each with the proof that opens it. -/
structure ExtendedBlob where
  cells : List Cell
  proofs : List Proof
  length_eq : cells.length = proofs.length
deriving DecidableEq

namespace ExtendedBlob

/-- Pairs up cells and proofs, which must be equally many. -/
def ofLists (cells : List Cell) (proofs : List Proof) : Except SizeError ExtendedBlob :=
  if h : cells.length = proofs.length then .ok ⟨cells, proofs, h⟩
  else .error (.extendedBlob cells.length proofs.length)

def length (e : ExtendedBlob) : Nat := e.cells.length

end ExtendedBlob

end ColumnSampling
