import ColumnSampling.Blob
import ColumnSampling.Bytes
import ColumnSampling.Json.Form
import ColumnSampling.Json.Stop
import ColumnSampling.NodeId

/-!
# Byte strings in JSON

Roots and the contents of blobs and cells are written as hexadecimal text, commitments, proofs and
signatures as arrays of numbers. The contents of a blob or cell are read back at any length.
-/

namespace ColumnSampling.JsonForm

/-- The digits of a hexadecimal text, without a mark of either case. -/
def dropHexMark (text : List UInt8) : List UInt8 :=
  match text with
  | 48 :: x :: digits => if x = 120 || x = 88 then digits else text
  | _ => text

/-- The bytes that a value stands for: hexadecimal text, or an array of numbers. -/
def readBytes : Json → Option (List UInt8)
  | .string (.plain s) => (Hex.decodeList (dropHexMark s.toUTF8.data.toList)).toOption
  | .array items => byte.readAll items []
  | _ => none

def writeHex (bytes : List UInt8) : Json :=
  .text (String.ofList ('0' :: 'x' :: Hex.encodeList bytes))

def data : JsonForm ByteArray where
  write bytes := writeHex bytes.data.toList
  read j := (readBytes j).map fun bytes => ⟨bytes.toArray⟩

/-- An array without a last item that is passed over because it is no byte. -/
def dropPassable : Json → Json
  | .array items =>
    match items[32]? with
    | some item =>
      if items.length = 33 && item.isPassable then .array (items.take 32) else .array items
    | none => .array items
  | j => j

/-- Roots. One item too many in an array is no fault if it is no byte. -/
def root : JsonForm Root where
  write r := writeHex r.toList
  read j := (readBytes (dropPassable j)).bind fun bytes =>
    if h : bytes.length = 32 then some (.ofList bytes h) else none

/-- Fixed byte strings as arrays of numbers. A string is read as its bytes. -/
def fixed (n : Nat) : JsonForm (FixedBytes n) where
  write b := .array (b.toList.map byte.write)
  read j :=
    let bytes : Option (List UInt8) :=
      match j with
      | .array items => byte.readAll items []
      | .string text => some text.bytes
      | _ => none
    bytes.bind fun bytes => if h : bytes.length = n then some (.ofList bytes h) else none

def commitment : JsonForm Commitment := fixed 48

def proof : JsonForm Proof := fixed 48

def signature : JsonForm Signature := fixed 96

def nodeId : JsonForm NodeId where
  write id := .text id.toText
  read
    | .string (.plain s) => (NodeId.ofText s).toOption
    | _ => none

def blob : JsonForm Blob :=
  record ["data"] (fun b => [data.write b.data]) fun field => do
    return ⟨← (field "data").required data⟩

def cell : JsonForm Cell :=
  record ["data"] (fun c => [data.write c.data]) fun field => do
    return ⟨← (field "data").required data⟩

end ColumnSampling.JsonForm
