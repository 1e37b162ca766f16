import ColumnSampling.Bytes
import ColumnSampling.Parameters

/-!
# The count in a node record

A node announces in its discovery record how many custody groups it keeps, as a number in recursive
length prefix form. In that form a byte string has a header that tells its length: a single byte
below 128 stands for itself, up to 55 bytes follow a header of one byte, and longer ones follow a
header that tells the length of the length. A number is the string of its bytes, most significant
first, without leading zeros. Reading accepts only the shortest form.
-/

namespace ColumnSampling.Rlp

/-- Why bytes are not the form of a 64-bit number. -/
inductive RlpError where
  | overflow
  | leadingZero
  | inputTooShort
  | nonCanonicalSingleByte
  | nonCanonicalSize
  | unexpectedLength
  | unexpectedString
  | unexpectedList
deriving DecidableEq, Repr

def RlpError.message : RlpError → String
  | .overflow => "overflow"
  | .leadingZero => "leading zero"
  | .inputTooShort => "input too short"
  | .nonCanonicalSingleByte => "non-canonical single byte"
  | .nonCanonicalSize => "non-canonical size"
  | .unexpectedLength => "unexpected length"
  | .unexpectedString => "unexpected string"
  | .unexpectedList => "unexpected list"

/-- A number of at most eight bytes, most significant first and without leading zero. -/
def wordOf (bytes : List UInt8) : Except RlpError Nat :=
  if 8 < bytes.length then .error .overflow
  else if bytes.head? = some 0 then .error .leadingZero
  else .ok (Endian.ofBig bytes)

structure Header where
  isList : Bool
  payloadLength : Nat
  rest : List UInt8
deriving DecidableEq, Repr

/-- A length that is itself written in `count` bytes. It is used only for 56 bytes and more. -/
def longLength (count : Nat) (bytes : List UInt8) : Except RlpError Nat :=
  if bytes.length < count then .error .inputTooShort
  else match wordOf (bytes.take count) with
    | .error e => .error e
    | .ok n => if n < 56 then .error .nonCanonicalSize else .ok n

/-- Reads a header. A byte that stands for itself has none, and stays in the rest. -/
def header : (bytes : List UInt8) → Except RlpError Header
  | [] => .error .inputTooShort
  | b :: rest =>
    if b < 0x80 then .ok ⟨false, 1, b :: rest⟩
    else if b < 0xb8 then
      if b = 0x81 then
        match rest with
        | [] => .error .inputTooShort
        | c :: _ => if c < 0x80 then .error .nonCanonicalSingleByte else .ok ⟨false, 1, rest⟩
      else .ok ⟨false, b.toNat - 0x80, rest⟩
    else if b < 0xc0 then
      match longLength (b.toNat - 0xb7) rest with
      | .error e => .error e
      | .ok n => .ok ⟨false, n, rest.drop (b.toNat - 0xb7)⟩
    else if b < 0xf8 then .ok ⟨true, b.toNat - 0xc0, rest⟩
    else
      match longLength (b.toNat - 0xf7) rest with
      | .error e => .error e
      | .ok n => .ok ⟨true, n, rest.drop (b.toNat - 0xf7)⟩

/-- Reads a 64-bit number that takes all the bytes. -/
def decodeWord (bytes : List UInt8) : Except RlpError Nat :=
  match header bytes with
  | .error e => .error e
  | .ok h =>
    if h.rest.length < h.payloadLength then .error .inputTooShort
    else if h.isList then .error .unexpectedList
    else match wordOf (h.rest.take h.payloadLength) with
      | .error e => .error e
      | .ok n => if h.rest.length = h.payloadLength then .ok n else .error .unexpectedLength

/-- The bytes of a number, most significant first, without leading zeros. -/
def minimalBytes (n : Nat) : List UInt8 := (Endian.big 8 n).dropWhile (· = 0)

/-- The one form of a 64-bit number. -/
def encodeWord (n : Nat) : List UInt8 :=
  if 0 < n ∧ n < 0x80 then [n.toUInt8]
  else (0x80 + (minimalBytes n).length).toUInt8 :: minimalBytes n

end ColumnSampling.Rlp

namespace ColumnSampling

/-- The fields of a discovery record, by their names. -/
abbrev NodeRecord := List (String × List UInt8)

def custodyCountKey : String := "cgc"

inductive RecordError where
  | missingField (key : String)
  | decode (key : String) (cause : Rlp.RlpError)
  | outOfRange (value max : Nat)
deriving DecidableEq, Repr

def RecordError.message : RecordError → String
  | .missingField key => s!"Node record has no `{key}` field"
  | .decode key cause => s!"Failed to decode `{key}` field: {cause.message}"
  | .outOfRange value max => s!"Custody group count {value} exceeds maximum {max}"

def NodeRecord.custodyCount (record : NodeRecord) (p : Parameters) : Except RecordError Nat :=
  match record.lookup custodyCountKey with
  | none => .error (.missingField custodyCountKey)
  | some bytes =>
    match Rlp.decodeWord bytes with
    | .error cause => .error (.decode custodyCountKey cause)
    | .ok value => if p.groups < value then .error (.outOfRange value p.groups) else .ok value

end ColumnSampling
