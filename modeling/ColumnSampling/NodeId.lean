import ColumnSampling.Bytes

/-!
# Node identities

A node id is a 256-bit number, kept as 32 bytes with the most significant first. Custody sampling
walks node ids as a counter that wraps around, and hashes their little-endian form.
-/

namespace ColumnSampling

/-- The identity of a node in the discovery network. -/
structure NodeId where
  raw : FixedBytes 32
deriving DecidableEq, Inhabited

inductive NodeIdError where
  | hex (cause : Hex.HexError)
  | length (bytes : Nat)
deriving Repr, DecidableEq

def NodeIdError.message : NodeIdError → String
  | .hex cause => "invalid hex: " ++ cause.message
  | .length bytes => "node id must be 32 bytes, got " ++ toString bytes

namespace NodeId

/-- The bytes, most significant first. -/
def toList (id : NodeId) : List UInt8 := id.raw.toList

@[simp] theorem length_toList (id : NodeId) : id.toList.length = 32 := by simp [toList]

/-- The number that the id stands for. -/
def toNat (id : NodeId) : Nat := Endian.ofBig id.toList

/-- The bytes, least significant first, as the custody hash takes them. -/
def littleEndian (id : NodeId) : ByteArray := ⟨id.toList.reverse.toArray⟩

/-- Adds one to a number whose bytes, least significant first, are given; a carry out is lost. -/
def increment : List UInt8 → List UInt8
  | [] => []
  | b :: rest => if b = 255 then 0 :: increment rest else (b + 1) :: rest

@[simp] theorem length_increment (bytes : List UInt8) :
    (increment bytes).length = bytes.length := by
  induction bytes with
  | nil => rfl
  | cons b rest ih => by_cases h : b = 255 <;> simp [increment, h, ih]

/-- The next id; after the greatest comes zero. -/
def next (id : NodeId) : NodeId :=
  ⟨.ofList (increment id.toList.reverse).reverse (by simp)⟩

/-- Ids are compared from the most significant byte on. -/
instance : Ord NodeId := ⟨fun a b => compare a.toList b.toList⟩

/-- The written form: lower-case digits after a mark. -/
def toText (id : NodeId) : String := "0x" ++ Hex.encode id.raw.bytes

def dropMark (text : List UInt8) : List UInt8 :=
  match text with
  | 48 :: 120 :: digits => digits
  | digits => digits

/-- Reads the bytes of a text: 64 digits of either case, with or without the lower-case mark. -/
def ofTextBytes (text : List UInt8) : Except NodeIdError NodeId :=
  match Hex.decodeList (dropMark text) with
  | .error cause => .error (.hex cause)
  | .ok bytes =>
    if h : bytes.length = 32 then .ok ⟨.ofList bytes h⟩ else .error (.length bytes.length)

def ofText (text : String) : Except NodeIdError NodeId := ofTextBytes text.toUTF8.data.toList

end NodeId

end ColumnSampling
