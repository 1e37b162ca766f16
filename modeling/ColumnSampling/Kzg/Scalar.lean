import ColumnSampling.Blob
import ColumnSampling.Bytes

/-!
# Field elements

Numbers below a modulus are added and multiplied modulo it. Powers are taken by squaring; in a field
of `n` elements the power `n - 2` of an element that is not zero is its inverse.

The scalar field of the curve consists of the numbers modulo a prime of 255 bits, each written as 32
bytes with the most significant first. A number that is not below the modulus is refused.
-/

namespace ColumnSampling.Modular

class Modulus (n : Nat) : Prop where
  pos : 0 < n

variable {n : Nat} [Modulus n]

def ofNat (k : Nat) : Fin n := ⟨k % n, Nat.mod_lt k Modulus.pos⟩

/-- The power of a number, by squaring. -/
def pow (a : Fin n) (k : Nat) : Fin n :=
  if k = 0 then ofNat 1
  else
    let square := pow (a * a) (k / 2)
    if k % 2 = 0 then square else a * square
termination_by k
decreasing_by omega

/-- The inverse of a number modulo a prime; that of zero is zero. -/
def inverse (a : Fin n) : Fin n := pow a (n - 2)

/-- The powers of a number, from the zeroth on. -/
def powers (a : Fin n) : (count : Nat) → (start : Fin n) → List (Fin n)
  | 0, _ => []
  | count + 1, start => start :: powers a count (start * a)

end ColumnSampling.Modular

namespace ColumnSampling

def scalarModulus : Nat := 0x73eda753299d7d483339d80809a1d80553bda402fffe5bfeffffffff00000001

instance : Modular.Modulus scalarModulus := ⟨by decide⟩

/-- An element of the scalar field. -/
abbrev Scalar := Fin scalarModulus

namespace Scalar

def ofBytes? (bytes : List UInt8) : Option Scalar :=
  let n := Endian.ofBig bytes
  if h : n < scalarModulus then some ⟨n, h⟩ else none

def toBytes (s : Scalar) : List UInt8 := Endian.big bytesPerFieldElement s.val

/-- Reads scalars up to the end of the bytes. Those read before come with the last one first. -/
def readAll : (count : Nat) → (bytes : List UInt8) → (done : List Scalar) → Option (List Scalar)
  | 0, _, done => some done.reverse
  | count + 1, bytes, done =>
    match ofBytes? (bytes.take bytesPerFieldElement) with
    | none => none
    | some s => readAll count (bytes.drop bytesPerFieldElement) (s :: done)

def listOfBytes? (bytes : ByteArray) : Option (List Scalar) :=
  readAll (bytes.size / bytesPerFieldElement) bytes.data.toList []

def bytesOfList (scalars : List Scalar) : ByteArray :=
  (scalars.flatMap toBytes).toByteArray

/-- A root of unity of order `2 ^ depth`: 7 generates all scalars but zero. -/
def rootOfUnity (depth : Nat) : Scalar :=
  Modular.pow (Modular.ofNat 7) ((scalarModulus - 1) / Nat.pow 2 depth)

end Scalar

end ColumnSampling
