import ColumnSampling.Kzg.Scalar

/-!
# Extension and recovery

A list of `2 ^ depth` coefficients is turned into the values of the polynomial at the powers of a
root of unity, and back. Values at even powers come from the even half of the coefficients and those
at odd powers from the odd half, so both the transform and the reversal of index bits split the list
into the items at even and at odd places.

The field elements of a blob are the values of a polynomial at the roots of unity of order 4096,
those of the extended blob its values at the roots of order 8192, both in the order of reversed
bits. A cell holds 64 of them. Half of the cells determine the polynomial: its values with zeros at
the missing cells are those of its product with the polynomial that vanishes there, and away from
the roots of unity that product can be divided.
-/

namespace ColumnSampling.Transform

/-- The items at even places and those at odd places. -/
def split {α : Type} : (items : List α) → List α × List α
  | [] => ([], [])
  | [a] => ([a], [])
  | a :: b :: rest =>
    let (evens, odds) := split rest
    (a :: evens, b :: odds)

/-- Reorders `2 ^ depth` items by the reversed bits of their places. -/
def reverseBits {α : Type} : (depth : Nat) → (items : List α) → List α
  | 0, items => items
  | depth + 1, items =>
    let (evens, odds) := split items
    reverseBits depth evens ++ reverseBits depth odds

variable {n : Nat} [Modular.Modulus n]

/-- The values of a polynomial at the powers of `root`, whose order is `2 ^ depth`. -/
def values : (depth : Nat) → (root : Fin n) → (coefficients : List (Fin n)) → List (Fin n)
  | 0, _, coefficients => coefficients
  | depth + 1, root, coefficients =>
    let (evens, odds) := split coefficients
    let low := values depth (root * root) evens
    let high := (values depth (root * root) odds).zipWith (· * ·)
      (Modular.powers root (Nat.pow 2 depth) (Modular.ofNat 1))
    low.zipWith (· + ·) high ++ low.zipWith (· - ·) high

def coefficients (depth : Nat) (root : Fin n) (given : List (Fin n)) : List (Fin n) :=
  let scale := Modular.inverse (Modular.ofNat (Nat.pow 2 depth) : Fin n)
  (values depth (Modular.inverse root) given).map (· * scale)

/-- The coefficients of the polynomial in `x * shift`. -/
def shifted (shift : Fin n) (coefficients : List (Fin n)) : List (Fin n) :=
  coefficients.zipWith (· * ·) (Modular.powers shift coefficients.length (Modular.ofNat 1))

end ColumnSampling.Transform

namespace ColumnSampling.Extension

/-- The roots of unity of a blob have order `2 ^ 12`. -/
def blobDepth : Nat := 12

/-- The roots of unity of an extended blob have order `2 ^ 13`. -/
def extendedDepth : Nat := 13

def cellDepth : Nat := 7

/-- The coefficients of the polynomial of a blob, from the highest of which half are zero. -/
def polynomial (blob : List Scalar) : List Scalar :=
  Transform.coefficients blobDepth (Scalar.rootOfUnity blobDepth)
    (Transform.reverseBits blobDepth blob)

/-- The values of a polynomial of degree below 8192, in the order of the extended blob. -/
def evaluate (coefficients : List Scalar) : List Scalar :=
  Transform.reverseBits extendedDepth
    (Transform.values extendedDepth (Scalar.rootOfUnity extendedDepth) coefficients)

/-- The field elements of the extended blob. -/
def extend (blob : List Scalar) : List Scalar :=
  evaluate (polynomial blob ++ List.replicate fieldElementsPerBlob (Modular.ofNat 0))

def cut : (count : Nat) → (scalars : List Scalar) → List (List Scalar)
  | 0, _ => []
  | count + 1, scalars =>
    scalars.take fieldElementsPerCell :: cut count (scalars.drop fieldElementsPerCell)

/--
The values of the polynomial that vanishes on the missing cells, at `shift` times each root of unity
in natural order. It is a polynomial in `x ^ 64`, so its values repeat after 128 of them.
-/
def vanishing (missing : List Nat) (shift : Scalar) : List Scalar :=
  let root := Scalar.rootOfUnity cellDepth
  let reversed := Transform.reverseBits cellDepth
    (Modular.powers root cellsPerExtendedBlob (Modular.ofNat 1))
  let zeros := missing.filterMap (reversed[·]?)
  let start := Modular.pow shift fieldElementsPerCell
  (Modular.powers root cellsPerExtendedBlob start).map fun x =>
    zeros.foldl (fun product zero => product * (x - zero)) (Modular.ofNat 1)

/-- As many rounds of the items as there are field elements in a cell. -/
def rounds (items : List Scalar) : List Scalar :=
  (List.replicate fieldElementsPerCell items).flatten

/-- The place away from the roots of unity where polynomials are divided. -/
def shift : Scalar := Modular.ofNat 7

/-- All field elements of an extended blob from those of the cells that are there, by their
places. -/
def recover (present : List (Nat × List Scalar)) : List Scalar :=
  let root := Scalar.rootOfUnity extendedDepth
  let places := List.range cellsPerExtendedBlob
  let missing := places.filter fun place => (present.lookup place).isNone
  let known := places.flatMap fun place =>
    (present.lookup place).getD (List.replicate fieldElementsPerCell (Modular.ofNat 0))
  let product := Transform.coefficients extendedDepth root
    ((Transform.reverseBits extendedDepth known).zipWith (· * ·)
      (rounds (vanishing missing (Modular.ofNat 1))))
  let divisors := rounds ((vanishing missing shift).map Modular.inverse)
  let quotient := (Transform.values extendedDepth root (Transform.shifted shift product)).zipWith
    (· * ·) divisors
  evaluate (Transform.shifted (Modular.inverse shift)
    (Transform.coefficients extendedDepth root quotient))

end ColumnSampling.Extension
