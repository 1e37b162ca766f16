import ColumnSampling.Bytes
import ColumnSampling.Kzg.Scalar

/-!
# Curve points

The points of the curve `y ^ 2 = x ^ 3 + 4` over a field of 381 bits, and the group of prime order
in it. A point is written by its first coordinate alone, as 48 bytes whose three highest bits tell
that only one coordinate is written, whether the point is the neutral one, and which of the two
second coordinates is meant.
-/

namespace ColumnSampling

/-- The number of elements of the base field, a prime that leaves 3 when divided by 4. -/
def baseModulus : Nat :=
  0x1a0111ea397fe69a4b1ba7b6434bacd764774b84f38512bf6730d2a0f6b0f6241eabfffeb153ffffb9feffffffffaaab

instance : Modular.Modulus baseModulus := ⟨by decide⟩

abbrev Base := Fin baseModulus

/-- A point `(x / z, y / z)`, or the neutral one if `z` is zero. -/
structure CurvePoint where
  x : Base
  y : Base
  z : Base
deriving DecidableEq

namespace CurvePoint

def zero : CurvePoint := ⟨Modular.ofNat 0, Modular.ofNat 1, Modular.ofNat 0⟩

def isZero (p : CurvePoint) : Bool := p.z.val = 0

def generator : CurvePoint :=
  { x := Modular.ofNat
      0x17f1d3a73197d7942695638c4fa9ac0fc3688c4f9774b905a14e3a3f171bac586c55e83ff97a1aeffb3af00adb22c6bb
    y := Modular.ofNat
      0x08b3f481e3aaa0f1a09e30ed741d8ae4fcf5e095d5d00af600db18cb2c04b3edd03cc744a2888ae40caa232946c5e7e1
    z := Modular.ofNat 1 }

/-- The sum of two points. The number of points is odd, so one formula serves all cases. -/
def add (p q : CurvePoint) : CurvePoint :=
  let xx := p.x * q.x
  let yy := p.y * q.y
  let times (k : Nat) (a : Base) : Base := Modular.ofNat k * a
  let zz := times 12 (p.z * q.z)
  let xy := p.x * q.y + q.x * p.y
  let yz := p.y * q.z + q.y * p.z
  let xz := p.x * q.z + q.x * p.z
  { x := xy * (yy - zz) - times 12 (yz * xz)
    y := (yy + zz) * (yy - zz) + times 36 (xx * xz)
    z := yz * (yy + zz) + times 3 (xx * xy) }

def multiple (p : CurvePoint) (k : Nat) : CurvePoint :=
  if k = 0 then zero
  else
    let half := multiple (p.add p) (k / 2)
    if k % 2 = 0 then half else half.add p
termination_by k
decreasing_by omega

/-- Whether a second coordinate is the larger one of its pair. -/
def isLarger (y : Base) : Bool := baseModulus < 2 * y.val

def toBytes (p : CurvePoint) : List UInt8 :=
  if p.isZero then 0xc0 :: List.replicate 47 0
  else
    let scale := Modular.inverse p.z
    let flags := if isLarger (p.y * scale) then 0xa0 else 0x80
    match Endian.big 48 (p.x * scale).val with
    | first :: rest => (first + flags) :: rest
    | [] => []

@[simp] theorem length_toBytes (p : CurvePoint) : p.toBytes.length = 48 := by
  unfold toBytes
  split
  · simp
  · dsimp only
    split
    · rename_i first rest h
      have := Endian.length_big 48 (p.x * Modular.inverse p.z).val
      simpa [h] using this
    · rename_i h
      have := Endian.length_big 48 (p.x * Modular.inverse p.z).val
      simp [h] at this

def ofFirst? (x : Base) (larger : Bool) : Option CurvePoint :=
  let square := x * x * x + Modular.ofNat 4
  let y := Modular.pow square ((baseModulus + 1) / 4)
  if y * y ≠ square then none
  else some ⟨x, if isLarger y = larger then y else -y, Modular.ofNat 1⟩

/-- Whether a point is in the group of prime order. -/
def inGroup (p : CurvePoint) : Bool := (p.multiple scalarModulus).isZero

def ofBytes? (bytes : List UInt8) : Option CurvePoint :=
  match bytes with
  | [] => none
  | first :: rest =>
    if first < 0x80 then none
    else if 0xc0 ≤ first then
      if first = 0xc0 ∧ rest.all (· = 0) then some zero else none
    else
      let n := Endian.ofBig (first % 0x20 :: rest)
      if h : n < baseModulus then
        match ofFirst? ⟨n, h⟩ (0xa0 ≤ first) with
        | none => none
        | some p => if p.inGroup then some p else none
      else none

end CurvePoint

end ColumnSampling
