/-!
# Decimals of doubles

Every real between the midpoints to its two neighbours reads back as the same double. The decimal
that is written is found in that window, with numbers of 64 bits: the window is multiplied by a
power of ten and drawn in by one unit at either end, the digits of its upper end are taken until the
rest of them is not needed to stay in the window, and the last one is lowered while that brings the
decimal closer to the number. The decimal reads back; mostly, not always, it is the shortest that
does.

Numbers of a usual size are written with a point and at least one digit after it, very large and
very small ones with an exponent that has a sign only if it is negative.
-/

namespace ColumnSampling.Decimal

/-- The positive number `significand * 2 ^ exponent`. -/
structure Binary where
  significand : Nat
  exponent : Int
deriving DecidableEq, Repr

namespace Binary

/-- The bits of a double that is positive and finite. -/
def ofBits (bits : UInt64) : Binary :=
  let fraction : Nat := bits.toNat % Nat.pow 2 52
  let scale : Nat := bits.toNat / Nat.pow 2 52 % Nat.pow 2 11
  if scale = 0 then ⟨fraction, -1074⟩ else ⟨Nat.pow 2 52 + fraction, (scale : Int) - 1075⟩

/-- The midpoint of a double and the next one below, which is half as far where the exponent
changes. -/
def lowerEnd (b : Binary) : Binary :=
  if b.significand = Nat.pow 2 52 then ⟨4 * b.significand - 1, b.exponent - 2⟩
  else ⟨2 * b.significand - 1, b.exponent - 1⟩

def upperEnd (b : Binary) : Binary := ⟨2 * b.significand + 1, b.exponent - 1⟩

/-- The same number with a significand of 64 bits, if it has no more. -/
def normalize (b : Binary) : Binary :=
  let shift := 63 - b.significand.log2
  ⟨b.significand * Nat.pow 2 shift, b.exponent - shift⟩

/-- The product, with the lower 64 bits of the significand rounded off; a half is rounded up. -/
def mul (a b : Binary) : Binary :=
  ⟨(a.significand * b.significand + Nat.pow 2 63) / Nat.pow 2 64, a.exponent + b.exponent + 64⟩

/-- A power of ten, rounded to 64 bits; a half is rounded up. -/
def tenPower (n : Int) : Binary :=
  let num := Nat.pow 10 n.toNat
  let den := Nat.pow 10 (-n).toNat
  let exponent : Int := num.log2 - den.log2 - (if den = 1 then 63 else 64)
  let unit := den * Nat.pow 2 exponent.toNat
  ⟨(2 * num * Nat.pow 2 (-exponent).toNat + unit) / (2 * unit), exponent⟩

end Binary

/-- The number `digits * 10 ^ exponent`. -/
structure Scaled where
  digits : Nat
  exponent : Int
deriving DecidableEq, Repr

/--
The power of ten that leaves a number of 64 bits and this exponent with a whole part of at most ten
digits. Every eighth power is in use.
-/
def scale (exponent : Int) : Int :=
  (3 - (exponent + 61) * 30103 / 100000) / 8 * 8 + 4

/-- A number and the reals around it that stand for it, in parts of one. -/
structure Window where
  /-- The parts that make one. -/
  one : Nat
  /-- The upper end. -/
  top : Nat
  /-- How far the lower end is below the upper one. -/
  width : Nat
  /-- How far the number is below the upper end. -/
  depth : Nat
deriving DecidableEq, Repr

namespace Window

def ofBinary (b : Binary) (power : Int) : Window :=
  let factor := Binary.tenPower power
  let upper := b.upperEnd.normalize
  let lower := b.lowerEnd
  let aligned : Binary :=
    ⟨lower.significand * Nat.pow 2 (lower.exponent - upper.exponent).toNat, upper.exponent⟩
  let top := (upper.mul factor).significand - 1
  let bottom := (aligned.mul factor).significand + 1
  { one := Nat.pow 2 (-(upper.mul factor).exponent).toNat
    top := top
    width := top - bottom
    depth := top - (b.normalize.mul factor).significand }

/--
Lowers the last digit, which is worth `step`, while that brings the decimal closer to the number and
keeps it in the window. The decimal is `below` the upper end. The window has less than ten steps.
-/
def lower (width depth step : Nat) : (fuel : Nat) → (digits below : Nat) → Nat
  | 0, digits, _ => digits
  | fuel + 1, digits, below =>
    if below < depth ∧ below + step ≤ width ∧
        (below + step < depth ∨ below + step - depth < depth - below) then
      lower width depth step fuel (digits - 1) (below + step)
    else digits

/-- The decimal with this many digits of the whole part dropped, if that leaves it in the window. -/
def dropping (w : Window) (places : Nat) : Option Scaled :=
  let step := Nat.pow 10 places * w.one
  let below := w.top % step
  if below ≤ w.width then
    some ⟨lower w.width w.depth step 10 (w.top / step) below, places⟩
  else none

/--
The decimal with this many digits after the point, if it is in the window. From the ninth digit on
the place of the number is not known, and the digits of the upper end are kept.
-/
def keeping (w : Window) (places : Nat) : Option Scaled :=
  let power := Nat.pow 10 places
  let below := w.top * power % w.one
  let width := w.width * power
  let depth := if places < 9 then w.depth * power else 0
  if below < width then
    some ⟨lower width depth w.one 10 (w.top * power / w.one) below, -places⟩
  else none

/-- The decimal of a window: with the fewest digits of the upper end. -/
def decimal (w : Window) : Option Scaled :=
  let whole := (Nat.toDigits 10 (w.top / w.one)).length
  ((List.range whole).reverse.findSome? w.dropping).or
    ((List.range 20).findSome? fun n => w.keeping (n + 1))

end Window

def ofBinary (b : Binary) : Scaled :=
  let power := scale b.upperEnd.normalize.exponent
  match (Window.ofBinary b power).decimal with
  | some d => ⟨d.digits, d.exponent - power⟩
  | none => ⟨0, 0⟩

/-- Between which sizes a number is written without an exponent. -/
structure Layout where
  /-- The most digits before the point. -/
  mostWhole : Int := 21
  /-- The most zeros between the point and the first digit. -/
  mostZeros : Int := 5
deriving DecidableEq, Repr

def Layout.render (layout : Layout) (d : Scaled) : String :=
  let digits := Nat.toDigits 10 d.digits
  let whole : Int := digits.length + d.exponent
  let zeros (n : Int) : List Char := List.replicate n.toNat '0'
  String.ofList <|
    if 0 ≤ d.exponent ∧ whole ≤ layout.mostWhole then digits ++ zeros d.exponent ++ ['.', '0']
    else if 0 < whole ∧ whole ≤ layout.mostWhole then
      digits.take whole.toNat ++ '.' :: digits.drop whole.toNat
    else if -layout.mostZeros ≤ whole ∧ whole ≤ 0 then '0' :: '.' :: zeros (-whole) ++ digits
    else
      let power := 'e' :: (toString (whole - 1)).toList
      match digits with
      | first :: second :: rest => first :: '.' :: second :: rest ++ power
      | digits => digits ++ power

def Layout.float (layout : Layout) (x : Float) : String :=
  let sign := if x.toBits.toNat < Nat.pow 2 63 then "" else "-"
  if x.isNaN then "NaN"
  else if x.isInf then sign ++ "inf"
  else if x == 0 then sign ++ "0.0"
  else sign ++ layout.render (ofBinary (.ofBits x.toBits))

end ColumnSampling.Decimal
