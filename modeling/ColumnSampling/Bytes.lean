/-!
# Byte strings

Roots, commitments, proofs and signatures are byte strings whose length is part of what they are.
The length is carried as a proof, so a value of such a type never needs a size check.

A number is written with a fixed number of bytes, least significant byte first or last. Writing
drops what does not fit; reading a list of bytes back gives the number modulo `256 ^ width`.

In hexadecimal text two digits stand for one byte, the high half first. Digits are written in lower
case and read in either case. Reading counts in bytes of the text, so a character outside ASCII is
reported by its first byte, read as a Latin-1 code point.
-/

namespace ColumnSampling

/-- A byte string of exactly `n` bytes. -/
structure FixedBytes (n : Nat) where
  bytes : ByteArray
  size_eq : bytes.size = n

namespace FixedBytes

variable {n : Nat}

@[ext] theorem ext {x y : FixedBytes n} (h : x.bytes = y.bytes) : x = y := by
  cases x; cases y; cases h; rfl

instance : DecidableEq (FixedBytes n) := fun x y =>
  if h : x.bytes.data = y.bytes.data then isTrue (ext (ByteArray.ext h))
  else isFalse fun e => h (congrArg (·.bytes.data) e)

def toList (x : FixedBytes n) : List UInt8 := x.bytes.data.toList

@[simp] theorem length_toList (x : FixedBytes n) : x.toList.length = n := by
  simpa [toList] using x.size_eq

/-- Accepts exactly the byte strings of the right length. -/
def ofBytes? (bytes : ByteArray) : Option (FixedBytes n) :=
  if h : bytes.size = n then some ⟨bytes, h⟩ else none

def ofList (bytes : List UInt8) (h : bytes.length = n) : FixedBytes n :=
  ⟨⟨bytes.toArray⟩, by simpa [ByteArray.size] using h⟩

@[simp] theorem toList_ofList (bytes : List UInt8) (h : bytes.length = n) :
    (ofList bytes h).toList = bytes := by
  simp [toList, ofList]

@[simp] theorem ofList_toList (x : FixedBytes n) (h : x.toList.length = n) :
    ofList x.toList h = x := by
  apply ext
  simp [toList, ofList]

def replicate (n : Nat) (b : UInt8) : FixedBytes n :=
  ⟨⟨Array.replicate n b⟩, by simp [ByteArray.size]⟩

def zero (n : Nat) : FixedBytes n := replicate n 0

instance : Inhabited (FixedBytes n) := ⟨zero n⟩

end FixedBytes

/-- A node of a merkle tree: 32 bytes. -/
abbrev Root := FixedBytes 32

end ColumnSampling

namespace ColumnSampling.Endian

/-- The `width` least significant bytes of `n`, least significant first. -/
def little : (width n : Nat) → List UInt8
  | 0, _ => []
  | width + 1, n => n.toUInt8 :: little width (n / 256)

/-- The `width` least significant bytes of `n`, most significant first. -/
def big (width n : Nat) : List UInt8 := (little width n).reverse

/-- The number whose bytes, least significant first, are `bytes`. -/
def ofLittle : (bytes : List UInt8) → Nat
  | [] => 0
  | b :: bytes => b.toNat + 256 * ofLittle bytes

/-- The number whose bytes, most significant first, are `bytes`. -/
def ofBig (bytes : List UInt8) : Nat := bytes.foldl (fun n b => 256 * n + b.toNat) 0

@[simp] theorem length_little (width n : Nat) : (little width n).length = width := by
  induction width generalizing n with
  | zero => rfl
  | succ width ih => simp [little, ih]

@[simp] theorem length_big (width n : Nat) : (big width n).length = width := by
  simp [big]

/-- What does not fit into the width is lost. -/
theorem ofLittle_little (width n : Nat) : ofLittle (little width n) = n % Nat.pow 256 width := by
  induction width generalizing n with
  | zero => exact (Nat.mod_one n).symm
  | succ width ih =>
    have split : Nat.pow 256 (width + 1) = 256 * Nat.pow 256 width := Nat.pow_succ'
    rw [little, ofLittle, ih, split, Nat.mod_mul]
    rfl

theorem little_inj {width m n : Nat} (hm : m < Nat.pow 256 width) (hn : n < Nat.pow 256 width)
    (h : little width m = little width n) : m = n := by
  have same := congrArg ofLittle h
  rwa [ofLittle_little, ofLittle_little, Nat.mod_eq_of_lt hm, Nat.mod_eq_of_lt hn] at same

def littleWord (w : UInt64) : ByteArray := (little 8 w.toNat).toByteArray

end ColumnSampling.Endian

namespace ColumnSampling.Hex

/-- Why a text is no hexadecimal byte string. -/
inductive HexError where
  | oddLength
  | invalidCharacter (byte : UInt8) (position : Nat)
deriving Repr, DecidableEq

/-- The lower-case digit of a number below sixteen. -/
def digit (n : Nat) : Char :=
  if n < 10 then Char.ofNat (48 + n) else Char.ofNat (87 + n)

/-- The two digits of a byte, in front of `rest`. -/
def consByte (b : UInt8) (rest : List Char) : List Char :=
  digit (b.toNat / 16) :: digit (b.toNat % 16) :: rest

def encodeList (bytes : List UInt8) : List Char := bytes.foldr consByte []

def encode (bytes : ByteArray) : String := String.ofList (encodeList bytes.data.toList)

/-- The value of a digit in either case. -/
def value? (b : UInt8) : Option UInt8 :=
  if 48 ≤ b ∧ b ≤ 57 then some (b - 48)
  else if 97 ≤ b ∧ b ≤ 102 then some (b - 87)
  else if 65 ≤ b ∧ b ≤ 70 then some (b - 55)
  else none

/--
Reads pairs of digits. `position` is where the list starts in the whole text, and `done` holds the
bytes read before, the last one first.
-/
def decodePairs : (position : Nat) → (text : List UInt8) → (done : List UInt8) →
    Except HexError (List UInt8)
  | _, [], done => .ok done.reverse
  | _, [_], _ => .error .oddLength
  | position, a :: b :: rest, done =>
    match value? a, value? b with
    | none, _ => .error (.invalidCharacter a position)
    | _, none => .error (.invalidCharacter b (position + 1))
    | some high, some low => decodePairs (position + 2) rest ((high * 16 + low) :: done)

/-- Reads a text of digits. An odd number of bytes is reported before any invalid character. -/
def decodeList (text : List UInt8) : Except HexError (List UInt8) :=
  if text.length % 2 = 1 then .error .oddLength else decodePairs 0 text []

def decode (text : String) : Except HexError (List UInt8) :=
  decodeList text.toUTF8.data.toList

/-- The number in lower-case hexadecimal, without leading zeros. -/
def ofNat (n : Nat) : String := String.ofList (Nat.toDigits 16 n)

/--
A Latin-1 character between single quotes. What cannot be shown is escaped: the usual letters for
tab, line feed and carriage return, `\0` for zero, and the code point in braces for other controls,
the no-break space and the soft hyphen.
-/
def quoteLatin (b : UInt8) : String :=
  let shown :=
    if b = 0 then "\\0"
    else if b = 9 then "\\t"
    else if b = 10 then "\\n"
    else if b = 13 then "\\r"
    else if b = 39 then "\\'"
    else if b = 92 then "\\\\"
    else if b < 32 ∨ (127 ≤ b ∧ b ≤ 160) ∨ b = 173 then
      "\\u\x7b" ++ ofNat b.toNat ++ "\x7d"
    else String.singleton (Char.ofNat b.toNat)
  "'" ++ shown ++ "'"

def HexError.message : HexError → String
  | .oddLength => "Odd number of digits"
  | .invalidCharacter b position =>
    "Invalid character " ++ quoteLatin b ++ " at position " ++ toString position

end ColumnSampling.Hex
