import ColumnSampling.Json.Value

/-!
# Numbers and strings of JSON

A number without a sign, a fraction and an exponent is an integer; any other is kept as its text.

A string is read in two steps: first into units, where an escaped code unit stands beside a plain
character, and then into code points, where two units that form a surrogate pair are joined.
-/

namespace ColumnSampling.Json

def spanDigits (cs : List Char) : List Char × List Char := cs.span Char.isDigit

/-- Reads the digits of a fraction, if there is a point. -/
def readFraction (cs : List Char) : Option (List Char × List Char) :=
  match cs with
  | '.' :: rest =>
    match spanDigits rest with
    | ([], _) => none
    | (digits, rest) => some ('.' :: digits, rest)
  | rest => some ([], rest)

/-- Reads an exponent, if there is one. -/
def readExponent (cs : List Char) : Option (List Char × List Char) :=
  let digitsAfter (mark rest : List Char) : Option (List Char × List Char) :=
    match spanDigits rest with
    | ([], _) => none
    | (digits, rest) => some (mark ++ digits, rest)
  match cs with
  | e :: rest =>
    if e = 'e' || e = 'E' then
      match rest with
      | '+' :: rest => digitsAfter [e, '+'] rest
      | '-' :: rest => digitsAfter [e, '-'] rest
      | rest => digitsAfter [e] rest
    else some ([], e :: rest)
  | [] => some ([], [])

/-- Whether digits are a whole part: there is one, and no zero leads others. -/
def isWholePart (digits : List Char) : Bool :=
  match digits with
  | [] => false
  | '0' :: _ :: _ => false
  | _ => true

def readNumber (cs : List Char) : Option (Json × List Char) :=
  let (sign, afterSign) := match cs with
    | '-' :: rest => (['-'], rest)
    | rest => ([], rest)
  let (whole, afterWhole) := spanDigits afterSign
  if !isWholePart whole then none
  else match readFraction afterWhole with
    | none => none
    | some (fraction, afterFraction) =>
      match readExponent afterFraction with
      | none => none
      | some (exponent, rest) =>
        if sign.isEmpty && fraction.isEmpty && exponent.isEmpty then
          some (.integer (Nat.ofDigitChars 10 whole 0), rest)
        else some (.number (String.ofList (sign ++ whole ++ fraction ++ exponent)), rest)

/-- A unit of a string: a character, or a 16-bit code unit that was escaped. -/
inductive StringUnit where
  | char (c : Char)
  | code (n : Nat)
deriving DecidableEq

def hexValue? (c : Char) : Option Nat :=
  if '0' ≤ c ∧ c ≤ '9' then some (c.toNat - 48)
  else if 'a' ≤ c ∧ c ≤ 'f' then some (c.toNat - 87)
  else if 'A' ≤ c ∧ c ≤ 'F' then some (c.toNat - 55)
  else none

def hexFour? (a b c d : Char) : Option Nat := do
  return 4096 * (← hexValue? a) + 256 * (← hexValue? b) + 16 * (← hexValue? c) + (← hexValue? d)

def unescape? (c : Char) : Option Nat :=
  match c with
  | '"' => some 0x22
  | '\\' => some 0x5c
  | '/' => some 0x2f
  | 'b' => some 0x08
  | 'f' => some 0x0c
  | 'n' => some 0x0a
  | 'r' => some 0x0d
  | 't' => some 0x09
  | _ => none

/-- Reads the units up to the closing quote. The units read before come with the last one first. -/
def stringUnits : (cs : List Char) → (done : List StringUnit) →
    Option (List StringUnit × List Char)
  | [], _ => none
  | '"' :: rest, done => some (done.reverse, rest)
  | '\\' :: 'u' :: a :: b :: c :: d :: rest, done =>
    match hexFour? a b c d with
    | none => none
    | some n => stringUnits rest (.code n :: done)
  | '\\' :: c :: rest, done =>
    match unescape? c with
    | none => none
    | some n => stringUnits rest (.code n :: done)
  | c :: rest, done => stringUnits rest (.char c :: done)

def isHighSurrogate (n : Nat) : Bool := 0xd800 ≤ n && n < 0xdc00

/-- Whether a code unit is the second half of a surrogate pair. -/
def isLowSurrogate (n : Nat) : Bool := 0xdc00 ≤ n && n < 0xe000

/-- The code points of a list of units. Those found before come with the last one first. -/
def codePoints : (units : List StringUnit) → (done : List Nat) → List Nat
  | [], done => done.reverse
  | .char c :: rest, done => codePoints rest (c.toNat :: done)
  | .code high :: .code low :: rest, done =>
    if isHighSurrogate high && isLowSurrogate low then
      codePoints rest ((0x10000 + 1024 * (high - 0xd800) + (low - 0xdc00)) :: done)
    else codePoints (.code low :: rest) (high :: done)
  | .code n :: rest, done => codePoints rest (n :: done)

def isBareControl : StringUnit → Bool
  | .char c => c.toNat < 32
  | .code _ => false

/-- The bytes of a code point. An unpaired surrogate takes three bytes, as if it were a
character. -/
def codePointBytes (n : Nat) : List UInt8 :=
  if n < 0x80 then [n.toUInt8]
  else if n < 0x800 then [(0xc0 + n / 64).toUInt8, (0x80 + n % 64).toUInt8]
  else if n < 0x10000 then
    [(0xe0 + n / 4096).toUInt8, (0x80 + n / 64 % 64).toUInt8, (0x80 + n % 64).toUInt8]
  else [(0xf0 + n / 262144).toUInt8, (0x80 + n / 4096 % 64).toUInt8, (0x80 + n / 64 % 64).toUInt8,
    (0x80 + n % 64).toUInt8]

/-- The string that a list of units stands for. -/
def textOfUnits (units : List StringUnit) : JsonText :=
  let points := codePoints units []
  let control := units.any isBareControl
  if control || points.any (fun n => isHighSurrogate n || isLowSurrogate n) then
    .raw (points.flatMap codePointBytes) control
  else .plain (String.ofList (points.map Char.ofNat))

def readString (cs : List Char) : Option (JsonText × List Char) :=
  match stringUnits cs [] with
  | none => none
  | some (units, rest) => some (textOfUnits units, rest)

end ColumnSampling.Json
