import ColumnSampling.Json.Scalar

/-!
# Where the reading of a byte stops

A root is read from an array of its bytes also if one more item follows that is no byte. That item
is passed over, but only as far as the reading of a byte got in it: at the first fault the reading
stops, and the array has to end there. The item may thus be a well-formed value of another kind, and
it may be no value at all.
-/

namespace ColumnSampling.Json

/-- Passes this many bytes, if they are whole characters. -/
def passBytes : (n : Nat) → (cs : List Char) → Option (List Char)
  | 0, cs => some cs
  | _ + 1, [] => none
  | n + 1, c :: rest =>
    if c.utf8Size ≤ n + 1 then passBytes (n + 1 - c.utf8Size) rest else none

/-- Stops behind a word, or behind the first byte that is not of the word. -/
def stopInWord : (word cs : List Char) → Option (List Char)
  | [], cs => some cs
  | _ :: _, [] => none
  | letter :: word, c :: rest =>
    if c = letter then stopInWord word rest else passBytes 1 (c :: rest)

/--
Stops behind the digits of an exponent. If large exponents are faults, it stops behind the digit
with which the exponent leaves the range of 32 bits with a sign.
-/
def stopInPower (isBounded : Bool) : (power : Nat) → (cs : List Char) → List Char
  | _, [] => []
  | power, c :: rest =>
    if c.isDigit then
      let power := 10 * power + (c.toNat - 48)
      if isBounded && Nat.pow 2 31 ≤ power then rest else stopInPower isBounded power rest
    else c :: rest

/-- Stops behind an exponent, if there is one. One that is too large is no fault of zero. -/
def stopInExponent (isZero : Bool) (cs : List Char) : Option (List Char) :=
  let stop (isBounded : Bool) (cs : List Char) : Option (List Char) :=
    match spanDigits cs with
    | ([], _) => passBytes 1 cs
    | _ => some (stopInPower isBounded 0 cs)
  match cs with
  | [] => some []
  | e :: rest =>
    if e = 'e' || e = 'E' then
      match rest with
      | '+' :: rest => stop (!isZero) rest
      | '-' :: rest => stop false rest
      | rest => stop (!isZero) rest
    else some (e :: rest)

def stopInNumber (cs : List Char) : Option (List Char) :=
  let (whole, rest) := spanDigits cs
  match whole, rest with
  | [], _ => passBytes 1 cs
  | '0' :: second :: digits, rest => some (second :: digits ++ rest)
  | whole, '.' :: rest =>
    match spanDigits rest with
    | ([], rest) => some rest
    | (fraction, rest) => stopInExponent ((whole ++ fraction).all (· = '0')) rest
  | whole, rest => stopInExponent (whole.all (· = '0')) rest

/-- Stops in a string whose opening quote has been passed. Surrogates have to be in pairs. -/
def stopInString : (cs : List Char) → Option (List Char)
  | [] => none
  | '"' :: rest => some rest
  | '\\' :: 'u' :: a :: b :: c :: d :: rest =>
    match hexFour? a b c d with
    | none => passBytes 4 (a :: b :: c :: d :: rest)
    | some n =>
      if isLowSurrogate n then some rest
      else if isHighSurrogate n then
        match rest with
        | '\\' :: 'u' :: a :: b :: c :: d :: rest =>
          match hexFour? a b c d with
          | none => passBytes 4 (a :: b :: c :: d :: rest)
          | some n => if isLowSurrogate n then stopInString rest else some rest
        | '\\' :: 'u' :: _ => none
        | '\\' :: rest => passBytes 1 rest
        | rest => passBytes 1 rest
      else stopInString rest
  | '\\' :: 'u' :: _ => none
  | '\\' :: c :: rest =>
    if (unescape? c).isSome then stopInString rest else passBytes 1 (c :: rest)
  | c :: rest => if c.toNat < 32 then some rest else stopInString rest

/-- Stops where something that should be a byte turns out to be none; it is no byte. -/
def stopOfByte (cs : List Char) : Option (List Char) :=
  match cs with
  | 'n' :: rest => stopInWord ['u', 'l', 'l'] rest
  | 't' :: rest => stopInWord ['r', 'u', 'e'] rest
  | 'f' :: rest => stopInWord ['a', 'l', 's', 'e'] rest
  | '"' :: rest => stopInString rest
  | '-' :: rest => stopInNumber rest
  | c :: rest => if c.isDigit then stopInNumber (c :: rest) else some (c :: rest)
  | [] => none

/-- Whether the one unpaired surrogate of a string is the first half of a pair, and its end. -/
def endsUnpaired : (bytes : List UInt8) → Bool
  | [] => false
  | [0xed, second, _] => 0xa0 ≤ second && second < 0xb0
  | 0xed :: second :: rest => second < 0xa0 && endsUnpaired rest
  | _ :: rest => endsUnpaired rest

/-- Whether the reading of a byte stops behind a value, and the value is no byte. -/
def isPassable : Json → Bool
  | .null => true
  | .bool _ => true
  | .integer n => 256 ≤ n
  | .number text => stopOfByte text.toList = some []
  | .string (.plain _) => true
  | .string (.raw bytes control) => !control && endsUnpaired bytes
  | .malformed => true
  | .array _ => false
  | .object _ => false

end ColumnSampling.Json
