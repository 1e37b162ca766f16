import ColumnSampling.Json.Parser
import ColumnSampling.Toml.Value

/-!
# Numbers and times of TOML

A token is a run of letters, digits and signs. It is an integer, a number with a fraction or an
exponent, a truth value, or a date, a time of day or both. Digits may be grouped by single
underscores between them.
-/

namespace ColumnSampling.Toml

def isTokenChar (c : Char) : Bool :=
  c.isAlphanum || c = '+' || c = '-' || c = '_' || c = '.' || c = ':'

/-- Digits without the underscores between them. -/
def ungroup (isDigit : Char → Bool) : (cs : List Char) → Option (List Char)
  | [] => none
  | [c] => if isDigit c then some [c] else none
  | c :: '_' :: rest => if isDigit c then (ungroup isDigit rest).map (c :: ·) else none
  | c :: rest => if isDigit c then (ungroup isDigit rest).map (c :: ·) else none

/-- The digits of a whole number, of which none but a single one is a leading zero. -/
def wholeDigits? (cs : List Char) : Option (List Char) :=
  match ungroup Char.isDigit cs with
  | some ('0' :: _ :: _) => none
  | digits => digits

def splitSign : (cs : List Char) → Bool × List Char
  | '+' :: rest => (false, rest)
  | '-' :: rest => (true, rest)
  | rest => (false, rest)

/-- A number in a base, with digits of either case. -/
def based? (base : Nat) (cs : List Char) : Option Int :=
  let isDigit (c : Char) : Bool := (Json.hexValue? c).any (· < base)
  match ungroup isDigit cs with
  | none => none
  | some digits =>
    let n : Nat := digits.foldl (fun n c => base * n + (Json.hexValue? c).getD 0) 0
    if inRange n then some n else none

def integer? : (token : List Char) → Option Int
  | '0' :: 'x' :: rest => based? 16 rest
  | '0' :: 'o' :: rest => based? 8 rest
  | '0' :: 'b' :: rest => based? 2 rest
  | token =>
    let (negative, rest) := splitSign token
    match wholeDigits? rest with
    | none => none
    | some digits =>
      let n : Int := Nat.ofDigitChars 10 digits 0
      let n := if negative then -n else n
      if inRange n then some n else none

/--
Whether `digits * 10 ^ exponent` is too large for a double: it is at least the midpoint between the
largest one and the next power of two. The number of digits decides unless there are 309.
-/
def overflows (digits : Nat) (exponent : Int) : Bool :=
  let size : Int := (Nat.toDigits 10 digits).length + exponent
  let limit := Nat.pow 2 1024 - Nat.pow 2 970
  digits ≠ 0 &&
    (309 < size || (size = 309 && limit * Nat.pow 10 (-exponent).toNat ≤
      digits * Nat.pow 10 exponent.toNat))

def exponent? (cs : List Char) : Option Int :=
  let (negative, rest) := splitSign cs
  (ungroup Char.isDigit rest).map fun digits =>
    let n : Int := Nat.ofDigitChars 10 digits 0
    if negative then -n else n

/-- Whether a token is a number with a fraction or an exponent. One too large is none. -/
def isFloat (token : List Char) : Bool :=
  let (negative, rest) := splitSign token
  let isMark (c : Char) : Bool := c = 'e' || c = 'E'
  let (number, power) := rest.span (!isMark ·)
  let (whole, fraction) := number.span (· ≠ '.')
  let fractionDigits : Option (List Char) :=
    match fraction with
    | '.' :: rest => ungroup Char.isDigit rest
    | _ => some []
  let exponent : Option Int :=
    match power with
    | _ :: rest => exponent? rest
    | [] => some 0
  match wholeDigits? whole, fractionDigits, exponent with
  | some whole, some fraction, some exponent =>
    (!fraction.isEmpty || !power.isEmpty) &&
      (negative || !overflows (Nat.ofDigitChars 10 (whole ++ fraction) 0)
        (exponent - fraction.length))
  | _, _, _ => rest = ['i', 'n', 'f'] || rest = ['n', 'a', 'n']

def two? (a b : Char) : Option Nat :=
  if a.isDigit && b.isDigit then some (10 * (a.toNat - 48) + (b.toNat - 48)) else none

def daysIn (year month : Nat) : Nat :=
  if month = 2 then
    if year % 4 = 0 ∧ (year % 100 ≠ 0 ∨ year % 400 = 0) then 29 else 28
  else if month = 4 ∨ month = 6 ∨ month = 9 ∨ month = 11 then 30
  else 31

def afterDate? : (cs : List Char) → Option (List Char)
  | a :: b :: c :: d :: '-' :: e :: f :: '-' :: g :: h :: rest =>
    match two? a b, two? c d, two? e f, two? g h with
    | some century, some year, some month, some day =>
      if 1 ≤ month ∧ month ≤ 12 ∧ 1 ≤ day ∧ day ≤ daysIn (100 * century + year) month then some rest
      else none
    | _, _, _, _ => none
  | _ => none

def afterMinute? : (cs : List Char) → Option (List Char)
  | a :: b :: ':' :: c :: d :: rest =>
    match two? a b, two? c d with
    | some hour, some minute => if hour ≤ 23 ∧ minute ≤ 59 then some rest else none
    | _, _ => none
  | _ => none

/-- What follows a time of day at the front. The sixtieth second is a leap second. -/
def afterTime? (cs : List Char) : Option (List Char) :=
  match afterMinute? cs with
  | some (':' :: a :: b :: rest) =>
    match two? a b with
    | some second =>
      if 60 < second then none
      else match rest with
        | '.' :: c :: rest => if c.isDigit then some (rest.dropWhile Char.isDigit) else none
        | rest => some rest
    | none => none
  | _ => none

/-- Whether the whole is a difference to universal time. -/
def isOffset : (cs : List Char) → Bool
  | ['Z'] => true
  | ['z'] => true
  | '+' :: rest => afterMinute? rest = some []
  | '-' :: rest => afterMinute? rest = some []
  | _ => false

/-- Whether the whole is a date, a time of day or both; a blank may stand between them. -/
def isMoment (cs : List Char) : Bool :=
  match afterDate? cs with
  | some [] => true
  | some (mark :: rest) =>
    (mark = 'T' || mark = 't' || mark = ' ') &&
      match afterTime? rest with
      | some [] => true
      | some rest => isOffset rest
      | none => false
  | none => afterTime? cs = some []

def ofToken (token : List Char) : Option Toml :=
  if token = ['t', 'r', 'u', 'e'] then some (.boolean true)
  else if token = ['f', 'a', 'l', 's', 'e'] then some (.boolean false)
  else if isMoment token then some (.moment (String.ofList token))
  else if isFloat token then some (.float (String.ofList token))
  else (integer? token).map .integer

/-- Reads the token at the front, with the time of day that follows a date after a blank. -/
def readScalar (cs : List Char) : Option (Toml × List Char) :=
  let (token, rest) := cs.span isTokenChar
  let (token, rest) :=
    match rest with
    | ' ' :: next :: _ =>
      if afterDate? token = some [] ∧ next.isDigit then
        let (time, rest) := (rest.drop 1).span isTokenChar
        (token ++ ' ' :: time, rest)
      else (token, rest)
    | _ => (token, rest)
  (ofToken token).map fun value => (value, rest)

end ColumnSampling.Toml
