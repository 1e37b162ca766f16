import ColumnSampling.Json.Parser

/-!
# Lines and strings of TOML

Four kinds of strings: between double quotes with escapes, between single quotes without, and each
of them between three quotes over several lines. A line ends with a line feed, which a carriage
return may precede; in a string such a pair counts as a line feed.
-/

namespace ColumnSampling.Toml

def isBlank (c : Char) : Bool := c = ' ' || c = '\t'

def skipBlanks (cs : List Char) : List Char := cs.dropWhile isBlank

/-- Whether a character may stand in a comment or a string: no control character but the tab. -/
def isPlain (c : Char) : Bool := c = '\t' || (32 ≤ c.toNat && c.toNat ≠ 127)

def newLine? : (cs : List Char) → Option (List Char)
  | '\n' :: rest => some rest
  | '\r' :: '\n' :: rest => some rest
  | _ => none

def skipComment (cs : List Char) : List Char :=
  match cs with
  | '#' :: rest => rest.dropWhile isPlain
  | rest => rest

/-- Passes over what may stand at the end of a line, and the end itself. -/
def endLine? (cs : List Char) : Option (List Char) :=
  match skipComment (skipBlanks cs) with
  | [] => some []
  | rest => newLine? rest

def skipLines : (inComment : Bool) → (cs : List Char) → List Char
  | _, [] => []
  | _, '\n' :: rest => skipLines false rest
  | _, '\r' :: '\n' :: rest => skipLines false rest
  | true, c :: rest => if isPlain c then skipLines true rest else c :: rest
  | false, '#' :: rest => skipLines true rest
  | false, c :: rest => if isBlank c then skipLines false rest else c :: rest

def charOfDigits? (digits : List Char) : Option Char :=
  let step (n : Option Nat) (c : Char) : Option Nat := do
    return 16 * (← n) + (← Json.hexValue? c)
  match digits.foldl step (some 0) with
  | some n => if n.isValidChar then some (Char.ofNat n) else none
  | none => none

def unescape? (c : Char) : Option Char :=
  match c with
  | 'b' => some '\x08'
  | 't' => some '\t'
  | 'n' => some '\n'
  | 'f' => some '\x0c'
  | 'r' => some '\r'
  | '"' => some '"'
  | '\\' => some '\\'
  | _ => none

/-- The text of characters that come with the last one first. -/
def textOf (done : List Char) : String := String.ofList done.reverse

def readBasic : (cs : List Char) → (done : List Char) → Option (String × List Char)
  | [], _ => none
  | '"' :: rest, done => some (textOf done, rest)
  | '\\' :: 'u' :: a :: b :: c :: d :: rest, done =>
    match charOfDigits? [a, b, c, d] with
    | none => none
    | some x => readBasic rest (x :: done)
  | '\\' :: 'U' :: a :: b :: c :: d :: e :: f :: g :: h :: rest, done =>
    match charOfDigits? [a, b, c, d, e, f, g, h] with
    | none => none
    | some x => readBasic rest (x :: done)
  | '\\' :: c :: rest, done =>
    match unescape? c with
    | none => none
    | some x => readBasic rest (x :: done)
  | c :: rest, done => if isPlain c then readBasic rest (c :: done) else none

def readLiteral : (cs : List Char) → (done : List Char) → Option (String × List Char)
  | [], _ => none
  | '\'' :: rest, done => some (textOf done, rest)
  | c :: rest, done => if isPlain c then readLiteral rest (c :: done) else none

/-- Ends a string of several lines: up to two more quotes belong to it. -/
def closeLines (quote : Char) (cs done : List Char) : String × List Char :=
  match cs with
  | a :: b :: rest =>
    if a = quote ∧ b = quote then (textOf (a :: b :: done), rest)
    else if a = quote then (textOf (a :: done), b :: rest)
    else (textOf done, a :: b :: rest)
  | [a] => if a = quote then (textOf (a :: done), []) else (textOf done, [a])
  | [] => (textOf done, [])

/--
Reads a string of several lines after its double quotes. A backslash at the end of a line joins it
with the next character that is neither a blank nor an end of a line; until then `joining` holds.
-/
def readBasicLines : (joining : Bool) → (cs : List Char) → (done : List Char) →
    Option (String × List Char)
  | _, [], _ => none
  | true, ' ' :: rest, done => readBasicLines true rest done
  | true, '\t' :: rest, done => readBasicLines true rest done
  | true, '\n' :: rest, done => readBasicLines true rest done
  | true, '\r' :: '\n' :: rest, done => readBasicLines true rest done
  | _, '"' :: '"' :: '"' :: rest, done => some (closeLines '"' rest done)
  | _, '\\' :: 'u' :: a :: b :: c :: d :: rest, done =>
    match charOfDigits? [a, b, c, d] with
    | none => none
    | some x => readBasicLines false rest (x :: done)
  | _, '\\' :: 'U' :: a :: b :: c :: d :: e :: f :: g :: h :: rest, done =>
    match charOfDigits? [a, b, c, d, e, f, g, h] with
    | none => none
    | some x => readBasicLines false rest (x :: done)
  | _, '\\' :: c :: rest, done =>
    match newLine? (skipBlanks (c :: rest)) with
    | some _ => readBasicLines true (c :: rest) done
    | none =>
      match unescape? c with
      | none => none
      | some x => readBasicLines false rest (x :: done)
  | _, '\n' :: rest, done => readBasicLines false rest ('\n' :: done)
  | _, '\r' :: '\n' :: rest, done => readBasicLines false rest ('\n' :: done)
  | _, c :: rest, done => if isPlain c then readBasicLines false rest (c :: done) else none

def readLiteralLines : (cs : List Char) → (done : List Char) → Option (String × List Char)
  | [], _ => none
  | '\'' :: '\'' :: '\'' :: rest, done => some (closeLines '\'' rest done)
  | '\n' :: rest, done => readLiteralLines rest ('\n' :: done)
  | '\r' :: '\n' :: rest, done => readLiteralLines rest ('\n' :: done)
  | c :: rest, done => if isPlain c then readLiteralLines rest (c :: done) else none

def skipFirstNewLine (cs : List Char) : List Char := (newLine? cs).getD cs

def readText : (cs : List Char) → Option (String × List Char)
  | '"' :: '"' :: '"' :: rest => readBasicLines false (skipFirstNewLine rest) []
  | '"' :: rest => readBasic rest []
  | '\'' :: '\'' :: '\'' :: rest => readLiteralLines (skipFirstNewLine rest) []
  | '\'' :: rest => readLiteral rest []
  | _ => none

end ColumnSampling.Toml
