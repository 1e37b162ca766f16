import ColumnSampling.Json.Stop

/-!
# Reading JSON

A text is one value with blanks around it.
-/

namespace ColumnSampling.Json

def isBlank (c : Char) : Bool := c = ' ' || c = '\n' || c = '\t' || c = '\r'

def skipBlanks (cs : List Char) : List Char := cs.dropWhile isBlank

def isByte : Json → Bool
  | .integer n => n < 256
  | _ => false

/--
Reads the end of an array whose last item is no value: after thirty-two bytes it is passed over, if
the reading of a further byte stops right in front of the end.
-/
def readMalformed (cs : List Char) (done : List Json) : Option (Json × List Char) :=
  if done.length = 32 && done.all isByte then
    match (stopOfByte (skipBlanks cs)).map skipBlanks with
    | some (']' :: rest) => some (.array (.malformed :: done).reverse, rest)
    | _ => none
  else none

mutual

/-- Reads a value, blanks in front of it passed over. -/
def readValue : (fuel : Nat) → (cs : List Char) → Option (Json × List Char)
  | 0, _ => none
  | fuel + 1, cs =>
    match skipBlanks cs with
    | 'n' :: 'u' :: 'l' :: 'l' :: rest => some (.null, rest)
    | 't' :: 'r' :: 'u' :: 'e' :: rest => some (.bool true, rest)
    | 'f' :: 'a' :: 'l' :: 's' :: 'e' :: rest => some (.bool false, rest)
    | '"' :: rest =>
      match readString rest with
      | none => none
      | some (text, rest) => some (.string text, rest)
    | '[' :: rest =>
      match skipBlanks rest with
      | ']' :: rest => some (.array [], rest)
      | rest => readItems fuel rest []
    | '\x7b' :: rest =>
      match skipBlanks rest with
      | '\x7d' :: rest => some (.object [], rest)
      | rest => readMembers fuel rest []
    | rest => readNumber rest

def readItems : (fuel : Nat) → (cs : List Char) → (done : List Json) →
    Option (Json × List Char)
  | 0, _, _ => none
  | fuel + 1, cs, done =>
    match readValue fuel cs with
    | none => readMalformed cs done
    | some (item, rest) =>
      match skipBlanks rest with
      | ',' :: rest => readItems fuel rest (item :: done)
      | ']' :: rest => some (.array (item :: done).reverse, rest)
      | _ => readMalformed cs done

def readMembers : (fuel : Nat) → (cs : List Char) → (done : List (JsonText × Json)) →
    Option (Json × List Char)
  | 0, _, _ => none
  | fuel + 1, cs, done =>
    match skipBlanks cs with
    | '"' :: rest =>
      match readString rest with
      | none => none
      | some (key, rest) =>
        match skipBlanks rest with
        | ':' :: rest =>
          match readValue fuel rest with
          | none => none
          | some (value, rest) =>
            match skipBlanks rest with
            | ',' :: rest => readMembers fuel rest ((key, value) :: done)
            | '\x7d' :: rest => some (.object ((key, value) :: done).reverse, rest)
            | _ => none
        | _ => none
    | _ => none

end

/-- Reads the characters of a whole text. No two steps pass no character, which bounds the steps. -/
def ofChars (cs : List Char) : Option Json :=
  match readValue (2 * cs.length + 2) cs with
  | none => none
  | some (value, rest) => if (skipBlanks rest).isEmpty then some value else none

def parse (text : String) : Option Json := ofChars text.toList

end ColumnSampling.Json
