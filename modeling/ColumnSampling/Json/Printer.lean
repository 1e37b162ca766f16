import ColumnSampling.Bytes
import ColumnSampling.Json.Value

/-!
# Writing JSON

A value is written without blanks, or on many lines with two blanks for each level. In a string only
the quote, the backslash and control characters are escaped.
-/

namespace ColumnSampling.Json

/-- Writes a character of a string, in front of `rest`. -/
def writeChar (c : Char) (rest : List Char) : List Char :=
  if c = '"' then '\\' :: '"' :: rest
  else if c = '\\' then '\\' :: '\\' :: rest
  else if c = '\n' then '\\' :: 'n' :: rest
  else if c = '\r' then '\\' :: 'r' :: rest
  else if c = '\t' then '\\' :: 't' :: rest
  else if c = '\x08' then '\\' :: 'b' :: rest
  else if c = '\x0c' then '\\' :: 'f' :: rest
  else if c.toNat < 32 then
    '\\' :: 'u' :: '0' :: '0' :: Hex.digit (c.toNat / 16) :: Hex.digit (c.toNat % 16) :: rest
  else c :: rest

/-- Writes a string between quotes, in front of `rest`. What is no text is never written. -/
def writeText (text : JsonText) (rest : List Char) : List Char :=
  match text with
  | .plain text => '"' :: text.toList.foldr writeChar ('"' :: rest)
  | .raw _ _ => '"' :: '"' :: rest

mutual

def write : (value : Json) → (rest : List Char) → List Char
  | .null, rest => 'n' :: 'u' :: 'l' :: 'l' :: rest
  | .bool true, rest => 't' :: 'r' :: 'u' :: 'e' :: rest
  | .bool false, rest => 'f' :: 'a' :: 'l' :: 's' :: 'e' :: rest
  | .integer n, rest => Nat.toDigits 10 n ++ rest
  | .number text, rest => text.toList ++ rest
  | .string text, rest => writeText text rest
  | .array items, rest => '[' :: writeItems items (']' :: rest)
  | .object members, rest => '\x7b' :: writeMembers members ('\x7d' :: rest)
  | .malformed, rest => rest

def writeItems : (items : List Json) → (rest : List Char) → List Char
  | [], rest => rest
  | [item], rest => write item rest
  | item :: next :: items, rest => write item (',' :: writeItems (next :: items) rest)

def writeMembers : (members : List (JsonText × Json)) → (rest : List Char) → List Char
  | [], rest => rest
  | [(key, value)], rest => writeText key (':' :: write value rest)
  | (key, value) :: next :: members, rest =>
    writeText key (':' :: write value (',' :: writeMembers (next :: members) rest))

end

def compact (value : Json) : String := String.ofList (write value [])

def newLine (level : Nat) (rest : List Char) : List Char :=
  '\n' :: (List.replicate (2 * level) ' ' ++ rest)

mutual

/-- Writes a value at a level, an item or member on each line, in front of `rest`. -/
def writePretty : (value : Json) → (level : Nat) → (rest : List Char) → List Char
  | .array (item :: items), level, rest =>
    '[' :: newLine (level + 1) (writePrettyItems (item :: items) (level + 1)
      (newLine level (']' :: rest)))
  | .object (member :: members), level, rest =>
    '\x7b' :: newLine (level + 1) (writePrettyMembers (member :: members) (level + 1)
      (newLine level ('\x7d' :: rest)))
  | value, _, rest => write value rest

def writePrettyItems : (items : List Json) → (level : Nat) → (rest : List Char) → List Char
  | [], _, rest => rest
  | [item], level, rest => writePretty item level rest
  | item :: next :: items, level, rest =>
    writePretty item level (',' :: newLine level (writePrettyItems (next :: items) level rest))

def writePrettyMembers : (members : List (JsonText × Json)) → (level : Nat) →
    (rest : List Char) → List Char
  | [], _, rest => rest
  | [(key, value)], level, rest => writeText key (':' :: ' ' :: writePretty value level rest)
  | (key, value) :: next :: members, level, rest =>
    writeText key (':' :: ' ' :: writePretty value level
      (',' :: newLine level (writePrettyMembers (next :: members) level rest)))

end

def pretty (value : Json) : String := String.ofList (writePretty value 0 [])

end ColumnSampling.Json
