import ColumnSampling.Bytes

/-!
# TOML values

Numbers with a fraction and points in time are kept as they are written, since nothing here computes
with them. A table is written as a line for each value. In a document of tables each begins with its
header, and an empty line stands between them. Integers beyond the range of TOML cannot be written.
-/

namespace ColumnSampling

inductive Toml where
  | text (s : String)
  | integer (n : Int)
  /-- A number with a fraction or an exponent, or one that is infinite or none. -/
  | float (written : String)
  | boolean (b : Bool)
  /-- A date, a time of day or both. -/
  | moment (written : String)
  | array (items : List Toml)
  | table (members : List (String × Toml))
deriving Inhabited

namespace Toml

/-- Whether an integer fits into a signed 64-bit word, the range of TOML. -/
def inRange (n : Int) : Bool := Int64.minValue.toInt ≤ n && n ≤ Int64.maxValue.toInt

end Toml

end ColumnSampling

namespace ColumnSampling.Toml

def writeChar (c : Char) (rest : List Char) : List Char :=
  if c = '"' then '\\' :: '"' :: rest
  else if c = '\\' then '\\' :: '\\' :: rest
  else if c = '\n' then '\\' :: 'n' :: rest
  else if c = '\r' then '\\' :: 'r' :: rest
  else if c = '\t' then '\\' :: 't' :: rest
  else if c.toNat < 32 ∨ c.toNat = 127 then
    '\\' :: 'u' :: '0' :: '0' :: Hex.digit (c.toNat / 16) :: Hex.digit (c.toNat % 16) :: rest
  else c :: rest

def quoted (s : String) : String := String.ofList ('"' :: s.toList.foldr writeChar ['"'])

def scalar? : Toml → Option String
  | .text s => some (quoted s)
  | .integer n => if inRange n then some (toString n) else none
  | .float written => some written
  | .boolean b => some (if b then "true" else "false")
  | .moment written => some written
  | _ => none

def tableText? : (members : List (String × Toml)) → Option String
  | [] => some ""
  | (key, value) :: rest => do
    return key ++ " = " ++ (← scalar? value) ++ "\n" ++ (← tableText? rest)

def sectionText? (name : String) (members : List (String × Toml)) : Option String :=
  (tableText? members).map fun text => "[" ++ name ++ "]\n" ++ text

def documentText? (tables : List (String × List (String × Toml))) : Option String := do
  return "\n".intercalate (← tables.mapM fun (name, members) => sectionText? name members)

end ColumnSampling.Toml
