/-!
# JSON values

A value as it stands in a text. A number written with digits alone is kept as a number; any other is
kept as it is written, since nothing here reads it. A string may hold what is no text, an unpaired
surrogate or a bare control character, and is then kept as its bytes. One kind of fault is a value
of its own, because a root is read in spite of it.
-/

namespace ColumnSampling

inductive JsonText where
  | plain (text : String)
  /-- Not a text: its bytes, and whether a control character stands in it unescaped. -/
  | raw (bytes : List UInt8) (control : Bool)
deriving DecidableEq, Inhabited

inductive Json where
  | null
  | bool (b : Bool)
  /-- A number written with digits alone. -/
  | integer (n : Nat)
  /-- Any other number, as it is written. -/
  | number (text : String)
  | string (text : JsonText)
  | array (items : List Json)
  | object (members : List (JsonText × Json))
  /-- What is no value, as the last item of an array, after as many bytes as a root has. -/
  | malformed
deriving Inhabited

namespace JsonText

/-- The bytes of a string, in UTF-8. -/
def bytes : JsonText → List UInt8
  | .plain text => text.toUTF8.data.toList
  | .raw bytes _ => bytes

def hasNoControl : JsonText → Bool
  | .plain _ => true
  | .raw _ control => !control

end JsonText

namespace Json

def text (s : String) : Json := .string (.plain s)

mutual

/-- Whether a value may stand where nobody reads it: no string holds a bare control character. -/
def isIgnorable : Json → Bool
  | .string text => text.hasNoControl
  | .array items => itemsIgnorable items
  | .object members => membersIgnorable members
  | .malformed => false
  | _ => true

def itemsIgnorable : List Json → Bool
  | [] => true
  | item :: rest => item.isIgnorable && itemsIgnorable rest

def membersIgnorable : List (JsonText × Json) → Bool
  | [] => true
  | (key, value) :: rest => key.hasNoControl && value.isIgnorable && membersIgnorable rest

end

end Json

end ColumnSampling
