import ColumnSampling.Json.Value

/-!
# JSON forms

The form of a type says how its values are written as JSON values, and which JSON values are read
back. A record is written as an object. It is read from an object, where unknown members are passed
over and none of its own may be repeated, or from an array of its fields in order.
-/

namespace ColumnSampling

/-- How values of a type are written as JSON values and read back. -/
structure JsonForm (α : Type) where
  write : α → Json
  read : Json → Option α

namespace JsonForm

variable {α : Type}

/-- Reads every item, or none of them; the values read before come with the last one first. -/
def readAll (f : JsonForm α) : (items : List Json) → (done : List α) → Option (List α)
  | [], done => some done.reverse
  | item :: rest, done =>
    match f.read item with
    | none => none
    | some v => readAll f rest (v :: done)

def bool : JsonForm Bool where
  write := .bool
  read
    | .bool b => some b
    | _ => none

/-- Unsigned 64-bit numbers, written with digits alone. -/
def word : JsonForm UInt64 where
  write w := .integer w.toNat
  read
    | .integer n => if n < UInt64.size then some n.toUInt64 else none
    | _ => none

def byte : JsonForm UInt8 where
  write b := .integer b.toNat
  read
    | .integer n => if n < UInt8.size then some n.toUInt8 else none
    | _ => none

def list (f : JsonForm α) : JsonForm (List α) where
  write values := .array (values.map f.write)
  read
    | .array items => f.readAll items []
    | _ => none

def option (f : JsonForm α) : JsonForm (Option α) where
  write
    | none => .null
    | some v => f.write v
  read
    | .null => some none
    | j => (f.read j).map some

/-- What is found where a field of a record stands. -/
inductive Field where
  | given (value : Json)
  /-- An object without a member of that name. -/
  | absent
  /-- An array that ends before. -/
  | cut
deriving Inhabited

def Field.required (f : JsonForm α) : Field → Option α
  | .given j => f.read j
  | _ => none

/-- An object may leave the field out. -/
def Field.optional (f : JsonForm α) : Field → Option (Option α)
  | .given j => f.option.read j
  | .absent => some none
  | .cut => none

/-- An object or an array may leave the field out; it then has the default value. -/
def Field.withDefault (f : JsonForm α) (default : α) : Field → Option α
  | .given j => f.read j
  | _ => some default

def memberValue? (name : String) : (members : List (JsonText × Json)) → Option Json
  | [] => none
  | (key, value) :: rest => if key = .plain name then some value else memberValue? name rest

def memberCount (name : String) (members : List (JsonText × Json)) : Nat :=
  (members.filter fun m => m.1 = .plain name).length

/-- Whether a member may stand in an object with fields of these names. -/
def memberAllowed (names : List String) : JsonText × Json → Bool
  | (.plain key, value) => names.contains key || value.isIgnorable
  | (.raw _ _, _) => false

/-- The fields of a record by their names, which are given in the order of the fields. -/
def fields (names : List String) : Json → Option (String → Field)
  | .array items =>
    if names.length < items.length then none
    else some fun name =>
      match items[names.idxOf name]? with
      | some value => .given value
      | none => .cut
  | .object members =>
    if members.all (memberAllowed names) && names.all (fun name => memberCount name members ≤ 1)
    then some fun name =>
      match memberValue? name members with
      | some value => .given value
      | none => .absent
    else none
  | _ => none

def member (name : String) (value : Json) : JsonText × Json := (.plain name, value)

def members (l : List (String × Json)) : List (JsonText × Json) := l.map fun m => member m.1 m.2

/--
Records with fields of these names. The values of the fields are written in the order of the names,
and a record is built from the fields that are found under them.
-/
def record (names : List String) (values : α → List Json)
    (build : (field : String → Field) → Option α) : JsonForm α where
  write v := .object (members (names.zip (values v)))
  read j := (fields names j).bind build

/--
One of a few names: written as a string, and read from a string or from an object whose one member
has that name and the value null.
-/
def oneOf (names : List (String × α)) (name : α → String) : JsonForm α where
  write v := .text (name v)
  read
    | .string (.plain s) => names.lookup s
    | .object [(.plain s, .null)] => names.lookup s
    | _ => none

end JsonForm

end ColumnSampling
