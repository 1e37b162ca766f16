import ColumnSampling.Toml.Scalar
import ColumnSampling.Toml.Table
import ColumnSampling.Toml.Text

/-!
# Reading TOML

A document is a list of lines: each is empty, or a header, or a key with its value. Arrays may run
over several lines, tables in braces may not. Containers may be nested, and keys dotted, less than
eighty deep.
-/

namespace ColumnSampling.Toml

/-- The depth at which containers and dotted keys end. -/
def depthLimit : Nat := 80

def isKeyChar (c : Char) : Bool := c.isAlphanum || c = '_' || c = '-'

def readKeyPart (cs : List Char) : Option (String × List Char) :=
  match cs with
  | '"' :: rest => readBasic rest []
  | '\'' :: rest => readLiteral rest []
  | rest =>
    match rest.span isKeyChar with
    | ([], _) => none
    | (key, rest) => some (String.ofList key, rest)

def readKey : (parts : Nat) → (cs : List Char) → Option (List String × List Char)
  | 0, _ => none
  | parts + 1, cs =>
    match readKeyPart (skipBlanks cs) with
    | none => none
    | some (key, rest) =>
      match skipBlanks rest with
      | '.' :: rest => (readKey parts rest).map fun (keys, rest) => (key :: keys, rest)
      | rest => some ([key], rest)

def readKeys (cs : List Char) : Option (List String × List Char) := readKey (depthLimit - 1) cs

mutual

/-- Reads a value; `depth` containers are open. -/
def readValue : (fuel depth : Nat) → (cs : List Char) → Option (Toml × List Char)
  | 0, _, _ => none
  | fuel + 1, depth, cs =>
    match cs with
    | '"' :: _ => (readText cs).map fun (s, rest) => (.text s, rest)
    | '\'' :: _ => (readText cs).map fun (s, rest) => (.text s, rest)
    | '[' :: rest => if depth + 1 < depthLimit then readItems fuel (depth + 1) rest [] else none
    | '\x7b' :: rest =>
      if depth + 1 < depthLimit then
        match skipBlanks rest with
        | '\x7d' :: rest => some (.table [], rest)
        | rest => readMembers fuel (depth + 1) rest []
      else none
    | cs => readScalar cs

def readItems : (fuel depth : Nat) → (cs : List Char) → (done : List Toml) →
    Option (Toml × List Char)
  | 0, _, _, _ => none
  | fuel + 1, depth, cs, done =>
    match skipLines false cs with
    | ']' :: rest => some (.array done.reverse, rest)
    | cs =>
      match readValue fuel depth cs with
      | none => none
      | some (item, rest) =>
        match skipLines false rest with
        | ',' :: rest => readItems fuel depth rest (item :: done)
        | ']' :: rest => some (.array (item :: done).reverse, rest)
        | _ => none

def readMembers : (fuel depth : Nat) → (cs : List Char) → (done : Members) →
    Option (Toml × List Char)
  | 0, _, _, _ => none
  | fuel + 1, depth, cs, done =>
    match readKeys cs with
    | some (keys, '=' :: rest) =>
      match readValue fuel depth (skipBlanks rest) with
      | none => none
      | some (value, rest) =>
        match done.define value keys with
        | none => none
        | some done =>
          match skipBlanks rest with
          | ',' :: rest => readMembers fuel depth rest done
          | '\x7d' :: rest => some (.table (finish done), rest)
          | _ => none
    | _ => none

end

structure Progress where
  members : Members := []
  /-- The header of the table that keys now belong to. -/
  header : List String := []

namespace Progress

def enter (p : Progress) (item : Bool) (header : List String) : Option Progress :=
  (Members.along (if item then Members.openItem else Members.openTable) header p.members).map
    fun members => ⟨members, header⟩

def define (p : Progress) (keys : List String) (value : Toml) : Option Progress :=
  let members :=
    if p.header.isEmpty then p.members.define value keys
    else Members.along (Members.defineIn keys value) p.header p.members
  members.map fun members => { p with members := members }

end Progress

def readLine (p : Progress) (cs : List Char) : Option (Progress × List Char) :=
  match cs with
  | '[' :: '[' :: rest =>
    match readKeys rest with
    | some (keys, ']' :: ']' :: rest) =>
      (endLine? rest).bind fun rest => (p.enter true keys).map fun p => (p, rest)
    | _ => none
  | '[' :: rest =>
    match readKeys rest with
    | some (keys, ']' :: rest) =>
      (endLine? rest).bind fun rest => (p.enter false keys).map fun p => (p, rest)
    | _ => none
  | cs =>
    match readKeys cs with
    | some (keys, '=' :: rest) =>
      match readValue (2 * cs.length + 2) 0 (skipBlanks rest) with
      | none => none
      | some (value, rest) =>
        (endLine? rest).bind fun rest => (p.define keys value).map fun p => (p, rest)
    | _ => none

/-- Reads the lines that are left. No line is empty of characters, which bounds their number. -/
def readLines : (fuel : Nat) → (p : Progress) → (cs : List Char) → Option Progress
  | 0, _, _ => none
  | fuel + 1, p, cs =>
    match skipBlanks cs with
    | [] => some p
    | '#' :: rest => (endLine? ('#' :: rest)).bind (readLines fuel p)
    | '\n' :: rest => readLines fuel p rest
    | '\r' :: rest => (newLine? ('\r' :: rest)).bind (readLines fuel p)
    | rest => (readLine p rest).bind fun (p, rest) => readLines fuel p rest

/-- Reads the characters of a document, which may begin with a mark of their order. -/
def ofChars (cs : List Char) : Option Toml :=
  let cs := match cs with
    | '\ufeff' :: rest => rest
    | rest => rest
  (readLines (cs.length + 1) {} cs).map fun p => .table (finish p.members)

def parse (text : String) : Option Toml := ofChars text.toList

end ColumnSampling.Toml
