import ColumnSampling.Toml.Value

/-!
# Tables under construction

A document defines its tables piece by piece, and no piece may be defined twice. A table comes from
a header, is implied by a longer header, or is built by dotted keys. A header may complete a table
that was only implied; dotted keys may add to the tables that dotted keys built.
-/

namespace ColumnSampling.Toml

/-- How a table came to be. -/
inductive Origin where
  | header
  | implied
  | dotted
deriving DecidableEq, Repr

inductive Node where
  | value (v : Toml)
  | table (origin : Origin) (members : List (String × Node))
  /-- A list of tables, each of which began with a header of its own. -/
  | tables (items : List (List (String × Node)))

/-- The members of a table, in the order in which they were defined. -/
abbrev Members := List (String × Node)

namespace Members

def replace (m : Members) (key : String) (node : Node) : Members :=
  m.map fun x => if x.1 = key then (key, node) else x

/-- Defines a value by its key, which may be dotted. -/
def define (value : Toml) : (keys : List String) → (m : Members) → Option Members
  | [], _ => none
  | [key], m => if (m.lookup key).isSome then none else some (m ++ [(key, .value value)])
  | key :: next :: keys, m =>
    let last := keys.isEmpty
    match m.lookup key with
    | none => (define value (next :: keys) []).map fun sub => m ++ [(key, .table .dotted sub)]
    | some (.value _) => none
    | some (.table origin sub) =>
      if origin = .header ∨ (last ∧ origin ≠ .dotted) then none
      else (define value (next :: keys) sub).map fun sub => m.replace key (.table origin sub)
    | some (.tables items) =>
      if last then none
      else (define value (next :: keys) (items.getLast?.getD [])).map fun sub =>
        m.replace key (.tables (items.dropLast ++ [sub]))

/-- Changes the table at a path of headers, the tables on the way being implied if they are new. -/
def along (change : String → Members → Option Members) :
    (path : List String) → (m : Members) → Option Members
  | [], _ => none
  | [key], m => change key m
  | key :: next :: path, m =>
    match m.lookup key with
    | none => (along change (next :: path) []).map fun sub => m ++ [(key, .table .implied sub)]
    | some (.value _) => none
    | some (.table origin sub) =>
      (along change (next :: path) sub).map fun sub => m.replace key (.table origin sub)
    | some (.tables items) =>
      (along change (next :: path) (items.getLast?.getD [])).map fun sub =>
        m.replace key (.tables (items.dropLast ++ [sub]))

def openTable (key : String) (m : Members) : Option Members :=
  match m.lookup key with
  | none => some (m ++ [(key, .table .header [])])
  | some (.table .implied sub) => some (m.replace key (.table .header sub))
  | some _ => none

def openItem (key : String) (m : Members) : Option Members :=
  match m.lookup key with
  | none => some (m ++ [(key, .tables [[]])])
  | some (.tables items) => some (m.replace key (.tables (items ++ [[]])))
  | some _ => none

def defineIn (keys : List String) (value : Toml) (key : String) (m : Members) : Option Members :=
  match m.lookup key with
  | some (.table origin sub) =>
    (define value keys sub).map fun sub => m.replace key (.table origin sub)
  | some (.tables items) =>
    (define value keys (items.getLast?.getD [])).map fun sub =>
      m.replace key (.tables (items.dropLast ++ [sub]))
  | _ => none

end Members

mutual

def Node.toValue : Node → Toml
  | .value v => v
  | .table _ members => .table (finish members)
  | .tables items => .array (finishAll items)

def finish : List (String × Node) → List (String × Toml)
  | [] => []
  | (key, node) :: rest => (key, node.toValue) :: finish rest

def finishAll : List (List (String × Node)) → List Toml
  | [] => []
  | members :: rest => .table (finish members) :: finishAll rest

end

end ColumnSampling.Toml
