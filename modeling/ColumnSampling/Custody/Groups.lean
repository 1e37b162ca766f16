import ColumnSampling.Ascending
import ColumnSampling.NodeId
import ColumnSampling.Parameters
import ColumnSampling.Sha256

/-!
# Custody sampling

Every node keeps some of the custody groups, told by its identity alone: the walk over the node ids
that starts at its own id meets a group at each step, and the node keeps the first distinct ones.
Columns are dealt out to the groups in turn, and to the gossip subnets likewise.
-/

namespace ColumnSampling

/-- Why custody groups, columns or counts cannot be told. -/
inductive CustodyError where
  | tooLarge (count max : Nat)
  | invalidGroup (group max : Nat)
  | invalidColumn (column max : Nat)
  /-- A parameter that divides is zero. -/
  | zeroParameter (field : String)
  | internal (expected actual : Nat)
  /-- All node ids were walked through and too few groups were met. -/
  | exhausted (count : Nat)
  | validatorBalance (index : Nat) (cause : String)
deriving DecidableEq, Repr

def CustodyError.message : CustodyError → String
  | .tooLarge count max => s!"Custody group count {count} too large, at most {max} groups exist"
  | .invalidGroup group max => s!"Invalid custody group {group}, must be below {max}"
  | .invalidColumn column max => s!"Invalid column {column}, must be below {max}"
  | .zeroParameter field => s!"Network parameter `{field}` is zero"
  | .internal expected actual =>
    s!"Internal invariant violated: expected {expected} custody groups, got {actual}"
  | .exhausted count => s!"No walk over the node ids meets {count} custody groups"
  | .validatorBalance index cause =>
    s!"Failed to read effective balance of validator {index}: {cause}"

end ColumnSampling

namespace ColumnSampling.Custody

/-- The group met at a node id: the first eight bytes of a digest, as a number, modulo `total`. -/
def groupAt (id : NodeId) (total : Nat) : Nat :=
  Endian.ofLittle ((Sha256.digest id.littleEndian).toList.take 8) % total

/-- How many ids there are; a longer walk meets nothing new. -/
def idCount : Nat := Nat.pow 2 256

/--
Walks on from `id` until `missing` further distinct groups have been met, and gives all groups met
in ascending order; `none` if `steps` steps do not meet them.
-/
def walk (total : Nat) : (steps : Nat) → (id : NodeId) → (missing : Nat) → (met : List Nat) →
    Option (List Nat)
  | _, _, 0, met => some met
  | 0, _, _ + 1, _ => none
  | steps + 1, id, missing + 1, met =>
    let group := groupAt id total
    if group ∈ met then walk total steps id.next (missing + 1) met
    else walk total steps id.next missing (Ascending.insert group met)

/-- The `count` groups that the node keeps, in ascending order. -/
def groups (id : NodeId) (count : Nat) (p : Parameters) : Except CustodyError (List Nat) :=
  if p.groups < count then .error (.tooLarge count p.groups)
  else if count = p.groups then .ok (List.range p.groups)
  else match walk p.groups idCount id count [] with
    | none => .error (.exhausted count)
    | some met =>
      if met.length = count then .ok met else .error (.internal count met.length)

/-- The columns of a group, in ascending order. -/
def columnsOfGroup (group : Nat) (p : Parameters) : Except CustodyError (List Nat) :=
  if group < p.groups then
    .ok ((List.range p.columnsPerGroup).map fun i => p.groups * i + group)
  else .error (.invalidGroup group p.groups)

def groupOfColumn (column : Nat) (p : Parameters) : Except CustodyError Nat :=
  if p.columns ≤ column then .error (.invalidColumn column p.columns)
  else if p.groups = 0 then .error (.zeroParameter "number_of_custody_groups")
  else .ok (column % p.groups)

/-- The columns of all the groups, in ascending order. -/
def columns (groups : List Nat) (p : Parameters) : Except CustodyError (List Nat) :=
  groups.foldlM (fun found group => return Ascending.insertAll (← columnsOfGroup group p) found) []

/-- The subnet that carries a column. -/
def subnetOfColumn (column : Nat) (p : Parameters) : Except CustodyError Nat :=
  if p.subnetCount = 0 then .error (.zeroParameter "data_column_sidecar_subnet_count")
  else .ok (column % p.subnetCount.toNat)

def subnets (columns : List Nat) (p : Parameters) : Except CustodyError (List Nat) := do
  return Ascending.ofList (← columns.mapM (subnetOfColumn · p))

/-- Whether `count` groups hold enough columns to recover all of them. -/
def canSelfReconstruct (count : Nat) (p : Parameters) : Bool := (p.groups + 1) / 2 ≤ count

end ColumnSampling.Custody
