import ColumnSampling.Custody.PeerCache
import ColumnSampling.Custody.Policy
import ColumnSampling.Json.Printer
import ColumnSampling.Wire.Config

/-!
# Custody report

What a node keeps: its groups, the columns in them and the subnets of those, and whether they
suffice to rebuild all columns.
-/

namespace ColumnSampling

inductive CustodyReportError where
  | parameters (cause : ParameterError)
  | noNodeId
  | custody (cause : CustodyError)

def CustodyReportError.message : CustodyReportError → String
  | .parameters cause => cause.message
  | .noNodeId => "No node id given, pass --node-id or set node.node_id"
  | .custody cause => cause.message

structure CustodyReport where
  nodeId : NodeId
  count : Nat
  kept : PeerCustody
  canSelfReconstruct : Bool

namespace CustodyReport

/--
The report of a node that is given or configured. Without a count it is the one that the node aims
at with no validators known.
-/
def compute (c : Config) (nodeId : Option NodeId) (count : Option UInt64) :
    Except CustodyReportError CustodyReport :=
  match c.network.check with
  | .error cause => .error (.parameters cause)
  | .ok () =>
    match nodeId.or c.node.nodeId with
    | none => .error .noNodeId
    | some id =>
      let policy : CustodyPolicy := { subscribeAllSubnets := c.node.subscribeAllSubnets }
      let count := (count.map UInt64.toNat).getD (policy.target c.network)
      match PeerCustody.compute id count c.network with
      | .error cause => .error (.custody cause)
      | .ok kept =>
        .ok { nodeId := id
              count := count
              kept := kept
              canSelfReconstruct := Custody.canSelfReconstruct count c.network }

def commas (l : List Nat) : String := ", ".intercalate (l.map toString)

def lines (r : CustodyReport) : List String :=
  ["node id:              " ++ r.nodeId.toText,
    "custody group count:  " ++ toString r.count,
    "custody groups:       " ++ commas r.kept.groups,
    "custody columns:      " ++ commas r.kept.columns,
    "data column subnets:  " ++ commas r.kept.subnets,
    "can self reconstruct: " ++ toString r.canSelfReconstruct]

def toJson (r : CustodyReport) : Json :=
  let numbers (l : List Nat) : Json := .array (l.map .integer)
  .object <| JsonForm.members
    [("node_id", JsonForm.nodeId.write r.nodeId), ("custody_group_count", .integer r.count),
      ("custody_groups", numbers r.kept.groups), ("custody_columns", numbers r.kept.columns),
      ("data_column_subnets", numbers r.kept.subnets),
      ("can_self_reconstruct", .bool r.canSelfReconstruct)]

def render (r : CustodyReport) (json : Bool) : String :=
  if json then r.toJson.pretty else "\n".intercalate r.lines

end CustodyReport

end ColumnSampling
