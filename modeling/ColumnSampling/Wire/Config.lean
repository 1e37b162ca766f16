import ColumnSampling.Config
import ColumnSampling.Toml.Parser
import ColumnSampling.Toml.Value
import ColumnSampling.Wire.Bytes

/-!
# Configurations in JSON and in TOML

In JSON any part of a configuration may be left out, and then has its default value.

In TOML a configuration is a document of three tables. When it is read, any table or member may be
missing and others are passed over. A table may also be written as an array of its members in order,
where more are passed over; a point in time is a table without any of them.
-/

namespace ColumnSampling.JsonForm

def parameterNames : List String :=
  ["number_of_columns", "number_of_custody_groups", "data_column_sidecar_subnet_count",
    "samples_per_slot", "custody_requirement", "validator_custody_requirement",
    "balance_per_additional_custody_group", "max_blob_commitments_per_block",
    "kzg_commitments_inclusion_proof_depth", "bytes_per_root", "peer_info_cache_size"]

/-- The parameters in the order of their names. -/
def parameterValues (p : Parameters) : List UInt64 :=
  [p.numberOfColumns, p.numberOfCustodyGroups, p.subnetCount, p.samplesPerSlot,
    p.custodyRequirement, p.validatorCustodyRequirement, p.balancePerAdditionalGroup,
    p.maxCommitmentsPerBlock, p.inclusionProofDepth, p.rootLength, p.peerCacheSize]

/-- Parameters from their fields, each found by its name and its default value. -/
def parametersOf (get : (name : String) → (default : UInt64) → Option UInt64) :
    Option Parameters := do
  let d : Parameters := {}
  return { numberOfColumns := ← get "number_of_columns" d.numberOfColumns
           numberOfCustodyGroups := ← get "number_of_custody_groups" d.numberOfCustodyGroups
           subnetCount := ← get "data_column_sidecar_subnet_count" d.subnetCount
           samplesPerSlot := ← get "samples_per_slot" d.samplesPerSlot
           custodyRequirement := ← get "custody_requirement" d.custodyRequirement
           validatorCustodyRequirement :=
             ← get "validator_custody_requirement" d.validatorCustodyRequirement
           balancePerAdditionalGroup :=
             ← get "balance_per_additional_custody_group" d.balancePerAdditionalGroup
           maxCommitmentsPerBlock := ← get "max_blob_commitments_per_block" d.maxCommitmentsPerBlock
           inclusionProofDepth :=
             ← get "kzg_commitments_inclusion_proof_depth" d.inclusionProofDepth
           rootLength := ← get "bytes_per_root" d.rootLength
           peerCacheSize := ← get "peer_info_cache_size" d.peerCacheSize }

def parameters : JsonForm Parameters :=
  record parameterNames (fun p => (parameterValues p).map word.write) fun field =>
    parametersOf fun name default => (field name).withDefault word default

def logLevel : JsonForm LogLevel := oneOf (LogLevel.all.map fun l => (l.name, l)) LogLevel.name

def logFormat : JsonForm LogFormat := oneOf (LogFormat.all.map fun f => (f.name, f)) LogFormat.name

def nodeSettings : JsonForm NodeSettings :=
  record ["subscribe_all_subnets", "node_id"]
    (fun s => [bool.write s.subscribeAllSubnets, (option nodeId).write s.nodeId])
    fun field => do
      return { subscribeAllSubnets := ← (field "subscribe_all_subnets").withDefault bool false
               nodeId := ← (field "node_id").withDefault (option nodeId) none }

def logSettings : JsonForm LogSettings :=
  record ["log_level", "log_format"]
    (fun s => [logLevel.write s.level, logFormat.write s.format])
    fun field => do
      return { level := ← (field "log_level").withDefault logLevel .info
               format := ← (field "log_format").withDefault logFormat .plaintext }

def config : JsonForm Config :=
  record ["das", "node", "logging"]
    (fun c => [parameters.write c.network, nodeSettings.write c.node, logSettings.write c.logging])
    fun field => do
      return { network := ← (field "das").withDefault parameters {}
               node := ← (field "node").withDefault nodeSettings {}
               logging := ← (field "logging").withDefault logSettings {} }

end ColumnSampling.JsonForm

namespace ColumnSampling.TomlForm

def word? : Toml → Option UInt64
  | .integer n => if 0 ≤ n ∧ n < UInt64.size then some n.toNat.toUInt64 else none
  | _ => none

def bool? : Toml → Option Bool
  | .boolean b => some b
  | _ => none

def nodeId? : Toml → Option NodeId
  | .text s => (NodeId.ofText s).toOption
  | _ => none

def isEmpty : Toml → Bool
  | .array items => items.isEmpty
  | .table members => members.isEmpty
  | _ => false

/-- One of a few names: a string, or a table whose only key is the name and stands over nothing. -/
def oneOf? {α : Type} (ofName? : String → Option α) : Toml → Option α
  | .text name => ofName? name
  | .table [(name, value)] => if isEmpty value then ofName? name else none
  | _ => none

/-- The members of a table by their names, which are given in order. -/
def members? (names : List String) : Toml → Option (String → Option Toml)
  | .table members => some fun name => members.lookup name
  | .array items => some fun name => items[names.idxOf name]?
  | .moment _ => some fun _ => none
  | _ => none

/-- A member that may be missing. -/
def withDefault {α : Type} (read : Toml → Option α) (default : α) : Option Toml → Option α
  | none => some default
  | some value => read value

def parameters? (value : Toml) : Option Parameters := do
  let member ← members? JsonForm.parameterNames value
  JsonForm.parametersOf fun name default => withDefault word? default (member name)

def nodeSettings? (value : Toml) : Option NodeSettings := do
  let member ← members? ["subscribe_all_subnets", "node_id"] value
  return { subscribeAllSubnets := ← withDefault bool? false (member "subscribe_all_subnets")
           nodeId := ← withDefault (fun v => (nodeId? v).map some) none (member "node_id") }

def logSettings? (value : Toml) : Option LogSettings := do
  let member ← members? ["log_level", "log_format"] value
  return { level := ← withDefault (oneOf? LogLevel.ofName?) .info (member "log_level")
           format := ← withDefault (oneOf? LogFormat.ofName?) .plaintext (member "log_format") }

def config? (value : Toml) : Option Config := do
  let member ← members? ["das", "node", "logging"] value
  return { network := ← withDefault parameters? {} (member "das")
           node := ← withDefault nodeSettings? {} (member "node")
           logging := ← withDefault logSettings? {} (member "logging") }

def ofParameters (p : Parameters) : List (String × Toml) :=
  (JsonForm.parameterNames.zip (JsonForm.parameterValues p)).map fun x => (x.1, .integer x.2.toNat)

def ofNodeSettings (s : NodeSettings) : List (String × Toml) :=
  ("subscribe_all_subnets", .boolean s.subscribeAllSubnets) ::
    match s.nodeId with
    | some id => [("node_id", .text id.toText)]
    | none => []

def ofLogSettings (s : LogSettings) : List (String × Toml) :=
  [("log_level", .text s.level.name), ("log_format", .text s.format.name)]

end ColumnSampling.TomlForm

namespace ColumnSampling

/-- The parameters as lines of TOML, unless one is beyond its range. -/
def Parameters.toToml? (p : Parameters) : Option String := Toml.tableText? (TomlForm.ofParameters p)

/-- The configuration as a document, unless a number is beyond the range of TOML. -/
def Config.toToml? (c : Config) : Option String :=
  Toml.documentText? [("das", TomlForm.ofParameters c.network),
    ("node", TomlForm.ofNodeSettings c.node), ("logging", TomlForm.ofLogSettings c.logging)]

def Config.ofToml? (text : String) : Option Config := (Toml.parse text).bind TomlForm.config?

end ColumnSampling
