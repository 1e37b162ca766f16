import ColumnSampling.NodeId
import ColumnSampling.Parameters

/-!
# Configuration

What a node is told at its start: the parameters of the network, who it is and what it subscribes
to, and how it logs.

Six settings can be overridden by variables of the environment. White space around a value does not
count, and a value that is empty or cannot be read changes nothing. An unsigned 64-bit number is
written with decimal digits, which may follow one plus sign and may start with zeros.
-/

namespace ColumnSampling

/-- How much is logged. -/
inductive LogLevel where
  | trace
  | debug
  | info
  | warn
  | error
deriving DecidableEq, Repr, Inhabited

inductive LogFormat where
  | plaintext
  | json
deriving DecidableEq, Repr, Inhabited

namespace LogLevel

/-- The levels, from the most to the least talkative. -/
def all : List LogLevel := [trace, debug, info, warn, error]

def name : LogLevel → String
  | trace => "trace"
  | debug => "debug"
  | info => "info"
  | warn => "warn"
  | error => "error"

/-- The level of a name in exactly this spelling. -/
def ofName? (name : String) : Option LogLevel := all.find? (·.name = name)

/-- The level of a name in any case; only letters of ASCII have one. -/
def ofText (text : String) : Except String LogLevel :=
  match all.find? fun level => level.name.toList = text.toList.map Char.toLower with
  | some level => .ok level
  | none => .error ("invalid variant: " ++ text)

/-- The parts of the program that a level applies to. -/
def targets : List String := ["peerdas", "peerdas_cli", "peerdas_engine", "peerdas_types"]

/-- The filter that sets the level for every part of the program. -/
def directive (level : LogLevel) : String :=
  ",".intercalate (targets.map fun target => target ++ "=" ++ level.name)

end LogLevel

namespace LogFormat

def all : List LogFormat := [plaintext, json]

def name : LogFormat → String
  | plaintext => "plaintext"
  | json => "json"

def ofName? (name : String) : Option LogFormat := all.find? (·.name = name)

end LogFormat

structure NodeSettings where
  subscribeAllSubnets : Bool := false
  nodeId : Option NodeId := none
deriving DecidableEq, Inhabited

structure LogSettings where
  level : LogLevel := .info
  format : LogFormat := .plaintext
deriving DecidableEq, Repr, Inhabited

/-- The configuration of a node. -/
structure Config where
  network : Parameters := {}
  node : NodeSettings := {}
  logging : LogSettings := {}
deriving DecidableEq, Inhabited

end ColumnSampling

namespace ColumnSampling.Text

/-- The first and last code point of each range of white space, ascending. -/
def blankRanges : List (Nat × Nat) :=
  [(0x09, 0x0d), (0x20, 0x20), (0x85, 0x85), (0xa0, 0xa0), (0x1680, 0x1680), (0x2000, 0x200a),
    (0x2028, 0x2029), (0x202f, 0x202f), (0x205f, 0x205f), (0x3000, 0x3000)]

def isBlank (c : Char) : Bool := blankRanges.any fun r => r.1 ≤ c.toNat && c.toNat ≤ r.2

/-- Removes blanks at both ends. -/
def trim (text : String) : String :=
  String.ofList (((text.toList.dropWhile isBlank).reverse.dropWhile isBlank).reverse)

/-- Reads an unsigned 64-bit number. -/
def readWord (text : String) : Option UInt64 :=
  let digits := match text.toList with
    | '+' :: rest => rest
    | rest => rest
  let value := Nat.ofDigitChars 10 digits 0
  if !digits.isEmpty && digits.all Char.isDigit && value < UInt64.size then some value.toUInt64
  else none

def readBool (text : String) : Option Bool :=
  if text = "true" then some true
  else if text = "false" then some false
  else none

end ColumnSampling.Text

namespace ColumnSampling

/-- The value of each variable that is set. -/
abbrev Environment := String → Option String

namespace Environment

/-- The value of a variable without blanks around it, if anything is left. -/
def value? (env : Environment) (name : String) : Option String :=
  ((env name).map Text.trim).filter (· ≠ "")

def read {α : Type} (env : Environment) (name : String) (parse : String → Option α) : Option α :=
  (env.value? name).bind parse

end Environment

namespace Config

def override (c : Config) (env : Environment) : Config :=
  let word (name : String) : Option UInt64 := env.read name Text.readWord
  { network :=
      { c.network with
        custodyRequirement :=
          (word "PEERDAS_CUSTODY_REQUIREMENT").getD c.network.custodyRequirement
        samplesPerSlot := (word "PEERDAS_SAMPLES_PER_SLOT").getD c.network.samplesPerSlot
        peerCacheSize :=
          match word "PEERDAS_PEER_INFO_CACHE_SIZE" with
          | some size => if size = 0 then 1 else size
          | none => c.network.peerCacheSize }
    node :=
      { subscribeAllSubnets :=
          (env.read "PEERDAS_SUBSCRIBE_ALL_SUBNETS" Text.readBool).getD c.node.subscribeAllSubnets
        nodeId :=
          match env.read "PEERDAS_NODE_ID" fun text => (NodeId.ofText text).toOption with
          | some id => some id
          | none => c.node.nodeId }
    logging :=
      { c.logging with
        level :=
          (env.read "PEERDAS_LOG_LEVEL" fun text => (LogLevel.ofText text).toOption).getD
            c.logging.level } }

end Config

end ColumnSampling
