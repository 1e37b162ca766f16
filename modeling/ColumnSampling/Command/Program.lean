import ColumnSampling.Command.Arguments
import ColumnSampling.Command.Custody
import ColumnSampling.Storage.ConfigFile

/-!
# The program

From a command line, an environment and a file system to what is printed. A configuration file is
read first, the environment overrides it, and the command line overrides both.
-/

namespace ColumnSampling

inductive ProgramError where
  | usage (cause : UsageError)
  | file (cause : FileError)
  | parameters (cause : ParameterError)
  | custody (cause : CustodyReportError)

def Config.showParameters (c : Config) (json : Bool) : Except ProgramError String :=
  match c.network.check with
  | .error cause => .error (.parameters cause)
  | .ok () =>
    if json then .ok (JsonForm.parameters.write c.network).pretty
    else match c.network.toToml? with
      | some text => .ok text
      | none => .error (.file .unwritable)

/-- What a run of the program leaves. -/
structure Outcome where
  code : UInt32 := 0
  /-- What is printed as the result. -/
  output : String := ""
  /-- What is printed as a complaint. -/
  complaint : String := ""

def usageText : String :=
  "Usage: peerdas [OPTIONS] <COMMAND>\n\n" ++
  "Commands:\n" ++
  "  init     Write a default configuration file [--overwrite]\n" ++
  "  custody  Show the custody groups, columns and subnets of a node\n" ++
  "           [--node-id <NODE_ID>] [--count <COUNT>] [--json]\n" ++
  "  spec     Print the effective network parameters [--json]\n\n" ++
  "Options:\n" ++
  "  --home <HOME_DIR>, --config <CONFIG_FILE>\n" ++
  "  --log-level <trace|debug|info|warn|error>, --log-format <plaintext|json>\n" ++
  "  -h, --help, -V, --version\n"

namespace Outcome

/-- The outcome of a failure. Help and version are results, other faults of usage are complaints. -/
def ofError : ProgramError → Outcome
  | .usage .help => { output := usageText }
  | .usage .version => { output := "peerdas\n" }
  | .usage .missingEverything => { code := 2, complaint := usageText }
  | .usage _ => { code := 2, complaint := "error: invalid command line\n\n" ++ usageText }
  | .file cause => { code := 1, complaint := "Error: " ++ cause.message ++ "\n" }
  | .parameters cause => { code := 1, complaint := "Error: " ++ cause.message ++ "\n" }
  | .custody cause => { code := 1, complaint := "Error: " ++ cause.message ++ "\n" }

end Outcome

namespace Program

variable {m : Type → Type} [Monad m]

/-- The configuration that a command works with, before anything overrides it. -/
def loadConfig (storage : Storage m) (path : String) (command : Command) :
    m (Except FileError Config) :=
  match command with
  | .init _ => return .ok {}
  | _ => ConfigFile.loadOrDefault storage path

/-- A configuration with the settings of the environment and of the command line. -/
def configured (c : Config) (env : Environment) (a : Arguments) : Config :=
  let c := c.override env
  { c with
    logging :=
      { level := a.logLevel.getD c.logging.level
        format := a.logFormat.getD c.logging.format } }

def perform (storage : Storage m) (path : String) (c : Config) :
    (command : Command) → m (Except ProgramError String)
  | .init overwrite => do
    match ← ConfigFile.create storage path overwrite c.logging with
    | .error cause => return .error (.file cause)
    | .ok () => return .ok ""
  | .custody nodeId count json =>
    match CustodyReport.compute c nodeId count with
    | .error cause => return .error (.custody cause)
    | .ok report => return .ok (report.render json ++ "\n")
  | .spec json =>
    match c.showParameters json with
    | .error cause => return .error cause
    | .ok text => return .ok (text ++ "\n")

def result (storage : Storage m) (env : Environment) (words : List String) :
    m (Except ProgramError String) := do
  match Arguments.parse words with
  | .error cause => return .error (.usage cause)
  | .ok a =>
    match a.configPath env with
    | .error cause => return .error (.file cause)
    | .ok path =>
      match ← loadConfig storage path a.command with
      | .error cause => return .error (.file cause)
      | .ok c => perform storage path (configured c env a) a.command

def run (storage : Storage m) (env : Environment) (words : List String) : m Outcome := do
  match ← result storage env words with
  | .ok output => return { output := output }
  | .error cause => return Outcome.ofError cause

end Program

end ColumnSampling
