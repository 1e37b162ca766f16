import ColumnSampling.Storage.Basic
import ColumnSampling.Wire.Config

/-!
# Configuration files

A configuration is kept as a document. One that is read must hold parameters that break no rule; one
that is written need not.
-/

namespace ColumnSampling.ConfigFile

variable {m : Type → Type} [Monad m]

def decode (path : String) (content : Option ByteArray) : Except FileError Config :=
  match content.bind String.fromUTF8? with
  | none => .error (.opening path)
  | some text =>
    match Config.ofToml? text with
    | none => .error .unreadable
    | some config =>
      match config.network.check with
      | .error cause => .error (.parameters cause)
      | .ok () => .ok config

def load (storage : Storage m) (path : String) : m (Except FileError Config) := do
  return decode path (← storage.read path)

/-- Reads a configuration; without a file it has its default values. -/
def loadOrDefault (storage : Storage m) (path : String) : m (Except FileError Config) := do
  if ← storage.isPresent path then load storage path else return .ok {}

def save (storage : Storage m) (path : String) (config : Config) : m (Except FileError Unit) :=
  match config.toToml? with
  | none => return .error .unwritable
  | some text => storage.put path text.toUTF8

/-- Writes a configuration of default values with log settings of its own. -/
def create (storage : Storage m) (path : String) (overwrite : Bool) (logging : LogSettings) :
    m (Except FileError Unit) := do
  if (← storage.isPresent path) && !overwrite then return .error (.present path)
  save storage path { logging := logging }

end ColumnSampling.ConfigFile
