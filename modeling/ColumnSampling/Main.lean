import ColumnSampling.Command.Program

/-!
# The executable

Runs the program on the files, the environment and the standard streams of a process.
-/

namespace ColumnSampling

/-- Whether a file or a folder can be opened, or is there but may not be. -/
def canOpen (path : String) : IO Bool := do
  match ← (IO.FS.Handle.mk path .read).toBaseIO with
  | .ok _ => return true
  | .error (.permissionDenied ..) => return true
  | .error _ => return false

def diskStorage : Storage IO where
  isPresent := canOpen
  isFolder path := canOpen (path ++ "/.")
  read path := do
    match ← (IO.FS.readBinFile path).toBaseIO with
    | .ok content => return some content
    | .error _ => return none
  makeFolder path := do
    match ← (IO.FS.createDir path).toBaseIO with
    | .ok () => return .made
    | .error (.noFileOrDirectory ..) => return .missing
    | .error _ => return .refused
  write path content := do
    match ← (IO.FS.Handle.mk path .write).toBaseIO with
    | .error _ => return .error .opening
    | .ok handle =>
      match ← (handle.write content).toBaseIO with
      | .error _ => return .error .writing
      | .ok () => return .ok ()

def variableNames : List String :=
  ["HOME", "PEERDAS_SUBSCRIBE_ALL_SUBNETS", "PEERDAS_NODE_ID", "PEERDAS_CUSTODY_REQUIREMENT",
    "PEERDAS_SAMPLES_PER_SLOT", "PEERDAS_PEER_INFO_CACHE_SIZE", "PEERDAS_LOG_LEVEL"]

def processEnvironment : IO Environment := do
  let values ← variableNames.mapM fun name => do return (name, ← IO.getEnv name)
  return fun name => (values.lookup name).join

end ColumnSampling

def main (words : List String) : IO UInt32 := do
  let env ← ColumnSampling.processEnvironment
  let outcome ← ColumnSampling.Program.run ColumnSampling.diskStorage env words
  (← IO.getStdout).putStr outcome.output
  (← IO.getStderr).putStr outcome.complaint
  return outcome.code
