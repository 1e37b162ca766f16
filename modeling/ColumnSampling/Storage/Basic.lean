import ColumnSampling.Parameters

/-!
# Storage

What the program needs of a file system: to ask what is at a path, to read and to write a file, and
to make folders. Only one folder is made at a time; those above it are made here, from what making
one of them tells.

A path is a text of names with slashes between them. One dot stands for the folder that it is in,
two for the one above. A path is taken as it is written: what it leads to is found only by walking
it.
-/

namespace ColumnSampling

/-- Why a configuration was neither read nor written. -/
inductive FileError where
  | parentFolder (path : String)
  | opening (path : String)
  | writing (path : String)
  | present (path : String)
  /-- A number is beyond the range of the format. -/
  | unwritable
  /-- The text is no configuration. -/
  | unreadable
  | noHome
  | parameters (cause : ParameterError)
deriving DecidableEq, Repr

def FileError.message : FileError → String
  | .parentFolder path => "Error creating parent directory: " ++ path
  | .opening path => "Error opening file: " ++ path
  | .writing path => "Error writing file: " ++ path
  | .present path => "File already exists: " ++ path
  | .unwritable => "Error serializing: a number is above 2^63 - 1"
  | .unreadable => "Error parsing configuration: the text is no configuration"
  | .noHome => "Home directory not set, pass --home"
  | .parameters cause => "Invalid network parameters: " ++ cause.message

end ColumnSampling

namespace ColumnSampling.Path

/--
A path without what its end does not need: slashes, and single dots behind a slash. The last
character comes first.
-/
def dropEnd : (reversed : List Char) → List Char
  | '/' :: rest => dropEnd rest
  | '.' :: '/' :: rest => dropEnd rest
  | reversed => reversed

/-- The path that is left without the last name; the top of the file system has none. -/
def parent? (path : String) : Option String :=
  match dropEnd path.toList.reverse with
  | [] => none
  | named =>
    match dropEnd (named.dropWhile (· ≠ '/')) with
    | [] => some (if path.startsWith "/" then "/" else "")
    | folder => some (String.ofList folder.reverse)

/-- A path, the path without the last name, and so on; not more of them than `fuel`. -/
def chain : (fuel : Nat) → (path : String) → List String
  | 0, _ => []
  | fuel + 1, path => path :: (parent? path).elim [] (chain fuel)

/-- A path and all above it, from the end on. Each is shorter than the one before. -/
def ancestors (path : String) : List String := chain (path.length + 1) path

/-- A path below another. A path that begins with a slash stands for itself. -/
def join (folder path : String) : String :=
  if path.startsWith "/" then path
  else if folder = "" ∨ folder.endsWith "/" then folder ++ path
  else folder ++ "/" ++ path

/-- The names between the slashes of a path. A slash at either end has an empty name beside it. -/
def names (path : String) : List String := (path.toList.splitOn '/').map String.ofList

end ColumnSampling.Path

namespace ColumnSampling

inductive FolderOutcome where
  | made
  /-- A name on the way to it is not there. -/
  | missing
  /-- Something is in its place, or no such path can be. -/
  | refused
deriving DecidableEq, Repr

inductive WriteFault where
  | opening
  | writing
deriving DecidableEq, Repr

/-- A file system, whose operations run in `m`. -/
structure Storage (m : Type → Type) where
  /-- Whether a file or a folder is there. -/
  isPresent : (path : String) → m Bool
  /-- Whether a folder is there. -/
  isFolder : (path : String) → m Bool
  /-- The content of a file that can be read. -/
  read : (path : String) → m (Option ByteArray)
  /-- Makes a folder in one that is there. -/
  makeFolder : (path : String) → m FolderOutcome
  /-- Writes a file in a folder that is there. What was in the file is lost. -/
  write : (path : String) → (content : ByteArray) → m (Except WriteFault Unit)

namespace Storage

variable {m : Type → Type} [Monad m]

/--
Makes the first folder of a chain, and if a name on its way is missing those after it first. Tells
whether it is there then. Folders that were made stay even if it is not. The empty path is there.
-/
def makeChain (storage : Storage m) : (paths : List String) → m Bool
  | [] => return false
  | path :: above => do
    if path = "" then return true
    match ← storage.makeFolder path with
    | .made => return true
    | .refused => storage.isFolder path
    | .missing =>
      if !(← storage.makeChain above) then return false
      match ← storage.makeFolder path with
      | .made => return true
      | _ => storage.isFolder path

/-- Makes a folder and all above it, and tells whether it is there then. -/
def makeFolders (storage : Storage m) (path : String) : m Bool :=
  storage.makeChain (Path.ancestors path)

/-- Writes a file, in folders that are made if they are not there. -/
def put (storage : Storage m) (path : String) (content : ByteArray) :
    m (Except FileError Unit) := do
  let parent := Path.parent? path
  let made ← match parent with
    | none => pure true
    | some folder => storage.makeFolders folder
  if !made then return .error (.parentFolder (parent.getD ""))
  match ← storage.write path content with
  | .ok () => return .ok ()
  | .error .opening => return .error (.opening path)
  | .error .writing => return .error (.writing path)

end Storage

end ColumnSampling
