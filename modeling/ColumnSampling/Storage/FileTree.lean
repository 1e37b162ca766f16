import ColumnSampling.Storage.Basic

/-!
# File trees

A file system held in memory: a tree of folders with files as leaves. A path is walked from the top,
name by name, and every name but the last must be that of a folder that is there, also if two dots
lead out of it again.
-/

namespace ColumnSampling

inductive FileTree where
  | file (content : ByteArray)
  | folder (entries : List (String × FileTree))
deriving Inhabited

namespace FileTree

def empty : FileTree := .folder []

/-- The most bytes that a name may have. -/
def longestName : Nat := 255

/-- The most bytes that a path may have. -/
def longestPath : Nat := 4095

/-- Whether there can be such a path: it is not too long and holds no character of code zero. -/
def isPath (path : String) : Bool :=
  path.utf8ByteSize ≤ longestPath && !path.toList.contains (Char.ofNat 0)

/-- Why a walk ended before the end of its path. -/
inductive Obstacle where
  /-- A name is not there. -/
  | missing
  /-- A folder is needed where a file is, or a name is too long. -/
  | blocked
deriving DecidableEq, Repr

/-- A way down a tree: the names, and what each of them led to, the last first. -/
abbrev Trail : Type := List (String × FileTree)

def Trail.last (top : FileTree) : Trail → FileTree
  | [] => top
  | (_, tree) :: _ => tree

def Trail.names (trail : Trail) : List String := (trail.map (·.1)).reverse

/-- One step of a walk. An empty name and one dot lead nowhere else; at the top two dots do not
either. -/
def step (top : FileTree) (trail : Trail) (name : String) : Except Obstacle Trail :=
  match trail.last top with
  | .file _ => .error .blocked
  | .folder entries =>
    if name = "" ∨ name = "." then .ok trail
    else if name = ".." then .ok (trail.drop 1)
    else if longestName < name.utf8ByteSize then .error .blocked
    else
      match entries.lookup name with
      | none => .error .missing
      | some tree => .ok ((name, tree) :: trail)

/-- Walks from the top along names. -/
def walk (top : FileTree) (names : List String) : Except Obstacle Trail :=
  names.foldlM (step top) []

def find? (top : FileTree) (path : String) : Option FileTree :=
  if path ≠ "" ∧ isPath path then
    match top.walk (Path.names path) with
    | .ok trail => some (trail.last top)
    | .error _ => none
  else none

def content? (top : FileTree) (path : String) : Option ByteArray :=
  match top.find? path with
  | some (.file content) => some content
  | _ => none

def insert (entries : List (String × FileTree)) (name : String) (tree : FileTree) :
    List (String × FileTree) :=
  if entries.any (·.1 = name) then
    entries.map fun entry => if entry.1 = name then (name, tree) else entry
  else entries ++ [(name, tree)]

/-- Puts a tree at the end of names, all but the last of which are those of folders that are
there. -/
def plant (tree : FileTree) : (names : List String) → FileTree → FileTree
  | [], _ => tree
  | _ :: _, .file content => .file content
  | name :: rest, .folder entries =>
    .folder (insert entries name (plant tree rest ((entries.lookup name).getD empty)))

/-- The place that a path gives to something new: a folder that is there, and a name in it. -/
structure Slot where
  folder : Trail
  name : String
  /-- What has the name now. -/
  taken : Option FileTree
  /-- Whether slashes end the path. -/
  slash : Bool

/-- The place that a path gives to something new. The last name may not be one of dots. -/
def slot (top : FileTree) (path : String) : Except Obstacle Slot :=
  let reversed := (Path.names path).reverse
  match reversed.dropWhile (· = "") with
  | [] => .error .blocked
  | name :: above =>
    if !isPath path then .error .blocked
    else match top.walk above.reverse with
      | .error obstacle => .error obstacle
      | .ok trail =>
        match trail.last top with
        | .file _ => .error .blocked
        | .folder entries =>
          if name = "." ∨ name = ".." ∨ longestName < name.utf8ByteSize then .error .blocked
          else .ok ⟨trail, name, entries.lookup name, reversed.head? = some ""⟩

def Slot.fill (place : Slot) (tree top : FileTree) : FileTree :=
  plant tree (place.folder.names ++ [place.name]) top

/-- Makes a folder in one that is there. -/
def makeFolder (path : String) (top : FileTree) : FolderOutcome × FileTree :=
  match top.slot path with
  | .error .missing => (.missing, top)
  | .error .blocked => (.refused, top)
  | .ok place =>
    if place.taken.isSome then (.refused, top) else (.made, place.fill empty top)

/-- Writes a file in a folder that is there. A folder of its name leaves no room for it. -/
def write (path : String) (content : ByteArray) (top : FileTree) :
    Except WriteFault Unit × FileTree :=
  match top.slot path with
  | .error _ => (.error .opening, top)
  | .ok place =>
    match place.taken, place.slash with
    | some (.folder _), _ => (.error .opening, top)
    | _, true => (.error .opening, top)
    | _, false => (.ok (), place.fill (.file content) top)

def isFolder : FileTree → Bool
  | .file _ => false
  | .folder _ => true

/-- A tree as a file system. Paths that begin with no slash begin at a folder to work in. -/
def storage (base : String) : Storage (StateM FileTree) where
  isPresent path := fun top => ((top.find? (Path.join base path)).isSome, top)
  isFolder path := fun top => ((top.find? (Path.join base path)).any isFolder, top)
  read path := fun top => (top.content? (Path.join base path), top)
  makeFolder path := makeFolder (Path.join base path)
  write path := write (Path.join base path)

end FileTree

end ColumnSampling
