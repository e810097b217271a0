import DataFlash.Error

namespace DataFlash

inductive Entry where
  | file (bytes : List UInt8)
  | directory
  deriving DecidableEq, Repr

inductive Place where
  /-- The entry with these names, the last first, below the current directory. -/
  | below (names : List String)
  /-- A directory that the current one lies in. -/
  | above
  deriving DecidableEq, Repr

/-- Entries by the names that lead to them from the current directory, the last first. -/
structure Files where
  entries : List (List String × Entry) := []

namespace Files

def get? (f : Files) : Place → Option Entry
  | .above | .below [] => some .directory
  | .below names => f.entries.lookup names

def nameLimit : Nat := 255

def pathLimit : Nat := 4095

/-- The place that `..` names in a directory. The root is its own parent. -/
def parent : Place → Place
  | .above | .below [] => .above
  | .below (_ :: names) => .below names

/-- Following components from a place. A name is looked up in a directory only, and no name is known
in a directory above the current one. -/
def follow (f : Files) (place : Place) : List String → Except Fault Place
  | [] => .ok place
  | name :: rest =>
    match f.get? place with
    | none => .error .notFound
    | some (.file _) => .error .notDirectory
    | some .directory =>
      if name = "." ∨ name = "" then follow f place rest
      else if name = ".." then follow f (parent place) rest
      else if nameLimit < name.utf8ByteSize then .error .nameTooLong
      else match place with
        | .above => .error .notFound
        | .below names => follow f (.below (name :: names)) rest

def start (path : String) : Place :=
  if path.toList.head? = some '/' then .above else .below []

def components (path : String) : List String := (path.toList.splitOn '/').map String.ofList

def resolve (f : Files) (path : String) : Except Fault Place :=
  if path.toList.contains '\x00' then .error .nulInPath
  else if path = "" then .error .notFound
  else if pathLimit < path.utf8ByteSize then .error .nameTooLong
  else follow f (start path) (components path)

def read (f : Files) (path : String) : Except Fault (List UInt8) := do
  match f.get? (← f.resolve path) with
  | none => throw .notFound
  | some .directory => throw .isDirectory
  | some (.file bytes) => return bytes

def addDirectory (f : Files) (place : Place) : Files :=
  match f.get? place, place with
  | none, .below names => { entries := (names, .directory) :: f.entries }
  | _, _ => f

def addDirectories (f : Files) (place : Place) : List String → Files
  | [] => f
  | name :: rest =>
    if name = "." ∨ name = "" then addDirectories f place rest
    else if name = ".." then addDirectories f (parent place) rest
    else match place with
      | .above => f
      | .below names =>
        let next := .below (name :: names)
        addDirectories (f.addDirectory next) next rest

/-- The tree with one more entry and the directories that lead to it. Where the path can lead
nowhere the tree stays as it is. -/
def add (f : Files) (path : String) (entry : Entry) : Files :=
  let grown := f.addDirectories (start path) (components path).dropLast
  match grown.resolve path with
  | .error _ | .ok .above => f
  | .ok (.below names) => { entries := (names, entry) :: grown.entries }

end Files

end DataFlash
