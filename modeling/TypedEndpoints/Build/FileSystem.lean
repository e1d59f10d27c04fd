import TypedEndpoints.Build.Files
import TypedEndpoints.Text.Utf8
/-!
A file system as a value: files and directories at absolute locations. A path is walked from the root,
component by component; all but the last must be directories.
-/
namespace TypedEndpoints.Build

inductive Entry where
  | directory
  | file (content : Bytes)
deriving Repr, DecidableEq

/-- The names from the root down. -/
abbrev Location := List String

/-- Entries by location; the root itself is always a directory. -/
structure FileSystem where
  entries : List (Location × Entry) := []

namespace FileSystem

def get? (fs : FileSystem) (l : Location) : Option Entry :=
  if l = [] then some .directory else fs.entries.lookup l

def put (fs : FileSystem) (l : Location) (e : Entry) : FileSystem :=
  if fs.entries.any (·.1 == l) then
    { entries := fs.entries.map fun p => if p.1 == l then (l, e) else p }
  else { entries := fs.entries ++ [(l, e)] }

/-- Remove an entry and all below it. -/
def remove (fs : FileSystem) (l : Location) : FileSystem :=
  { entries := fs.entries.filter fun p => !l.isPrefixOf p.1 }

def isName (name : String) : Bool := name.utf8ByteSize ≤ 255

/-- A path holds no NUL and has at most 4095 bytes; any other is refused before a walk. -/
def isPath (path : String) : Bool := path.utf8ByteSize ≤ 4095 && !path.toList.contains '\x00'

/-- Where a path leads, seen from an existing directory. The last component need not exist. -/
def walk (fs : FileSystem) (here : Location) : List String → Except AccessFault Location
  | [] => .ok here
  | c :: cs =>
    if c = "." then walk fs here cs
    else if c = ".." then walk fs here.dropLast cs
    else if !isName c then .error .badName
    else if cs.isEmpty then .ok (here ++ [c])
    else match fs.get? (here ++ [c]) with
      | some .directory => walk fs (here ++ [c]) cs
      | some (.file _) => .error .notDirectory
      | none => .error .notFound

def locate (fs : FileSystem) (path : String) : Except AccessFault Location :=
  if path = "" then .error .notFound
  else if !isPath path then .error .badName
  else fs.walk [] (Path.components path)

def read (fs : FileSystem) (path : String) : Except AccessFault Bytes := do
  match fs.get? (← fs.locate path) with
  | some (.file b) => .ok b
  | some .directory => .error .isDirectory
  | none => .error .notFound

def readText (fs : FileSystem) (path : String) : Except AccessFault String := do
  match Text.decode (← fs.read path) with
  | .ok cs => .ok (String.ofList cs)
  | .error _ => .error .notText

def isFile (fs : FileSystem) (path : String) : Bool := (fs.read path).isOk

def isDirectory (fs : FileSystem) (path : String) : Bool :=
  match fs.locate path with
  | .ok l => fs.get? l == some .directory
  | .error _ => false

def write (fs : FileSystem) (path : String) (content : Bytes) : Except AccessFault FileSystem := do
  let l ← fs.locate path
  if fs.get? l = some .directory then .error .isDirectory else .ok (fs.put l (.file content))

def makeDir (fs : FileSystem) (path : String) : Except AccessFault FileSystem := do
  let l ← fs.locate path
  match fs.get? l with
  | some _ => .error .exists
  | none => .ok (fs.put l .directory)

/-- Make a directory, or be content that it is there. -/
def ensureDir (fs : FileSystem) (path : String) : Except AccessFault FileSystem :=
  match fs.makeDir path with
  | .ok fs => .ok fs
  | .error e => if fs.isDirectory path then .ok fs else .error e

/-- Make a directory and those it lies in; the empty path asks for none. What was made before a
failure stays. -/
def makeDirs : Nat → FileSystem → String → FileSystem × Except AccessFault Unit
  | 0, fs, _ => (fs, .error .badName)
  | fuel + 1, fs, path =>
    if path = "" then (fs, .ok ())
    else match fs.ensureDir path with
    | .ok fs => (fs, .ok ())
    | .error .notFound =>
      match Path.parent? path with
      | none => (fs, .error .notFound)
      | some parent =>
        match makeDirs fuel fs parent with
        | (fs, .ok ()) =>
          match fs.ensureDir path with
          | .ok fs => (fs, .ok ())
          | .error e => (fs, .error e)
        | (fs, .error e) => (fs, .error e)
    | .error e => (fs, .error e)

/-- The operations of a build, on a file system as the state. Nothing remote can be reached. -/
def files : Files (StateM FileSystem) where
  readText path := return (← get).readText path
  isFile path := return (← get).isFile path
  makeDirs path := do
    let (fs, r) := makeDirs (path.length + 1) (← get) path
    set fs
    return r
  writeText path content := do
    match (← get).write path (Text.encode content.toList) with
    | .ok fs => do
      set fs
      return .ok ()
    | .error e => return .error e
  fetchText _ := return none

end FileSystem
end TypedEndpoints.Build
