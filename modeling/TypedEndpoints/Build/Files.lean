import TypedEndpoints.Text.Cut
/-!
What a build needs of its surroundings: files, and texts behind addresses. The operations live in a
monad `m`, so that one build runs on a real disk and on a value. Paths are texts; they are joined and
shortened, but not normalised: what a user wrote stays visible.
-/
namespace TypedEndpoints.Build
namespace Path

def isAbsolute (path : String) : Bool := Text.startsWith "/" path

/-- A path seen from a directory; an absolute path is its own. -/
def join (base path : String) : String :=
  if isAbsolute path || base = "" then path
  else if base.toList.getLast? = some '/' then base ++ path
  else base ++ "/" ++ path

/-- Empty parts and dots name nothing, except a dot that starts a relative path. -/
def dropVoid (absolute : Bool) : List (List Char) → List (List Char)
  | [] => []
  | p :: ps =>
    if p = [] ∨ (p = ['.'] ∧ (absolute ∨ ps ≠ [])) then dropVoid absolute ps else p :: ps

/-- The path without its last component; the root and the empty path have none. -/
def parent? (path : String) : Option String :=
  let absolute := isAbsolute path
  match dropVoid absolute (Text.pieces '/' path.toList).reverse with
  | [] => none
  | _ :: ps =>
    let kept := Text.joinWith ['/'] (dropVoid absolute ps).reverse
    some (if kept.isEmpty && absolute then "/" else String.ofList kept)

/-- The components that a walk takes; a slash at the end asks for a directory. -/
def components (path : String) : List String :=
  let ps := Text.pieces '/' path.toList
  ((ps.filter (!·.isEmpty)) ++ (if path.toList.getLast? = some '/' then [['.']] else [])).map
    String.ofList

end Path

inductive AccessFault where
  | notFound
  | notDirectory
  | isDirectory
  | exists
  | notText
  | badName
  | other (detail : String)
deriving Repr, DecidableEq

def AccessFault.message : AccessFault → String
  | .notFound => "no such file or directory"
  | .notDirectory => "not a directory"
  | .isDirectory => "is a directory"
  | .exists => "file exists"
  | .notText => "the content is not UTF-8 text"
  | .badName => "the name is not allowed"
  | .other detail => detail

structure AccessError where
  path : String
  fault : AccessFault
deriving Repr, DecidableEq

def AccessError.message (e : AccessError) : String :=
  "failed to access " ++ e.path ++ ": " ++ e.fault.message

structure Files (m : Type → Type) where
  readText : String → m (Except AccessFault String)
  isFile : String → m Bool
  /-- Makes a directory and those it lies in; it is no error if it is there. -/
  makeDirs : String → m (Except AccessFault Unit)
  writeText : String → String → m (Except AccessFault Unit)
  fetchText : String → m (Option String)

end TypedEndpoints.Build
