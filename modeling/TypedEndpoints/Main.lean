import TypedEndpoints.CommandLine.Execution
import TypedEndpoints.Text.Utf8
/-!
The program on a real disk. Remote documents are out of its reach, so they are skipped.
-/
namespace TypedEndpoints
open Build

def attempt {α : Type} (act : IO α) : IO (Except AccessFault α) := do
  match ← act.toBaseIO with
  | .ok a => return .ok a
  | .error e => return .error (.other e.toString)

/-- A file is there when its path can be resolved but not continued: whether it may be read is not asked. -/
def isFileOnDisk (path : String) : IO Bool := do
  match ← attempt (IO.FS.realPath path) with
  | .error _ => return false
  | .ok _ =>
    match ← (IO.FS.Handle.mk (path ++ "/.") .read).toBaseIO with
    | .error (.inappropriateType ..) => return true
    | _ => return false

def diskFiles : Files IO where
  readText path := do
    match ← attempt (IO.FS.readBinFile path) with
    | .error e => return .error e
    | .ok b =>
      match Text.decode b.toList with
      | .ok cs => return .ok (String.ofList cs)
      | .error _ => return .error .notText
  isFile := isFileOnDisk
  makeDirs path := if path = "" then return .ok () else attempt (IO.FS.createDirAll path)
  writeText path content := attempt (IO.FS.writeFile path content)
  fetchText _ := return none

end TypedEndpoints

def main (args : List String) : IO UInt32 := do
  let cwd ← IO.currentDir
  let e ← TypedEndpoints.CommandLine.execute TypedEndpoints.diskFiles cwd.toString args
  IO.print e.output
  IO.eprint e.complaint
  return UInt32.ofNat e.code
