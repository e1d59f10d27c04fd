import TypedEndpoints.Build.Config
import TypedEndpoints.Build.Files
import TypedEndpoints.Generation.Output
import TypedEndpoints.OpenApi.Parsing
/-!
One build: every configured document is loaded, compiled with its own overrides and written, one after
another. A document that cannot be loaded is skipped and an output that cannot be written is noted;
only a dangling reference under strict checking ends the build.
-/
namespace TypedEndpoints.Build
open OpenApi Generation

def pluginName : String := "openapi-fetch-ts"

/-- What a build did, each list in the order of the inputs. -/
structure Report where
  generated : List String := []
  skipped : List String := []
  failed : List String := []
deriving Repr, DecidableEq

def Report.isClean (r : Report) : Bool := r.skipped.isEmpty && r.failed.isEmpty

structure PluginFailure where
  input : String
  cause : GenerateError
deriving Repr, DecidableEq

def PluginFailure.message (f : PluginFailure) : String :=
  "plugin '" ++ pluginName ++ "' failed: " ++ f.input ++ ": " ++ f.cause.message

def isRemote (source : String) : Bool :=
  Text.startsWith "http://" source || Text.startsWith "https://" source

section
variable {m : Type → Type} [Monad m]

def sourceText (files : Files m) (base source : String) : m (Option String) := do
  if isRemote source then files.fetchText source
  else return (← files.readText (Path.join base source)).toOption

def loadDocument (files : Files m) (base source : String) : m (Option Document) := do
  match ← sourceText files base source with
  | some s => return (Document.parse s).toOption
  | none => return none

/-- Write a file seen from `base`, in a directory that is made if need be; the answer is its path. -/
def writeOutput (files : Files m) (base path content : String) : m (Except AccessError String) := do
  let target := Path.join base path
  let made ← match Path.parent? target with
    | some parent => do
      match ← files.makeDirs parent with
      | .ok () => pure (Except.ok ())
      | .error e => pure (.error (AccessError.mk parent e))
    | none => pure (.ok ())
  match made with
  | .error e => return .error e
  | .ok () =>
    match ← files.writeText target content with
    | .ok () => return .ok target
    | .error e => return .error ⟨target, e⟩

inductive Step where
  | generated (path : String)
  | skipped (input : String)
  | failed (output : String)
deriving Repr, DecidableEq

def Report.add (r : Report) : Step → Report
  | .generated path => { r with generated := r.generated ++ [path] }
  | .skipped input => { r with skipped := r.skipped ++ [input] }
  | .failed output => { r with failed := r.failed ++ [output] }

def compileInput (files : Files m) (root : String) (strict : Bool) (s : InputSpec) :
    m (Except PluginFailure Step) := do
  match ← loadDocument files root s.input with
  | none => return .ok (.skipped s.input)
  | some d =>
    match generate strict (Overrides.withMappings s.mappings) d with
    | .error e => return .error ⟨s.input, e⟩
    | .ok content =>
      match ← writeOutput files root s.output content with
      | .ok path => return .ok (.generated path)
      | .error _ => return .ok (.failed s.output)

def compileAll (files : Files m) (root : String) (strict : Bool) :
    List InputSpec → Report → m (Except PluginFailure Report)
  | [], r => return .ok r
  | s :: ss, r => do
    match ← compileInput files root strict s with
    | .error e => return .error e
    | .ok step => compileAll files root strict ss (r.add step)

def run (files : Files m) (root : String) (c : Config) : m (Except PluginFailure Report) :=
  compileAll files root c.strictRefs c.inputs {}

end
end TypedEndpoints.Build
