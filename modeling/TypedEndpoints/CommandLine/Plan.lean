import TypedEndpoints.Build.Run
import TypedEndpoints.CommandLine.Arguments
/-!
From arguments to a build: which configuration file is used, what the arguments add to it, and where
relative paths start.
-/
namespace TypedEndpoints.CommandLine
open Build

inductive PlanError where
  | access (e : AccessError)
  | config (e : ConfigError)
  | noInputs
deriving Repr, DecidableEq

def PlanError.message : PlanError → String
  | .access e => e.message
  | .config e => e.message
  | .noInputs => "No inputs configured. Pass --input/--output or create " ++ configFileName

/-- A configuration and the directory that its paths are seen from. -/
structure Plan where
  config : Config
  root : String
deriving Repr, DecidableEq

section
variable {m : Type → Type} [Monad m]

def readConfig (files : Files m) (path : String) : m (Except PlanError Config) := do
  match ← files.readText path with
  | .error e => return .error (.access ⟨path, e⟩)
  | .ok s => return (Config.parse s).mapError .config

/-- The configuration file in use: the named one, or else the usual one if it is there. -/
def configPath (files : Files m) (cwd : String) (a : GenerateArgs) : m (Option String) := do
  match a.config with
  | some path => return some (Path.join cwd path)
  | none =>
    let candidate := Path.join ((a.root.map (Path.join cwd)).getD cwd) configFileName
    return if ← files.isFile candidate then some candidate else none

/-- The named root, or the directory of the configuration file, or the working directory. -/
def rootOf (cwd : String) (a : GenerateArgs) (config : Option String) : String :=
  match a.root with
  | some root => Path.join cwd root
  | none => (config.map fun path => (Path.parent? path).getD cwd).getD cwd

def extraInput (a : GenerateArgs) : List InputSpec :=
  match a.input, a.output with
  | some input, some output => [{ input, output, mappings := OrderedMap.ofPairs a.mappings }]
  | _, _ => []

def resolvePlan (files : Files m) (cwd : String) (a : GenerateArgs) : m (Except PlanError Plan) := do
  let path ← configPath files cwd a
  let config ← match path with
    | some path => readConfig files path
    | none => pure (.ok {})
  match config with
  | .error e => return .error e
  | .ok c =>
    let c := { c with inputs := c.inputs ++ extraInput a, strictRefs := c.strictRefs || a.strictRefs }
    return if c.inputs.isEmpty then .error .noInputs else .ok ⟨c, rootOf cwd a path⟩

end
end TypedEndpoints.CommandLine
