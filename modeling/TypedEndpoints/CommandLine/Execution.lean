import TypedEndpoints.CommandLine.Plan
/-!
The program as a function of its arguments: what it prints, about itself or about a build, and how it
ends.
-/
namespace TypedEndpoints.CommandLine
open Build

def lines (ls : List String) : String := String.join (ls.map (· ++ "\n"))

def helpText : String := lines [
  "Generate typed endpoint declarations from OpenAPI documents",
  "",
  "Usage: openapi-fetch [COMMAND]",
  "",
  "Commands:",
  "  generate  Run the build-start hook for every configured input",
  "  help      Print this message or the help of the given subcommand(s)",
  "",
  "Options:",
  "  -h, --help     Print help",
  "  -V, --version  Print version"]

def generateHelpText : String := lines [
  "Run the build-start hook for every configured input",
  "",
  "Usage: openapi-fetch generate [OPTIONS]",
  "",
  "Options:",
  "      --config <PATH>    Config file. Defaults to openapi-fetch.toml in the root, if present",
  "      --root <DIR>       Root for relative inputs and outputs. Defaults to the config file's directory",
  "      --input <SRC>      OpenAPI document URL or path",
  "      --output <DST>     Generated TypeScript file",
  "      --map <NAME=TYPE>  Emit schema NAME as the literal TYPE (repeatable)",
  "      --strict-refs      Fail when a $ref names a missing schema",
  "  -v, --verbose          Enable debug logging",
  "  -h, --help             Print help"]

def helpHelpText : String := lines [
  "Print this message or the help of the given subcommand(s)",
  "",
  "Usage: openapi-fetch help [COMMAND]...",
  "",
  "Arguments:",
  "  [COMMAND]...  Print help for the subcommand(s)"]

def versionText : String := lines ["openapi-fetch 0.1.0"]

inductive Failure where
  | plan (e : PlanError)
  | plugin (f : PluginFailure)
  | unwritten (outputs : List String)
deriving Repr, DecidableEq

def commaSeparated (ss : List String) : String :=
  String.ofList (Text.joinWith [',', ' '] (ss.map String.toList))

def Failure.message : Failure → String
  | .plan e => e.message
  | .plugin f => f.message
  | .unwritten outputs => "Failed to write: " ++ commaSeparated outputs

inductive Ending where
  | success
  | failure (f : Failure)
  | misuse (e : UsageError)
deriving Repr, DecidableEq

structure Execution where
  output : String
  ending : Ending
deriving Repr, DecidableEq

namespace Execution

def code (e : Execution) : Nat :=
  match e.ending with
  | .success => 0
  | .failure _ => 1
  | .misuse _ => 2

def complaint (e : Execution) : String :=
  match e.ending with
  | .success => ""
  | .failure f => f.message ++ "\n"
  | .misuse u => "error: " ++ u.message ++ "\n"

end Execution

def reportText (r : Report) : String :=
  String.join (r.generated.map (fun p => "generated " ++ p ++ "\n") ++
    r.skipped.map fun s => "skipped " ++ s ++ "\n")

def ofReport (r : Report) : Execution :=
  { output := reportText r
    ending := if r.failed.isEmpty then .success else .failure (.unwritten r.failed) }

section
variable {m : Type → Type} [Monad m]

def generate (files : Files m) (cwd : String) (a : GenerateArgs) : m Execution := do
  match ← resolvePlan files cwd a with
  | .error e => return ⟨"", .failure (.plan e)⟩
  | .ok plan =>
    match ← Build.run files plan.root plan.config with
    | .error f => return ⟨"", .failure (.plugin f)⟩
    | .ok r => return ofReport r

def execute (files : Files m) (cwd : String) (args : List String) : m Execution := do
  match parse args with
  | .error e => return ⟨"", .misuse e⟩
  | .ok .none => return ⟨helpText ++ "\n", .success⟩
  | .ok .help => return ⟨helpText, .success⟩
  | .ok .version => return ⟨versionText, .success⟩
  | .ok .generateHelp => return ⟨generateHelpText, .success⟩
  | .ok .helpHelp => return ⟨helpHelpText, .success⟩
  | .ok (.generate a) => generate files cwd a

end
end TypedEndpoints.CommandLine
