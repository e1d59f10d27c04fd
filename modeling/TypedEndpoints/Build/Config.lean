import TypedEndpoints.OrderedMap
import TypedEndpoints.Source.Toml
import TypedEndpoints.Text.Cut
/-!
Build configurations: the documents to compile, in order, and whether dangling references abort the
build. A configuration text is TOML; input and output of each document must not be blank.
-/
namespace TypedEndpoints.Build
open Source

structure InputSpec where
  input : String
  output : String
  mappings : OrderedMap String := []
deriving Repr, DecidableEq

structure Config where
  inputs : List InputSpec := []
  strictRefs : Bool := false
deriving Repr, DecidableEq

def configFileName : String := "openapi-fetch.toml"

inductive ConfigError where
  | notToml
  | shape (f : Fault)
  | blankInput (index : Nat)
  | blankOutput (index : Nat)
deriving Repr, DecidableEq

def ConfigError.detail : ConfigError → String
  | .notToml => "the text is not TOML"
  | .shape f => f.message
  | .blankInput i => "inputs[" ++ toString i ++ "].input is empty"
  | .blankOutput i => "inputs[" ++ toString i ++ "].output is empty"

def ConfigError.message (e : ConfigError) : String := "invalid configuration: " ++ e.detail

section
variable {ρ : Type} {m : Type → Type} [Monad m] [MonadExceptOf Fault m] [Links ρ m]

def InputSpec.fields : List Field := [⟨"input", false⟩, ⟨"output", false⟩, ⟨"mappings", true⟩]

def InputSpec.read (depth : Nat) (n : Node ρ) : m InputSpec := do
  let (d, fs) ← record InputSpec.fields depth n
  let input ← requiredField fs "input" text
  let output ← requiredField fs "output" text
  let mappings ← defaultField fs "mappings" [] (pairsOf (fun _ => text) d)
  return { input, output, mappings := OrderedMap.ofPairs mappings }

def Config.fields : List Field := [⟨"inputs", true⟩, ⟨"strict_refs", true⟩]

def refuseUnknown (known : List Field) : List (Node ρ × Node ρ) → m Unit
  | [] => pure ()
  | (k, _) :: es => do
    let key ← text k
    if known.any (·.name == key) then refuseUnknown known es
    else throw (.expected "a known field")

def Config.read (depth : Nat) (es : List (Node ρ × Node ρ)) : m Config := do
  refuseUnknown Config.fields es
  let fs ← knownFields Config.fields es []
  let inputs ← defaultField fs "inputs" [] (listOf InputSpec.read depth)
  let strictRefs ← defaultField fs "strict_refs" false flag
  return { inputs, strictRefs }

end

def isBlankInput (s : InputSpec) : Bool := Text.isAllBlank s.input
def isBlankOutput (s : InputSpec) : Bool := Text.isAllBlank s.output

/-- The first blank input or output, from the given index on. -/
def firstBlank (index : Nat) : List InputSpec → Option ConfigError
  | [] => none
  | s :: ss =>
    if isBlankInput s then some (.blankInput index)
    else if isBlankOutput s then some (.blankOutput index)
    else firstBlank (index + 1) ss

def Config.validate (c : Config) : Except ConfigError Config :=
  match firstBlank 0 c.inputs with
  | some e => .error e
  | none => .ok c

/-- No list of a readable configuration nests deeper. -/
def configDepth : Nat := 128

def Config.parse (s : String) : Except ConfigError Config :=
  match Toml.parse? s.toList with
  | none => .error .notToml
  | some es =>
    match Config.read (m := Except Fault) configDepth (Node.ofTomlEntries es) with
    | .error f => .error (.shape f)
    | .ok c => c.validate

end TypedEndpoints.Build
