import TypedEndpoints.Text.ControlSequence
import TypedEndpoints.Text.Cut
/-!
The arguments of the command line. An option takes its value from behind an equals sign or from the
next argument; a value is looked at only when the next option is met, so an argument that is not
expected is reported before it.
-/
namespace TypedEndpoints.CommandLine

inductive Flag where
  | config
  | root
  | input
  | output
  | map
  | strictRefs
  | verbose
  | help
deriving Repr, DecidableEq

namespace Flag

def ofLong? : String → Option Flag
  | "config" => some .config
  | "root" => some .root
  | "input" => some .input
  | "output" => some .output
  | "map" => some .map
  | "strict-refs" => some .strictRefs
  | "verbose" => some .verbose
  | "help" => some .help
  | _ => none

def ofShort? : Char → Option Flag
  | 'v' => some .verbose
  | 'h' => some .help
  | _ => none

/-- The option as messages name it, with the name of its value. -/
def display : Flag → String
  | .config => "--config <PATH>"
  | .root => "--root <DIR>"
  | .input => "--input <SRC>"
  | .output => "--output <DST>"
  | .map => "--map <NAME=TYPE>"
  | .strictRefs => "--strict-refs"
  | .verbose => "--verbose"
  | .help => "--help"

def takesValue : Flag → Bool
  | .strictRefs => false
  | .verbose => false
  | .help => false
  | _ => true

end Flag

inductive UsageError where
  | unknownCommand (name : String)
  | unexpectedArgument (text : String)
  | missingArguments
  | missingValue (f : Flag)
  | invalidMapping (raw : String)
  | repeated (f : Flag)
  | unexpectedValue (value option : String)
deriving Repr, DecidableEq

def mappingMessage (raw : String) : String := "expected NAME=TYPE, got '" ++ raw ++ "'"

/-- What a user wrote is quoted without control sequences. -/
def quoted (text : String) : String := "'" ++ Text.shown text ++ "'"

def UsageError.message : UsageError → String
  | .unknownCommand name => "unrecognized subcommand " ++ quoted name
  | .unexpectedArgument text => "unexpected argument " ++ quoted text ++ " found"
  | .missingArguments => "the following required arguments were not provided:"
  | .missingValue f => "a value is required for '" ++ f.display ++ "' but none was supplied"
  | .invalidMapping raw =>
    "invalid value " ++ quoted raw ++ " for '" ++ Flag.display .map ++ "': " ++
      Text.shown (mappingMessage raw)
  | .repeated f => "the argument '" ++ f.display ++ "' cannot be used multiple times"
  | .unexpectedValue value option =>
    "unexpected value " ++ quoted value ++ " for '" ++ option ++ "' found; no more were expected"

/-- A name and a type with the first equals sign between them, neither of them blank. -/
def parseMapping (raw : String) : Option (String × String) :=
  match Text.cutFirst '=' raw.toList with
  | none => none
  | some (name, type) =>
    let name := Text.trim name
    let type := Text.trim type
    if name.isEmpty || type.isEmpty then none else some (String.ofList name, String.ofList type)

structure GenerateArgs where
  config : Option String := none
  root : Option String := none
  input : Option String := none
  output : Option String := none
  mappings : List (String × String) := []
  strictRefs : Bool := false
  verbose : Bool := false
deriving Repr, DecidableEq

inductive Command where
  | none
  | help
  | version
  | generateHelp
  | helpHelp
  | generate (args : GenerateArgs)
deriving Repr, DecidableEq

def pathValue (f : Flag) (old : Option String) (value : String) : Except UsageError (Option String) :=
  if old.isSome then .error (.repeated f)
  else if value = "" then .error (.missingValue f)
  else .ok (some value)

def textValue (f : Flag) (old : Option String) (value : String) : Except UsageError (Option String) :=
  if old.isSome then .error (.repeated f) else .ok (some value)

def setFlag (f : Flag) (old : Bool) : Except UsageError Bool :=
  if old then .error (.repeated f) else .ok true

namespace GenerateArgs

def takeValue (a : GenerateArgs) (f : Flag) (value : String) : Except UsageError GenerateArgs := do
  match f with
  | .config => return { a with config := ← pathValue f a.config value }
  | .root => return { a with root := ← pathValue f a.root value }
  | .input => return { a with input := ← textValue f a.input value }
  | .output => return { a with output := ← textValue f a.output value }
  | .map =>
    match parseMapping value with
    | some p => return { a with mappings := a.mappings ++ [p] }
    | none => .error (.invalidMapping value)
  | _ => return a

/-- Take an option without a value; `none` asks for help. -/
def takeSwitch (a : GenerateArgs) (f : Flag) : Except UsageError (Option GenerateArgs) := do
  match f with
  | .strictRefs => return some { a with strictRefs := ← setFlag f a.strictRefs }
  | .verbose => return some { a with verbose := ← setFlag f a.verbose }
  | .help => return none
  | _ => return some a

/-- Input and output belong together, and a mapping belongs to an input. -/
def isComplete (a : GenerateArgs) : Bool :=
  a.input.isSome == a.output.isSome && (a.mappings.isEmpty || a.input.isSome)

end GenerateArgs

/-- An option whose value has not been looked at, with the value if it was given. -/
abbrev Pending := Option (Flag × Option String)

def resolvePending (a : GenerateArgs) : Pending → Except UsageError GenerateArgs
  | none => .ok a
  | some (f, none) => .error (.missingValue f)
  | some (f, some value) => a.takeValue f value

/-- A group of one-letter options; `none` asks for help. -/
def takeShort (a : GenerateArgs) : List Char → Except UsageError (Option GenerateArgs)
  | [] => .ok (some a)
  | c :: cs =>
    match Flag.ofShort? c with
    | none => .error (.unexpectedArgument (String.ofList ['-', c]))
    | some f => do
      match ← a.takeSwitch f with
      | some a => takeShort a cs
      | none => return none

/-- A long option: its name, and its value if an equals sign follows. -/
def splitLong (cs : List Char) : String × Option String :=
  match Text.cutFirst '=' cs with
  | some (name, value) => (String.ofList name, some (String.ofList value))
  | none => (String.ofList cs, none)

def parseGenerate : GenerateArgs → Pending → List String → Except UsageError Command
  | a, pending, [] => do
    let a ← resolvePending a pending
    if a.isComplete then return .generate a else .error .missingArguments
  | a, pending, arg :: args =>
    match arg.toList with
    | ['-', '-'] =>
      match args with
      | [] => parseGenerate a pending args
      | next :: _ => .error (.unexpectedArgument next)
    | '-' :: '-' :: cs =>
      let (name, value) := splitLong cs
      match Flag.ofLong? name with
      | none => .error (.unexpectedArgument ("--" ++ name))
      | some f =>
        if f.takesValue then do
          let a ← resolvePending a pending
          match value with
          | some value => parseGenerate (← a.takeValue f value) none args
          | none => parseGenerate a (some (f, none)) args
        else match value with
          | some value => .error (.unexpectedValue value f.display)
          | none => do
            let a ← resolvePending a pending
            match ← a.takeSwitch f with
            | some a => parseGenerate a none args
            | none => return .generateHelp
    | '-' :: c :: cs =>
      match Flag.ofShort? c with
      | none => .error (.unexpectedArgument (String.ofList ['-', c]))
      | some _ => do
        let a ← resolvePending a pending
        match ← takeShort a (c :: cs) with
        | some a => parseGenerate a none args
        | none => return .generateHelp
    | _ =>
      match pending with
      | some (f, none) => parseGenerate a (some (f, some arg)) args
      | _ => .error (.unexpectedArgument arg)

def parseHelp : List String → Except UsageError Command
  | [] => .ok .help
  | ["generate"] => .ok .generateHelp
  | ["help"] => .ok .helpHelp
  | "generate" :: name :: _ => .error (.unknownCommand name)
  | "help" :: name :: _ => .error (.unknownCommand name)
  | name :: _ => .error (.unknownCommand name)

def parseTopLong (cs : List Char) : Except UsageError Command :=
  let (name, value) := splitLong cs
  if name = "help" ∨ name = "version" then
    match value with
    | some value => .error (.unexpectedValue value ("--" ++ name))
    | none => .ok (if name = "help" then .help else .version)
  else .error (.unexpectedArgument ("--" ++ name))

def isCommandName (s : String) : Bool := s == "generate" || s == "help"

def parse : List String → Except UsageError Command
  | [] => .ok .none
  | "generate" :: args => parseGenerate {} none args
  | "help" :: names => parseHelp names
  | arg :: args =>
    match arg.toList with
    | ['-', '-'] =>
      match args with
      | [] => .ok .none
      | next :: _ =>
        .error (if isCommandName next then .unexpectedArgument next else .unknownCommand next)
    | '-' :: '-' :: cs => parseTopLong cs
    | ['-'] => .error (.unknownCommand arg)
    | '-' :: c :: _ =>
      if c = 'h' then .ok .help
      else if c = 'V' then .ok .version
      else .error (.unexpectedArgument (String.ofList ['-', c]))
    | _ => .error (.unknownCommand arg)

end TypedEndpoints.CommandLine
