import TypedEndpoints.Source.Node
/-!
Reading records, lists and maps out of a source node. What is read may nest only so deep; each reader
of a list, a map or a record hands on the depth that is left inside. Keys that a record does not know
are passed over with their values unread.
-/
namespace TypedEndpoints.Source

inductive Fault where
  | tooDeep
  | tooManyLinks
  | expected (what : String)
  | duplicateField (name : String)
  | missingField (name : String)
deriving Repr, DecidableEq

def Fault.message : Fault → String
  | .tooDeep => "nested too deep"
  | .tooManyLinks => "too many links"
  | .expected what => "expected " ++ what
  | .duplicateField name => "duplicate field " ++ name
  | .missingField name => "missing field " ++ name

/-- How links are followed. A link never leads to another link. -/
class Links (ρ : Type) (m : Type → Type) where
  follow : ρ → m (Node ρ)

instance : Links Empty (Except Fault) := ⟨nofun⟩

/-- A field of a record: its name and whether it has a default. -/
structure Field where
  name : String
  hasDefault : Bool
deriving Repr, DecidableEq

/-- The fields that were given, each once. -/
abbrev Fields (ρ : Type) := List (String × Node ρ)

section
variable {ρ : Type} {m : Type → Type} [Monad m] [MonadExceptOf Fault m] [Links ρ m]

/-- The node itself, behind at most one link. -/
def resolve : Node ρ → m (Node ρ)
  | .link r => Links.follow r
  | n => pure n

def text (n : Node ρ) : m String := do
  match ← resolve n with
  | .scalar ⟨some s, _, _, _, _⟩ => pure s
  | _ => throw (.expected "a text")

def flag (n : Node ρ) : m Bool := do
  match ← resolve n with
  | .scalar ⟨_, some b, _, _, _⟩ => pure b
  | _ => throw (.expected "a truth value")

/-- A node that may say that there is nothing. -/
def optional {α : Type} (read : Node ρ → m α) (n : Node ρ) : m (Option α) := do
  match ← resolve n with
  | .scalar s =>
    match s.absence with
    | .absent => pure none
    | .present => some <$> read (.scalar s)
    | .invalid => throw (.expected "nothing")
  | n => some <$> read n

/-- The depth left inside a node. -/
def enter (depth : Nat) : m Nat :=
  match depth with
  | 0 => throw .tooDeep
  | d + 1 => pure d

def items (depth : Nat) (n : Node ρ) : m (Nat × List (Node ρ)) := do
  match ← resolve n with
  | .list _ ns => return (← enter depth, ns)
  | .scalar s => if s.hollow then pure (0, []) else throw (.expected "a list")
  | _ => throw (.expected "a list")

def entries (depth : Nat) (n : Node ρ) : m (Nat × List (Node ρ × Node ρ)) := do
  match ← resolve n with
  | .map es => return (← enter depth, es)
  | .scalar s => if s.hollow then pure (0, []) else throw (.expected "a map")
  | _ => throw (.expected "a map")

/-- The given values of known keys, in source order; a known key may be given once. -/
def knownFields (known : List Field) : List (Node ρ × Node ρ) → Fields ρ → m (Fields ρ)
  | [], acc => pure acc.reverse
  | (k, v) :: es, acc => do
    let key ← text k
    if known.any (·.name == key) then
      if acc.any (·.1 == key) then throw (.duplicateField key)
      else knownFields known es ((key, v) :: acc)
    else knownFields known es acc

/-- The fields of a record written as a list: those at the end may be missing if they have a default. -/
def positionalFields (surplus : Bool) : List Field → List (Node ρ) → m (Fields ρ)
  | [], [] => pure []
  | [], _ :: _ => if surplus then pure [] else throw (.expected "fewer fields")
  | f :: fs, [] =>
    if f.hasDefault then positionalFields surplus fs [] else throw (.missingField f.name)
  | f :: fs, n :: ns => do return (f.name, n) :: (← positionalFields surplus fs ns)

def record (known : List Field) (depth : Nat) (n : Node ρ) : m (Nat × Fields ρ) := do
  match ← resolve n with
  | .map es => do
    let d ← enter depth
    return (d, ← knownFields known es [])
  | .list role ns =>
    if role.record then do
      let d ← enter depth
      return (d, ← positionalFields role.surplus known ns)
    else throw (.expected "a record")
  | .scalar s => if s.hollow then pure (0, []) else throw (.expected "a record")
  | .link _ => throw (.expected "a record")

/-- A field that may be absent or say that there is nothing. -/
def optionalField {α : Type} (fields : Fields ρ) (name : String) (read : Node ρ → m α) :
    m (Option α) :=
  match fields.lookup name with
  | some n => optional read n
  | none => pure none

def defaultField {α : Type} (fields : Fields ρ) (name : String) (fallback : α) (read : Node ρ → m α) :
    m α :=
  match fields.lookup name with
  | some n => read n
  | none => pure fallback

def requiredField {α : Type} (fields : Fields ρ) (name : String) (read : Node ρ → m α) : m α :=
  match fields.lookup name with
  | some n => read n
  | none => throw (.missingField name)

def listOf {α : Type} (read : Nat → Node ρ → m α) (depth : Nat) (n : Node ρ) : m (List α) := do
  let (d, ns) ← items depth n
  ns.mapM (read d)

def pairsOf {α : Type} (read : Nat → Node ρ → m α) (depth : Nat) (n : Node ρ) :
    m (List (String × α)) := do
  let (d, es) ← entries depth n
  es.mapM fun e => do
    let key ← text e.1
    let value ← read d e.2
    pure (key, value)

end
end TypedEndpoints.Source
