import TypedEndpoints.OpenApi.Document
import TypedEndpoints.Source.Reading
/-!
Reading documents out of source nodes. Optional fields may say that there is nothing; fields with a
default may be missing, but must have their type when they are given.
-/
namespace TypedEndpoints.OpenApi
open Source

section
variable {ρ : Type} {m : Type → Type} [Monad m] [MonadExceptOf Fault m] [Links ρ m]

/-- The name of a kind; an unquoted scalar of another type is none. -/
def readKind (n : Node ρ) : m String := do
  match ← resolve n with
  | .scalar ⟨_, _, some k, _, _⟩ => pure k
  | _ => throw (.expected "the name of a type")

def SchemaType.read (depth : Nat) (n : Node ρ) : m SchemaType := do
  match ← resolve n with
  | .list role ns =>
    if role.kinds then do
      let _ ← enter (m := m) depth
      return .several (← ns.mapM readKind)
    else throw (.expected "the name of a type")
  | n => return .single (← readKind n)

def Schema.fields : List Field :=
  [⟨"type", false⟩, ⟨"$ref", false⟩, ⟨"properties", false⟩, ⟨"items", false⟩, ⟨"nullable", false⟩]

/-- A schema from its fields, given readers of what is nested in it. -/
def Schema.ofFields (depth : Nat) (readItems : Node ρ → m Schema)
    (readProperties : Node ρ → m (List (String × Schema))) (fs : Fields ρ) : m Schema := do
  let type ← optionalField fs "type" (SchemaType.read depth)
  let ref ← optionalField fs "$ref" text
  let properties ← optionalField fs "properties" readProperties
  let items ← optionalField fs "items" readItems
  let nullable ← optionalField fs "nullable" flag
  return { type, ref, properties := properties.map OrderedMap.ofPairs, items, nullable }

/-- Items lie one level below their schema, properties two. -/
def Schema.read : Nat → Node ρ → m Schema
  | 0, n => do
    let (_, fs) ← record Schema.fields 0 n
    Schema.ofFields 0 (fun _ => throw .tooDeep) (fun _ => throw .tooDeep) fs
  | 1, n => do
    let (_, fs) ← record Schema.fields 1 n
    Schema.ofFields 0 (Schema.read 0) (pairsOf (fun _ _ => throw .tooDeep) 0) fs
  | d + 2, n => do
    let (_, fs) ← record Schema.fields (d + 2) n
    Schema.ofFields (d + 1) (Schema.read (d + 1)) (pairsOf (fun _ => Schema.read d) (d + 1)) fs

def Parameter.fields : List Field :=
  [⟨"name", true⟩, ⟨"in", true⟩, ⟨"required", true⟩, ⟨"schema", false⟩, ⟨"$ref", false⟩]

def Parameter.read (depth : Nat) (n : Node ρ) : m Parameter := do
  let (d, fs) ← record Parameter.fields depth n
  let name ← defaultField fs "name" "" text
  let location ← defaultField fs "in" "" text
  let required ← defaultField fs "required" false flag
  let schema ← optionalField fs "schema" (Schema.read d)
  let ref ← optionalField fs "$ref" text
  return { name, location, required, schema, ref }

def MediaType.read (depth : Nat) (n : Node ρ) : m MediaType := do
  let (d, fs) ← record [⟨"schema", false⟩] depth n
  return { schema := ← optionalField fs "schema" (Schema.read d) }

def Content.read (depth : Nat) (n : Node ρ) : m Content := do
  let (d, fs) ← record [⟨"content", false⟩] depth n
  let content ← optionalField fs "content" (pairsOf MediaType.read d)
  return content.map OrderedMap.ofPairs

def RequestBody.read (depth : Nat) (n : Node ρ) : m RequestBody := do
  return { content := ← Content.read depth n }

def Response.read (depth : Nat) (n : Node ρ) : m Response := do
  return { content := ← Content.read depth n }

def Operation.fields : List Field :=
  [⟨"operationId", false⟩, ⟨"parameters", false⟩, ⟨"requestBody", false⟩, ⟨"responses", true⟩]

def Operation.read (depth : Nat) (n : Node ρ) : m Operation := do
  let (d, fs) ← record Operation.fields depth n
  let operationId ← optionalField fs "operationId" text
  let parameters ← optionalField fs "parameters" (listOf Parameter.read d)
  let requestBody ← optionalField fs "requestBody" (RequestBody.read d)
  let responses ← defaultField fs "responses" [] (pairsOf Response.read d)
  return { operationId, parameters, requestBody, responses := OrderedMap.ofPairs responses }

/-- Entry by entry: a method may be given once, `parameters` again and again, and any other key is
passed over. -/
def PathItem.readEntries (depth : Nat) : List (Node ρ × Node ρ) → PathItem → m PathItem
  | [], item => pure item
  | (k, v) :: es, item => do
    let key ← text k
    match Method.ofName? key with
    | some method =>
      if item.operations.any (·.1 == method) then throw (.duplicateField key)
      else do
        let operation ← Operation.read depth v
        PathItem.readEntries depth es
          { item with operations := item.operations ++ [(method, operation)] }
    | none =>
      if key = "parameters" then do
        let parameters ← listOf Parameter.read depth v
        PathItem.readEntries depth es { item with parameters := some parameters }
      else PathItem.readEntries depth es item

def PathItem.read (depth : Nat) (n : Node ρ) : m PathItem := do
  let (d, es) ← entries depth n
  PathItem.readEntries d es {}

def Components.read (depth : Nat) (n : Node ρ) : m Components := do
  let (d, fs) ← record [⟨"schemas", false⟩, ⟨"parameters", false⟩] depth n
  let schemas ← optionalField fs "schemas" (pairsOf Schema.read d)
  let parameters ← optionalField fs "parameters" (pairsOf Parameter.read d)
  return { schemas := schemas.map OrderedMap.ofPairs,
           parameters := parameters.map OrderedMap.ofPairs }

def Document.read (depth : Nat) (n : Node ρ) : m Document := do
  let (d, fs) ← record [⟨"paths", true⟩, ⟨"components", false⟩] depth n
  let paths ← defaultField fs "paths" [] (pairsOf PathItem.read d)
  let components ← optionalField fs "components" (Components.read d)
  return { paths := OrderedMap.ofPairs paths, components }

end
end TypedEndpoints.OpenApi
