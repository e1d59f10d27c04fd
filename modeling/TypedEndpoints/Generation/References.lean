import TypedEndpoints.OpenApi.Document
/-!
The references of a document in the order in which they are checked, each with the place where it
stands. The first one that names nothing is what strict generation reports.
-/
namespace TypedEndpoints.Generation
open OpenApi

structure Reference where
  target : String
  location : String
deriving Repr, DecidableEq

mutual
/-- The references of a schema: its own, those of its items, those of its properties in order. -/
def schemaReferences (location : String) : Schema → List Reference
  | ⟨_, ref, properties, items, _⟩ =>
    ref.toList.map (⟨·, location⟩) ++ itemReferences location items ++
      propertyReferences location properties

def itemReferences (location : String) : Option Schema → List Reference
  | none => []
  | some s => schemaReferences location s

def propertyReferences (location : String) : Option (List (String × Schema)) → List Reference
  | none => []
  | some ps => eachPropertyReferences location ps

def eachPropertyReferences (location : String) : List (String × Schema) → List Reference
  | [] => []
  | (name, s) :: ps =>
    schemaReferences (location ++ "." ++ name) s ++ eachPropertyReferences location ps
end

def optionalReferences (location : String) (s : Option Schema) : List Reference :=
  match s with
  | some s => schemaReferences location s
  | none => []

def danglesIn (d : Document) (r : Reference) : Bool := !d.hasSchema (refName r.target)

/-- The parameter references that stand for nothing, path-level ones first. -/
def danglingParameters (d : Document) (location : String) (ps : List Parameter) : List Reference :=
  ps.filterMap fun p =>
    match p.ref with
    | some ref => if (d.resolve? p).isNone then some ⟨ref, location ++ " parameters"⟩ else none
    | none => none

def operationReferences (d : Document) (location : String) (shared : Option (List Parameter))
    (o : Operation) : List Reference :=
  (d.mergeParameters shared o).flatMap
      (fun p => optionalReferences (location ++ " parameter " ++ p.name) p.schema) ++
    optionalReferences (location ++ " request body") o.jsonBody? ++
    optionalReferences (location ++ " response") o.jsonOk?

def danglingInOperation (d : Document) (path : String) (item : PathItem) (method : Method)
    (o : Operation) : List Reference :=
  let location := method.name ++ " " ++ path
  danglingParameters d location (item.parameters.getD [] ++ o.parameters.getD []) ++
    (operationReferences d location item.parameters o).filter (danglesIn d)

/-- All dangling references: component schemas first, then operations, in document order. -/
def dangling (d : Document) : List Reference :=
  (d.schemas.flatMap fun p => schemaReferences p.1 p.2).filter (danglesIn d) ++
    d.paths.flatMap fun p =>
      p.2.operations.flatMap fun q => danglingInOperation d p.1 p.2 q.1 q.2

end TypedEndpoints.Generation
