import TypedEndpoints.Generation.References
import TypedEndpoints.Generation.SchemaType
/-!
The generated file: the endpoints, then one declaration for each component schema. The type of the
endpoints is an object of paths, each an object of methods, each a pair of response and request.
-/
namespace TypedEndpoints.Generation
open OpenApi TypeScript

def typeOrAny (s : Option Schema) : TypeExpr :=
  match s with
  | some s => typeOf s
  | none => .any

/-- A parameter as a member: path parameters and required ones must be given. -/
def paramMember (p : Parameter) : Member TypeExpr :=
  { name := p.name, type := typeOrAny p.schema, optional := p.location != "path" && !p.required }

def paramsMembers (params : List Parameter) : List (Member TypeExpr) :=
  if params.isEmpty then [] else [{ name := "params", type := .object (params.map paramMember) }]

def bodyMembers (body : Option Schema) : List (Member TypeExpr) :=
  match body with
  | some s => [{ name := "body", type := typeOf s }]
  | none => []

/-- What a request carries; nothing at all is `undefined`. -/
def requestType (params : List Parameter) (o : Operation) : TypeExpr :=
  match paramsMembers params ++ bodyMembers o.jsonBody? with
  | [] => .undefined
  | members => .object members

def signature (params : List Parameter) (o : Operation) : TypeExpr :=
  .object [{ name := "response", type := typeOrAny o.jsonOk? },
           { name := "request", type := requestType params o }]

def pathType (d : Document) (item : PathItem) : TypeExpr :=
  .object (item.operations.map fun p =>
    { name := p.1.name, type := signature (d.mergeParameters item.parameters p.2) p.2 })

def endpoints (d : Document) : TypeExpr :=
  .object (d.paths.map fun p => { name := p.1, type := pathType d p.2 })

/-- The declaration of the endpoints: paths and methods have a line each. -/
def endpointsChars (d : Document) : List Char :=
  "export type Endpoints = ".toList ++ (endpoints d).block 0 2 ++ [';', '\n']

def outputChars (overrides : Overrides) (d : Document) : List Char :=
  endpointsChars d ++ (declarations overrides d).flatMap fun x => '\n' :: x.chars

def output (overrides : Overrides) (d : Document) : String :=
  String.ofList (outputChars overrides d)

inductive GenerateError where
  | unresolved (r : Reference)
deriving Repr, DecidableEq

def GenerateError.message : GenerateError → String
  | .unresolved r => "unresolved reference '" ++ r.target ++ "' in " ++ r.location

/-- The file; with `strict`, only for a document without dangling references. -/
def generate (strict : Bool) (overrides : Overrides) (d : Document) : Except GenerateError String :=
  match if strict then (dangling d).head? else none with
  | some r => .error (.unresolved r)
  | none => .ok (output overrides d)

end TypedEndpoints.Generation
