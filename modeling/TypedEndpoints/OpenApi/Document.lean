import TypedEndpoints.Http.Method
import TypedEndpoints.OrderedMap
import TypedEndpoints.Text.Cut
/-!
OpenAPI documents, as far as types are generated from them: component schemas and parameters, and
for each path the supported methods with their parameters, bodies and responses. Of a schema these are
kind, reference, properties, items and the two spellings of nullability. Maps keep the order of the
document.
-/
namespace TypedEndpoints.OpenApi

/-- One kind, or a list of kinds that may hold `null`. -/
inductive SchemaType where
  | single (kind : String)
  | several (kinds : List String)
deriving Repr, DecidableEq

/-- The declared kind; `null` in a list of kinds is passed over. -/
def SchemaType.kind? : SchemaType → Option String
  | .single k => some k
  | .several ks => ks.find? (· != "null")

structure Schema where
  type : Option SchemaType := none
  ref : Option String := none
  properties : Option (List (String × Schema)) := none
  items : Option Schema := none
  nullable : Option Bool := none

namespace Schema

/-- By the flag, or by a `null` in the list of kinds. -/
def isNullable (s : Schema) : Bool :=
  s.nullable == some true ||
    match s.type with
    | some (.several kinds) => kinds.contains "null"
    | _ => false

def kind (s : Schema) : Option String := s.type.bind SchemaType.kind?

end Schema

/-- The name a pointer ends in: what follows its last slash. -/
def refName (ref : String) : String := String.ofList (Text.afterLast '/' ref.toList)

structure MediaType where
  schema : Option Schema := none

abbrev Content := Option (OrderedMap MediaType)

def jsonMediaType : String := "application/json"

def Content.json? (c : Content) : Option Schema :=
  match c with
  | none => none
  | some m => (m.get? jsonMediaType).bind (·.schema)

structure RequestBody where
  content : Content := none

structure Response where
  content : Content := none

/-- A parameter, or a reference to one. -/
structure Parameter where
  name : String := ""
  location : String := ""
  required : Bool := false
  schema : Option Schema := none
  ref : Option String := none

structure Operation where
  operationId : Option String := none
  parameters : Option (List Parameter) := none
  requestBody : Option RequestBody := none
  responses : OrderedMap Response := []

namespace Operation

def jsonBody? (o : Operation) : Option Schema := o.requestBody.bind fun b => b.content.json?

/-- The schema of the JSON body of the `200` response. -/
def jsonOk? (o : Operation) : Option Schema := (o.responses.get? "200").bind fun r => r.content.json?

end Operation

/-- The operations under one path and the parameters they share. -/
structure PathItem where
  operations : List (Method × Operation) := []
  parameters : Option (List Parameter) := none

structure Components where
  schemas : Option (OrderedMap Schema) := none
  parameters : Option (OrderedMap Parameter) := none

structure Document where
  paths : OrderedMap PathItem := []
  components : Option Components := none

namespace Document

def schemas (d : Document) : OrderedMap Schema := (d.components.bind (·.schemas)).getD []

def hasSchema (d : Document) (name : String) : Bool := d.schemas.contains name

def parameters (d : Document) : OrderedMap Parameter := (d.components.bind (·.parameters)).getD []

/-- What a parameter stands for: itself, or the component its reference names. The target must not
be a reference in turn, and a parameter without a name stands for nothing. -/
def resolve? (d : Document) (p : Parameter) : Option Parameter :=
  let target := match p.ref with
    | none => some p
    | some ref => (d.parameters.get? (refName ref)).filter (·.ref.isNone)
  target.filter (·.name != "")

def resolveAll (d : Document) (ps : Option (List Parameter)) : List Parameter :=
  (ps.getD []).filterMap d.resolve?

def samePlace (p q : Parameter) : Bool := p.name == q.name && p.location == q.location

/-- Shared parameters followed by the operation's own, which replace shared ones of the same place. -/
def mergeParameters (d : Document) (shared : Option (List Parameter)) (o : Operation) :
    List Parameter :=
  let own := d.resolveAll o.parameters
  (d.resolveAll shared).filter (fun p => !own.any (samePlace p)) ++ own

end Document
end TypedEndpoints.OpenApi
