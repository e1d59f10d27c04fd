import TypedEndpoints.Http.Template
import TypedEndpoints.Text.Cut
/-!
Request addresses: a template joined to a base, filled with parameters; those that fill nothing make
up the query. Nothing is percent-encoded.
-/
namespace TypedEndpoints.Url

/-- A base without one trailing slash. -/
def normalizeBase (base : String) : String :=
  match base.toList.reverse with
  | '/' :: r => String.ofList r.reverse
  | _ => base

/-- An address of its own, or a path behind the base with one slash put between if there is none. -/
def join (base template : String) : String :=
  if Text.startsWith "http" template then template
  else if Text.startsWith "/" template then base ++ template
  else base ++ "/" ++ template

def queryItem (p : String × ParamValue) : List Char := p.1.toList ++ '=' :: p.2.chars

def query (leftover : List (String × ParamValue)) : List Char :=
  if leftover.isEmpty then [] else '?' :: Text.joinWith ['&'] (leftover.map queryItem)

/-- The parameters that fill no placeholder, in their order. -/
def leftover (r : Template.Resolved) (params : Params) : List (String × ParamValue) :=
  params.filter fun p => !r.replaced.contains p.1

def build (base template : String) (params : Option Params) : String :=
  let joined := join base template
  match params with
  | none => joined
  | some params =>
    let r := Template.resolve joined params
    r.value ++ String.ofList (query (leftover r params))

end TypedEndpoints.Url
