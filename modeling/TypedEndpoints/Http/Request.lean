import TypedEndpoints.Http.Method
import TypedEndpoints.Http.Url
import TypedEndpoints.Json.Printer
import TypedEndpoints.Text.Utf8
/-!
Requests: what a caller asks for, what an interceptor sees, and what is sent.
-/
namespace TypedEndpoints

inductive Mode where
  | text
  | json
  | blob
deriving Repr, DecidableEq

namespace Mode

def name : Mode → String
  | .text => "text"
  | .json => "json"
  | .blob => "blob"

def ofName? : String → Option Mode
  | "text" => some .text
  | "json" => some .json
  | "blob" => some .blob
  | _ => none

end Mode

inductive FormPart where
  | text (name value : String)
  | file (name : String) (data : Bytes) (fileName : String) (mime : Option String)
deriving DecidableEq

inductive RequestBody where
  | json (v : Json.Value)
  | multipart (parts : List FormPart)

namespace RequestBody

def ofParams (params : Params) : RequestBody :=
  .json (.ofMembers (params.map fun p => (p.1, p.2.toJson)))

def isMultipart : RequestBody → Bool
  | .multipart _ => true
  | .json _ => false

end RequestBody

structure RequestOptions where
  params : Option Params := none
  body : Option RequestBody := none
  headers : OrderedMap String := []
  responseMode : Option Mode := none
  errorMode : Option Mode := none

/-- A request as interceptors see it; its address is computed when it is sent. -/
structure Descriptor where
  base : String
  path : String
  method : Method
  headers : OrderedMap String
  body : Option RequestBody
  params : Option Params
  responseMode : Option Mode
  errorMode : Option Mode

namespace Descriptor

def ofOptions (base path : String) (method : Method) (o : RequestOptions) : Descriptor :=
  { base, path, method, headers := o.headers, body := o.body, params := o.params,
    responseMode := o.responseMode, errorMode := o.errorMode }

def target (d : Descriptor) : String := Url.build d.base d.path d.params

def isMultipart (d : Descriptor) : Bool :=
  match d.body with
  | some b => b.isMultipart
  | none => false

end Descriptor

inductive SentBody where
  | text (s : String)
  | multipart (parts : List FormPart)
deriving DecidableEq

structure SentRequest where
  url : String
  method : Method
  headers : List (String × String)
  body : Option SentBody
deriving DecidableEq

def asciiLower (c : Char) : Char := if 'A' ≤ c ∧ c ≤ 'Z' then Char.ofNat (c.toNat + 32) else c

/-- A header name without regard to case. -/
def headerKey (name : String) : List Char := name.toList.map asciiLower

def sameHeader (a b : String) : Bool := headerKey a == headerKey b

/-- One more header; it takes the place of any of the same name. -/
def putHeader (headers : List (String × String)) (h : String × String) : List (String × String) :=
  headers.filter (fun x => !sameHeader x.1 h.1) ++ [h]

def defaultHeader : String × String := ("Content-Type", "application/json")

/-- The headers that are sent: a JSON content type, unless a multipart body brings its own, and the
caller's. -/
def assembleHeaders (multipart : Bool) (headers : List (String × String)) : List (String × String) :=
  headers.foldl putHeader (if multipart then [] else [defaultHeader])

def SentBody.ofBody : RequestBody → SentBody
  | .json v => .text v.render
  | .multipart parts => .multipart parts

def Descriptor.prepare (d : Descriptor) : SentRequest :=
  { url := d.target, method := d.method, headers := assembleHeaders d.isMultipart d.headers,
    body := d.body.map .ofBody }

end TypedEndpoints
