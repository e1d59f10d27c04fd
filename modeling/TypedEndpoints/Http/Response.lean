import TypedEndpoints.Http.Request
import TypedEndpoints.Json.Reader
import TypedEndpoints.Json.Typed
import TypedEndpoints.Text.Cut
/-!
Responses: the label of a status, the mode a content type implies, and the decoding of bodies. A body
of an error response is decoded as far as it goes and kept as it is otherwise.
-/
namespace TypedEndpoints

inductive StatusLabel where
  | success
  | badRequest
  | unauthorized
  | forbidden
  | notFound
  | conflict
  | unprocessableEntity
  | internalServerError
  | unknown
deriving Repr, DecidableEq

namespace StatusLabel

/-- Successes other than 200 have no label of their own. -/
def ofStatus : Nat → StatusLabel
  | 200 => .success
  | 400 => .badRequest
  | 401 => .unauthorized
  | 403 => .forbidden
  | 404 => .notFound
  | 409 => .conflict
  | 422 => .unprocessableEntity
  | 500 => .internalServerError
  | _ => .unknown

def name : StatusLabel → String
  | .success => "Success"
  | .badRequest => "BadRequest"
  | .unauthorized => "UnAuthorized"
  | .forbidden => "Forbidden"
  | .notFound => "NotFound"
  | .conflict => "Conflict"
  | .unprocessableEntity => "UnprocessableEntity"
  | .internalServerError => "InternalServerError"
  | .unknown => "Unknown"

end StatusLabel

/-- Header names in lower case with their values, in order of arrival. -/
abbrev Headers := List (String × Bytes)

namespace Headers

def ofPairs (ps : List (String × Bytes)) : Headers :=
  ps.map fun p => (String.ofList (headerKey p.1), p.2)

/-- The first value of a name given in lower case. -/
def first? (h : Headers) (name : String) : Option Bytes := h.lookup name

/-- A header value as text; only visible ASCII, spaces and tabs are text. -/
def valueText? (b : Bytes) : Option (List Char) :=
  if b.all fun x => (0x20 ≤ x && x ≤ 0x7E) || x == 0x09 then some (b.map fun x => Char.ofNat x.toNat)
  else none

end Headers

def mediaType (cs : List Char) : String :=
  String.ofList ((Text.trim (Text.beforeFirst ';' cs)).map asciiLower)

def Mode.ofMediaType? : String → Option Mode
  | "application/json" => some .json
  | "application/octet-stream" => some .blob
  | "text/plain" => some .text
  | "text/html" => some .text
  | _ => none

def inferMode (h : Headers) : Option Mode :=
  ((h.first? "content-type").bind Headers.valueText?).bind fun cs => Mode.ofMediaType? (mediaType cs)

inductive Body where
  | text (s : String)
  | json (v : Json.Value)
  | blob (b : Bytes)

def Body.kind : Body → String
  | .text _ => "text"
  | .json _ => "json"
  | .blob _ => "blob"

/-- What is wrong with JSON: its text, or the shape of its value. -/
inductive JsonFault where
  | malformed
  | mismatch
deriving Repr, DecidableEq

def JsonFault.message : JsonFault → String
  | .malformed => "the text is not well-formed"
  | .mismatch => "the value has another type"

inductive DecodeError where
  | json (f : JsonFault)
  | utf8 (f : Text.Utf8Fault)
  | notJson (kind : String)
deriving Repr, DecidableEq

def DecodeError.message : DecodeError → String
  | .json f => "invalid JSON body: " ++ f.message
  | .utf8 f => "body is not valid UTF-8: " ++ f.message
  | .notJson kind => "expected a JSON body, got " ++ kind

/-- Decode a body; without a mode it is taken for JSON. -/
def decodeBody (b : Bytes) (mode : Option Mode) : Except DecodeError Body :=
  match mode with
  | some .text =>
    match Text.decode b with
    | .ok cs => .ok (.text (String.ofList cs))
    | .error f => .error (.utf8 f)
  | some .blob => .ok (.blob b)
  | some .json | none =>
    match Json.Value.ofBytes? b with
    | some v => .ok (.json v)
    | none => .error (.json .malformed)

/-- Decode the body of an error response: what does not decode is kept as text, or else as bytes. -/
def decodeErrorBody (b : Bytes) (mode : Option Mode) : Body :=
  match decodeBody b mode with
  | .ok body => body
  | .error _ =>
    match Text.decode b with
    | .ok cs => .text (String.ofList cs)
    | .error _ => .blob b

structure RawResponse where
  status : Nat
  headers : Headers
  body : Bytes

def isSuccessStatus (status : Nat) : Bool := 200 ≤ status && status < 300

structure FetchResult where
  status : Nat
  label : StatusLabel
  headers : Headers
  data : Body

namespace FetchResult

def isSuccess (r : FetchResult) : Bool := isSuccessStatus r.status

def json {α : Type} (view : Json.View α) (r : FetchResult) : Except DecodeError α :=
  match r.data with
  | .json v =>
    match view v with
    | some a => .ok a
    | none => .error (.json .mismatch)
  | b => .error (.notJson b.kind)

end FetchResult
end TypedEndpoints
