import TypedEndpoints.Http.Response
/-!
Clients: a base address, a transport and at most one interceptor. A call is one run of the
interceptor, which may send its descriptor, or changed ones, as often as it likes; without an
interceptor the descriptor is sent once. `m` is the monad of the transport's effects.
-/
namespace TypedEndpoints

/-- Why a call fails: no response arrived, an error status arrived, or the body is not what it is
read as. -/
inductive FetchError where
  | transport (message : String)
  | http (r : FetchResult)
  | decode (e : DecodeError)

namespace FetchError

def message : FetchError → String
  | .transport text => "transport error: " ++ text
  | .http r => "HTTP " ++ toString r.status ++ " " ++ r.label.name
  | .decode e => "failed to decode response: " ++ e.message

def isTransport : FetchError → Bool
  | .transport _ => true
  | _ => false

def status? : FetchError → Option Nat
  | .http r => some r.status
  | _ => none

def result? : FetchError → Option FetchResult
  | .http r => some r
  | _ => none

end FetchError

abbrev Outcome := Except FetchError FetchResult

/-- What a response means for a descriptor. An error status stays one whatever its body. -/
def Descriptor.settle (d : Descriptor) (r : RawResponse) : Outcome :=
  let inferred := inferMode r.headers
  let label := StatusLabel.ofStatus r.status
  if isSuccessStatus r.status then
    match decodeBody r.body (d.responseMode <|> inferred) with
    | .ok data => .ok ⟨r.status, label, r.headers, data⟩
    | .error e => .error (.decode e)
  else
    .error (.http ⟨r.status, label, r.headers, decodeErrorBody r.body (d.errorMode <|> inferred)⟩)

section
variable {m : Type → Type}

/-- Sends a request; an error says that no response arrived. -/
structure Transport (m : Type → Type) where
  send : SentRequest → m (Except String RawResponse)

/-- Handles a descriptor, given the continuation that sends one. -/
abbrev Interceptor (m : Type → Type) := Descriptor → (Descriptor → m Outcome) → m Outcome

def Transport.run [Monad m] (t : Transport m) (d : Descriptor) : m Outcome := do
  match ← t.send d.prepare with
  | .ok r => return d.settle r
  | .error text => return .error (.transport text)

structure Client (m : Type → Type) where
  base : String
  interceptor : Option (Interceptor m)
  transport : Transport m

structure ClientBuilder (m : Type → Type) where
  base : Option String := none
  interceptor : Option (Interceptor m) := none
  transport : Option (Transport m) := none

namespace ClientBuilder

def withBase (base : String) (b : ClientBuilder m) : ClientBuilder m := { b with base := some base }

/-- The interceptor installed last is the only one. -/
def withInterceptor (i : Interceptor m) (b : ClientBuilder m) : ClientBuilder m :=
  { b with interceptor := some i }

def withTransport (t : Transport m) (b : ClientBuilder m) : ClientBuilder m :=
  { b with transport := some t }

/-- The client; `fallback` is its transport if none was chosen. -/
def build (fallback : Transport m) (b : ClientBuilder m) : Client m :=
  { base := (b.base.map Url.normalizeBase).getD ""
    interceptor := b.interceptor
    transport := b.transport.getD fallback }

end ClientBuilder

namespace Client
variable [Monad m]

def request (c : Client m) (path : String) (method : Method) (o : Option RequestOptions) :
    m Outcome :=
  let d := Descriptor.ofOptions c.base path method (o.getD {})
  match c.interceptor with
  | some i => i d c.transport.run
  | none => c.transport.run d

def requestAs {α : Type} (view : Json.View α) (c : Client m) (path : String) (method : Method)
    (o : Option RequestOptions) : m (Except FetchError (FetchResult × α)) := do
  match ← c.request path method o with
  | .error e => return .error e
  | .ok r =>
    match r.json view with
    | .ok a => return .ok (r, a)
    | .error e => return .error (.decode e)

end Client
end
end TypedEndpoints
