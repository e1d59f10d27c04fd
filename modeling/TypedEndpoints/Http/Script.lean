import TypedEndpoints.Http.Client
/-!
Interceptors written as lists of actions: edits of the descriptor, runs of the continuation, and
changes of what came back. An action list starts from a failure, so it should run something.
-/
namespace TypedEndpoints

structure RetryRule where
  max : Nat
  minStatus : Nat := 0
  transport : Bool := false

inductive Action where
  | setHeader (name value : String)
  | removeHeader (name : String)
  | setBase (base : String)
  | setPath (path : String)
  | setMethod (method : Method)
  | setParams (params : Option Params)
  | addParam (name : String) (value : ParamValue)
  | setBody (body : Option RequestBody)
  | setResponseMode (mode : Option Mode)
  | setErrorMode (mode : Option Mode)
  | logTarget
  | run
  | retry (rule : RetryRule)
  | answer (status : Nat) (headers : Headers) (body : Bytes) (mode : Option Mode)
  | fail (message : String)
  | recover
  | relabel (status : Nat)

namespace Action

/-- What an edit makes of a descriptor; the other actions leave it alone. -/
def edit (d : Descriptor) : Action → Descriptor
  | .setHeader name value => { d with headers := d.headers.insert name value }
  | .removeHeader name => { d with headers := d.headers.erase name }
  | .setBase base => { d with base }
  | .setPath path => { d with path }
  | .setMethod method => { d with method }
  | .setParams params => { d with params }
  | .addParam name value => { d with params := some ((d.params.getD []).insert name value) }
  | .setBody body => { d with body }
  | .setResponseMode responseMode => { d with responseMode }
  | .setErrorMode errorMode => { d with errorMode }
  | _ => d

def RetryRule.again (rule : RetryRule) : Outcome → Bool
  | .error (.http r) => rule.minStatus ≤ r.status
  | .error (.transport _) => rule.transport
  | _ => false

section
variable {m : Type → Type} [Monad m]

/-- Run up to `n` times, for as long as the outcome is tried again. -/
def retryRuns (rule : RetryRule) (next : m Outcome) : Nat → Outcome → m Outcome
  | 0, last => pure last
  | n + 1, _ => do
    let o ← next
    if RetryRule.again rule o then retryRuns rule next n o else pure o

def step (d : Descriptor) (next : Descriptor → m Outcome) (last : Outcome) : Action → m Outcome
  | .run => next d
  | .retry rule => retryRuns rule (next d) rule.max last
  | .answer status headers body mode =>
    pure (.ok ⟨status, .ofStatus status, headers, decodeErrorBody body mode⟩)
  | .fail text => pure (.error (.transport text))
  | .recover =>
    match last with
    | .error (.http r) => pure (.ok r)
    | o => pure o
  | .relabel status =>
    match last with
    | .ok r => pure (.ok { r with status, label := .ofStatus status })
    | o => pure o
  | _ => pure last

/-- The actions in order; `log` is told the address where one asks for it. -/
def runAll (log : String → m Unit) (next : Descriptor → m Outcome) :
    List Action → Descriptor → Outcome → m Outcome
  | [], _, last => pure last
  | a :: as, d, last => do
    let d := a.edit d
    match a with
    | .logTarget => log d.target
    | _ => pure ()
    let last ← a.step d next last
    runAll log next as d last

end
end Action

def emptyOutcome : Outcome := .error (.transport "interceptor returned nothing")

def Interceptor.ofActions {m : Type → Type} [Monad m] (log : String → m Unit) (as : List Action) :
    Interceptor m :=
  fun d next => Action.runAll log next as d emptyOutcome

end TypedEndpoints
