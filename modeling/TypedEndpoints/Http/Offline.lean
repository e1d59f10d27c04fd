import TypedEndpoints.Http.Client
/-!
The transport of a program without a network: every request fails. Form parts are checked first, as
they are when a form is put together.
-/
namespace TypedEndpoints

namespace MediaRange

def isTokenChar (c : Char) : Bool :=
  c.isAlphanum || "!#$%&'*+-.^_`|~".toList.contains c

def isQuotedChar (c : Char) : Bool := 0x20 ≤ c.toNat && c != '\x7f'

/-- What follows a quoted value and the blanks behind it: nothing, or what stands behind a semicolon. -/
def afterQuoted? (cs : List Char) : Option (List Char) :=
  match cs.dropWhile (· == ' ') with
  | [] => some []
  | ';' :: r => some r
  | _ => none

def quotedRest? : List Char → Option (List Char)
  | [] => none
  | c :: r => if c = '"' then afterQuoted? r else if isQuotedChar c then quotedRest? r else none

/-- A value and its semicolon. A quoted one has a character at least, which may be a quote; an empty
one stands only at the end. -/
def afterValue? (cs : List Char) : Option (List Char) :=
  match cs with
  | '"' :: c :: r => if isQuotedChar c then quotedRest? r else none
  | cs =>
    match cs.takeWhile isTokenChar, cs.dropWhile isTokenChar with
    | _, [] => some []
    | _ :: _, ';' :: r => some r
    | _, _ => none

def afterParameter? (cs : List Char) : Option (List Char) :=
  match cs.takeWhile isTokenChar, cs.dropWhile isTokenChar with
  | _ :: _, '=' :: r => afterValue? r
  | _, _ => none

/-- Parameters up to the end; each takes a character at least. -/
def areParameters : Nat → List Char → Bool
  | 0, _ => false
  | fuel + 1, cs =>
    match cs.dropWhile (· == ' ') with
    | [] => true
    | cs =>
      match afterParameter? cs with
      | some r => areParameters fuel r
      | none => false

/-- A subtype, which may be empty, or one with parameters behind a semicolon. -/
def isSubtype (cs : List Char) : Bool :=
  match cs.takeWhile isTokenChar, cs.dropWhile isTokenChar with
  | _, [] => true
  | _ :: _, ';' :: r => areParameters (r.length + 1) r
  | _, _ => false

def isValid (s : String) : Bool :=
  match s.toList.takeWhile isTokenChar, s.toList.dropWhile isTokenChar with
  | _ :: _, '/' :: r => isSubtype r
  | _, _ => false

end MediaRange

def FormPart.hasValidMime : FormPart → Bool
  | .text _ _ => true
  | .file _ _ _ mime =>
    match mime with
    | some s => MediaRange.isValid s
    | none => true

inductive OfflineFault where
  | partMime
  | unreachable
deriving Repr, DecidableEq

def OfflineFault.ofRequest (r : SentRequest) : OfflineFault :=
  match r.body with
  | some (.multipart parts) => if parts.all FormPart.hasValidMime then .unreachable else .partMime
  | _ => .unreachable

def OfflineFault.message (detail : String) : OfflineFault → String
  | .partMime => "invalid part mime: " ++ detail
  | .unreachable => detail

def Transport.offline {m : Type → Type} [Monad m] (detail : String) : Transport m :=
  ⟨fun r => pure (.error ((OfflineFault.ofRequest r).message detail))⟩

end TypedEndpoints
