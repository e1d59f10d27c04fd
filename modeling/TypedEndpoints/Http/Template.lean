import TypedEndpoints.Http.Param
/-!
Templates: texts with placeholders `{name}`, the name a non-empty run of ASCII letters, digits and
underscores. A template is first taken apart and then filled, so filled-in text is never scanned.
-/
namespace TypedEndpoints.Template

def isNameChar (c : Char) : Bool := c.isAlphanum || c == '_'

inductive Piece where
  | char (c : Char)
  | hole (name : List Char)
deriving Repr, DecidableEq

def holeChars (name : List Char) : List Char := '{' :: name ++ ['}']

/-- The pieces from a place on. After a brace, `pending` holds the name characters read since. -/
def piecesFrom (pending : Option (List Char)) : List Char → List Piece
  | [] =>
    match pending with
    | none => []
    | some name => ('{' :: name).map .char
  | c :: cs =>
    match pending with
    | none => if c = '{' then piecesFrom (some []) cs else .char c :: piecesFrom none cs
    | some name =>
      if c = '}' ∧ name ≠ [] then .hole name :: piecesFrom none cs
      else if isNameChar c then piecesFrom (some (name ++ [c])) cs
      else if c = '{' then ('{' :: name).map .char ++ piecesFrom (some []) cs
      else ('{' :: name).map .char ++ .char c :: piecesFrom none cs

def pieces (cs : List Char) : List Piece := piecesFrom none cs

def Piece.holeName? : Piece → Option String
  | .char _ => none
  | .hole name => some (String.ofList name)

/-- The names of the placeholders, from left to right. -/
def holeNames (ps : List Piece) : List String := ps.filterMap Piece.holeName?

/-- A piece with its value put in, if it has one. -/
def Piece.fill (params : Params) : Piece → List Char
  | .char c => [c]
  | .hole name =>
    match params.get? (String.ofList name) with
    | some v => v.chars
    | none => holeChars name

/-- Each name once, at its first place. -/
def firsts : List String → List String
  | [] => []
  | k :: ks => k :: (firsts ks).filter (· != k)

structure Resolved where
  value : String
  replaced : List String
  unreplaced : List String
deriving Repr, DecidableEq

def resolve (template : String) (params : Params) : Resolved :=
  let ps := pieces template.toList
  let names := holeNames ps
  { value := String.ofList (ps.flatMap (Piece.fill params))
    replaced := firsts (names.filter params.contains)
    unreplaced := firsts (names.filter fun k => !params.contains k) }

end TypedEndpoints.Template
