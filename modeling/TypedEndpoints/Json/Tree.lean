import TypedEndpoints.Json.Numeral
/-!
A JSON text as it is written: members in source order, keys as often as they occur, numerals unread.
`Tree.value?` gives it meaning: keys sorted, the last of equal keys, numbers and texts that exist.
-/
namespace TypedEndpoints.Json

/-- A well-formed JSON text. A string is `none` when an escape names half of a surrogate pair. -/
inductive Tree where
  | null
  | bool (b : Bool)
  | number (n : Numeral)
  | text (s : Option String)
  | list (items : List Tree)
  | object (members : List (Option String × Tree))

/-- A JSON value: the members of an object are sorted by key and their keys are distinct. -/
inductive Value where
  | null
  | bool (b : Bool)
  | number (n : Number)
  | text (s : String)
  | list (items : List Value)
  | object (members : List (String × Value))

namespace Value

/-- Put a member at its place in the order of keys; an equal key takes the new value. -/
def insertMember (key : String) (value : Value) :
    List (String × Value) → List (String × Value)
  | [] => [(key, value)]
  | (k, v) :: ms =>
    if key < k then (key, value) :: (k, v) :: ms
    else if k = key then (key, value) :: ms
    else (k, v) :: insertMember key value ms

/-- The object of members given in any order; later ones win. -/
def ofMembers (ms : List (String × Value)) : Value :=
  .object (ms.foldl (fun acc p => insertMember p.1 p.2 acc) [])

end Value

namespace Tree

mutual
/-- The value of a text nested at most `depth` levels deep. -/
def value? (depth : Nat) : Tree → Option Value
  | .null => some .null
  | .bool b => some (.bool b)
  | .number n => n.value?.map .number
  | .text s => s.map .text
  | .list items => if depth = 0 then none else (values? (depth - 1) items).map .list
  | .object members =>
    if depth = 0 then none else (members? (depth - 1) members).map Value.ofMembers

def values? (depth : Nat) : List Tree → Option (List Value)
  | [] => some []
  | t :: ts => do
    let v ← value? depth t
    let vs ← values? depth ts
    pure (v :: vs)

def members? (depth : Nat) : List (Option String × Tree) → Option (List (String × Value))
  | [] => some []
  | (key, t) :: ms => do
    let key ← key
    let v ← value? depth t
    let rest ← members? depth ms
    pure ((key, v) :: rest)
end

end Tree

/-- Values that are kept may nest this deep. -/
def maxDepth : Nat := 127

end TypedEndpoints.Json
