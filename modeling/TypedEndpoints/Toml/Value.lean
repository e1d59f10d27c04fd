/-!
TOML values, and tables as they grow while a text is read. How a table came about decides what may
still be added to it.
-/
namespace TypedEndpoints.Toml

/-- How a table came about: by a header, as part of a longer header, by a dotted key, or in braces,
after which nothing may be added. -/
inductive TableKind where
  | header
  | implied
  | dotted
  | closed
deriving Repr, DecidableEq

inductive Value where
  | text (s : String)
  | bool (b : Bool)
  | integer (i : Int)
  | float (x : Float)
  | datetime (s : String)
  | list (items : List Value)
  | table (kind : TableKind) (entries : List (String × Value))
  | tables (elements : List (List (String × Value)))

abbrev Entries := List (String × Value)

namespace Entries

/-- Change the value of a key, which stays in its place; a new key goes last. -/
def modify (key : String) (f : Option Value → Option Value) : Entries → Option Entries
  | [] => (f none).map fun v => [(key, v)]
  | (k, v) :: es =>
    if k = key then (f (some v)).map fun v => (k, v) :: es
    else (modify key f es).map ((k, v) :: ·)

/-- Change the table behind a path. Missing tables are made; `dotted` says that the path is part of a
dotted key, which must not reach into a table that has a header. -/
def descend (dotted : Bool) (f : TableKind → Entries → Option Entries) (here : TableKind) :
    List String → Entries → Option Entries
  | [], es => f here es
  | key :: path, es =>
    let made := if dotted then TableKind.dotted else .implied
    modify key (fun v =>
      match v with
      | none => (descend dotted f made path []).map (.table made)
      | some (.table kind inner) =>
        if kind = .closed ∨ (dotted ∧ kind = .header) then none
        else (descend dotted f kind path inner).map (.table kind)
      | some (.tables elements) =>
        match elements.reverse with
        | last :: before =>
          (descend dotted f .header path last).map fun l => .tables ((l :: before).reverse)
        | [] => none
      | some _ => none) es

def addNew (key : String) (v : Value) (es : Entries) : Option Entries :=
  if es.any (·.1 == key) then none else some (es ++ [(key, v)])

/-- Add the value of a key, which may be dotted. Dotted keys only add to tables of dotted keys. -/
def addKey (path : List String) (key : String) (v : Value) (here : TableKind) (es : Entries) :
    Option Entries :=
  descend true (fun kind es =>
    if !path.isEmpty && kind != .dotted then none else addNew key v es) here path es

/-- Open the table of a header: it must be new, or implied by longer headers only. -/
def openTable (path : List String) (key : String) (es : Entries) : Option Entries :=
  descend false (fun _ es =>
    modify key (fun v =>
      match v with
      | none => some (.table .header [])
      | some (.table .implied inner) => some (.table .header inner)
      | some _ => none) es) .header path es

/-- Open a further table of a repeated header. -/
def openElement (path : List String) (key : String) (es : Entries) : Option Entries :=
  descend false (fun _ es =>
    modify key (fun v =>
      match v with
      | none => some (.tables [[]])
      | some (.tables elements) => some (.tables (elements ++ [[]]))
      | some _ => none) es) .header path es

end Entries
end TypedEndpoints.Toml
