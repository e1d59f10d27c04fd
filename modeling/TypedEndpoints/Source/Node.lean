/-!
Parsed documents before they are given meaning, whatever format they were written in. A scalar says
what it may be read as; each format fills in these answers by its own rules. A link stands for a node
elsewhere in the document; `ρ` is its address, and formats without links take the empty type.
-/
namespace TypedEndpoints.Source

inductive Absence where
  | absent
  | present
  | invalid
deriving Repr, DecidableEq

structure Scalar where
  text : Option String
  flag : Option Bool
  /-- As the name of a type, where an unquoted scalar is resolved first. -/
  kind : Option String
  /-- As an optional field. -/
  absence : Absence
  /-- Stands for a list or map without entries. -/
  hollow : Bool
deriving Repr, DecidableEq

/-- What a list may be read as besides a plain list. -/
structure ListRole where
  /-- The fields of a record in their order. -/
  record : Bool
  /-- Items past the last field are passed over. -/
  surplus : Bool
  kinds : Bool
deriving Repr, DecidableEq

inductive Node (ρ : Type) where
  | scalar (s : Scalar)
  | list (role : ListRole) (items : List (Node ρ))
  | map (entries : List (Node ρ × Node ρ))
  | link (target : ρ)

def Scalar.ofText (s : String) : Scalar := ⟨some s, none, some s, .present, false⟩

def Scalar.opaqueValue : Scalar := ⟨none, none, none, .present, false⟩

end TypedEndpoints.Source
