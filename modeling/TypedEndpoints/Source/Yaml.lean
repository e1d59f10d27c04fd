import TypedEndpoints.Source.Reading
import TypedEndpoints.Yaml.Core
import TypedEndpoints.Yaml.Node
/-!
YAML nodes as source nodes. Any scalar is text; an unquoted one may also be a truth value or nothing,
and an empty one an empty list or map. Aliases become links. Links are followed where they are read,
and only a hundred times as often as the document has events.
-/
namespace TypedEndpoints.Source
open Yaml (Style Props)

def coreTag (name : String) : Bytes := Text.encode ("tag:yaml.org,2002:" ++ name).toList

def isMarked (tag : Bytes) : Bool := tag.head? == some 0x21

/-- A tag of the document's own: it starts with an exclamation mark and is text. -/
def isLocalTag : Option Bytes → Bool
  | some t => isMarked t && (Text.decode t).isOk
  | none => false

def isValueTag (t : Bytes) : Bool :=
  t == coreTag "bool" || t == coreTag "int" || t == coreTag "float" || t == coreTag "null"

namespace Scalar

def yamlFlag (tag : Option Bytes) (style : Style) (text : String) : Option Bool :=
  if style = .plain ∨ (style = .literal ∧ tag = some (coreTag "bool")) then Yaml.Core.bool? text
  else none

def yamlAbsence (tag : Option Bytes) (style : Style) (text : String) : Absence :=
  if style ≠ .plain then .present
  else match tag with
    | some t =>
      if t = coreTag "null" then if Yaml.Core.isNull text then .absent else .invalid else .present
    | none => if text = "" ∨ Yaml.Core.isNull text then .absent else .present

def yamlKind (tag : Option Bytes) (style : Style) (text : String) : Option String :=
  let untagged := if style ≠ .plain || Yaml.Core.isText text then some text else none
  match tag with
  | none => untagged
  | some t =>
    if isLocalTag tag || isValueTag t then none
    else if isMarked t then untagged
    else some text

def ofYaml (tag : Option Bytes) (style : Style) (text : String) : Scalar :=
  { text := some text
    flag := yamlFlag tag style text
    kind := yamlKind tag style text
    absence := yamlAbsence tag style text
    hollow := style = .plain ∧ text = "" }

def void : Scalar := ⟨none, none, none, .absent, true⟩

end Scalar

/-- Addresses by the name of their anchor. An address is the number of names in use when it is given
out, so that it may be given out again after a name is reused; the last node that has it counts. -/
abbrev Anchors := List (String × Nat)

abbrev LinkTable := List (Nat × Node Nat)

def Anchors.put (name : String) (address : Nat) : Anchors → Anchors
  | [] => [(name, address)]
  | (k, a) :: as => if k = name then (name, address) :: as else (k, a) :: Anchors.put name address as

/-- A node under construction: what it is, the anchors after it, and the addresses it has. -/
structure Linked (α : Type) where
  node : α
  anchors : Anchors
  table : LinkTable

/-- Give a node the address of its anchor. The anchor is known inside the node. -/
def withAnchor (anchor : Option String) (as : Anchors)
    (inner : Anchors → Except Yaml.Fault (Linked (Node Nat))) :
    Except Yaml.Fault (Linked (Node Nat)) :=
  match anchor with
  | none => inner as
  | some name => do
    let l ← inner (as.put name as.length)
    return { l with table := (as.length, l.node) :: l.table }

mutual
def ofYaml (as : Anchors) : Yaml.Node → Except Yaml.Fault (Linked (Node Nat))
  | .alias name =>
    match as.lookup name with
    | some a => .ok ⟨.link a, as, []⟩
    | none => .error .unknownAnchor
  | .scalar p style text =>
    withAnchor p.anchor as fun as => .ok ⟨.scalar (.ofYaml p.tag style text), as, []⟩
  | .sequence p xs =>
    withAnchor p.anchor as fun as => do
      let l ← ofYamlItems as xs
      let role := { record := false, surplus := false, kinds := !isLocalTag p.tag }
      return { l with node := .list role l.node }
  | .mapping p es =>
    withAnchor p.anchor as fun as => do
      let l ← ofYamlEntries as es
      return { l with node := .map l.node }

def ofYamlItems (as : Anchors) : List Yaml.Node → Except Yaml.Fault (Linked (List (Node Nat)))
  | [] => .ok ⟨[], as, []⟩
  | x :: xs => do
    let l ← ofYaml as x
    let r ← ofYamlItems l.anchors xs
    return ⟨l.node :: r.node, r.anchors, l.table ++ r.table⟩

def ofYamlEntries (as : Anchors) : List (Yaml.Node × Yaml.Node) →
    Except Yaml.Fault (Linked (List (Node Nat × Node Nat)))
  | [] => .ok ⟨[], as, []⟩
  | (k, v) :: es => do
    let lk ← ofYaml as k
    let lv ← ofYaml lk.anchors v
    let r ← ofYamlEntries lv.anchors es
    return ⟨(lk.node, lv.node) :: r.node, r.anchors, lk.table ++ lv.table ++ r.table⟩
end

mutual
/-- The number of events of a node: one for a scalar or alias, two for a collection and those inside. -/
def eventCount : Yaml.Node → Nat
  | .alias _ => 1
  | .scalar _ _ _ => 1
  | .sequence _ xs => 2 + itemEvents xs
  | .mapping _ es => 2 + entryEvents es

def itemEvents : List Yaml.Node → Nat
  | [] => 0
  | x :: xs => eventCount x + itemEvents xs

def entryEvents : List (Yaml.Node × Yaml.Node) → Nat
  | [] => 0
  | (k, v) :: es => eventCount k + eventCount v + entryEvents es
end

/-- Reading with a table of links and a number of links that may still be followed. -/
abbrev LinkReader := ReaderT LinkTable (StateT Nat (Except Fault))

instance : Links Nat LinkReader where
  follow a := do
    match ← get with
    | 0 => throw .tooManyLinks
    | n + 1 =>
      set n
      match (← read).reverse.lookup a with
      | some (.link _) => throw (.expected "a node")
      | some node => pure node
      | none => throw (.expected "a node")

def LinkReader.run {α : Type} (r : LinkReader α) (table : LinkTable) (events : Nat) :
    Except Fault α := do
  let (a, _) ← (ReaderT.run r table).run (100 * events)
  return a

end TypedEndpoints.Source
