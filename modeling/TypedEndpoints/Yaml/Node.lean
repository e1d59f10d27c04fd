import TypedEndpoints.Yaml.Token.Scanner
/-!
The node of a YAML document, built from its tokens. Anchors and aliases are kept as names; tags are
written out in full.
-/
namespace TypedEndpoints.Yaml

structure Props where
  anchor : Option String := none
  tag : Option Bytes := none
deriving Repr, DecidableEq

inductive Node where
  | alias (name : String)
  | scalar (props : Props) (style : Style) (text : String)
  | sequence (props : Props) (items : List Node)
  | mapping (props : Props) (entries : List (Node × Node))

namespace Node

/-- What stands where nothing is written. -/
def empty : Node := .scalar {} .plain ""

/-- The prefixes of tag handles. -/
abbrev Handles := List (String × Bytes)

def defaultHandles : Handles :=
  [("!", Text.encode ['!']), ("!!", Text.encode "tag:yaml.org,2002:".toList)]

def fullTag (hs : Handles) (handle : String) (suffix : Bytes) : Except Fault Bytes :=
  if handle = "" then .ok suffix
  else match hs.lookup handle with
    | some start => .ok (start ++ suffix)
    | none => .error .unknownTagHandle

/-- An anchor and a tag, in either order. -/
def props (hs : Handles) (ts : List Token) : Except Fault (Props × List Token) :=
  match ts with
  | .anchor a :: .tag h s :: r => do return ({ anchor := some a, tag := some (← fullTag hs h s) }, r)
  | .tag h s :: .anchor a :: r => do return ({ anchor := some a, tag := some (← fullTag hs h s) }, r)
  | .anchor a :: r => .ok ({ anchor := some a }, r)
  | .tag h s :: r => do return ({ tag := some (← fullTag hs h s) }, r)
  | r => .ok ({}, r)

def next (stops : List Token) (ts : List Token) : Bool :=
  match ts with
  | t :: _ => stops.contains t
  | [] => false

mutual
/-- A node; `block` allows block collections, `indentless` a block sequence that is not indented. -/
def ofTokens (hs : Handles) : Nat → (block indentless : Bool) → List Token →
    Except Fault (Node × List Token)
  | 0, _, _, _ => .error .outOfFuel
  | fuel + 1, block, indentless, ts =>
    match ts with
    | .alias name :: r => .ok (.alias name, r)
    | _ => do
      let (p, r) ← props hs ts
      if indentless && next [.blockEntry] r then do
        let (xs, r) ← indentlessItems hs fuel [] r
        return (.sequence p xs, r)
      else match r with
        | .scalar style text :: r => return (.scalar p style text, r)
        | .openSequence :: r => do
          let (xs, r) ← flowItems hs fuel true [] r
          return (.sequence p xs, r)
        | .openMapping :: r => do
          let (es, r) ← flowEntries hs fuel true [] r
          return (.mapping p es, r)
        | t :: r' =>
          if block && t = .blockSequence then do
            let (xs, r) ← blockItems hs fuel [] r'
            return (.sequence p xs, r)
          else if block && t = .blockMapping then do
            let (es, r) ← blockEntries hs fuel [] r'
            return (.mapping p es, r)
          else if p = {} then .error .unexpectedToken
          else return (.scalar p .plain "", r)
        | [] => if p = {} then .error .unexpectedToken else return (.scalar p .plain "", [])

/-- A node, or nothing before one of the given tokens. -/
def nodeUnless (hs : Handles) : Nat → (stops : List Token) → (block indentless : Bool) → List Token →
    Except Fault (Node × List Token)
  | 0, _, _, _, _ => .error .outOfFuel
  | fuel + 1, stops, block, indentless, ts =>
    if next stops ts then .ok (empty, ts) else ofTokens hs fuel block indentless ts

def blockItems (hs : Handles) : Nat → List Node → List Token → Except Fault (List Node × List Token)
  | 0, _, _ => .error .outOfFuel
  | fuel + 1, acc, ts =>
    match ts with
    | .blockEntry :: r => do
      let (x, r) ← nodeUnless hs fuel [.blockEntry, .blockEnd] true false r
      blockItems hs fuel (x :: acc) r
    | .blockEnd :: r => .ok (acc.reverse, r)
    | _ => .error .unexpectedToken

def indentlessItems (hs : Handles) : Nat → List Node → List Token →
    Except Fault (List Node × List Token)
  | 0, _, _ => .error .outOfFuel
  | fuel + 1, acc, ts =>
    match ts with
    | .blockEntry :: r => do
      let (x, r) ← nodeUnless hs fuel [.blockEntry, .key, .value, .blockEnd] true false r
      indentlessItems hs fuel (x :: acc) r
    | _ => .ok (acc.reverse, ts)

def blockEntries (hs : Handles) : Nat → List (Node × Node) → List Token →
    Except Fault (List (Node × Node) × List Token)
  | 0, _, _ => .error .outOfFuel
  | fuel + 1, acc, ts =>
    match ts with
    | .key :: r => do
      let (k, r) ← nodeUnless hs fuel [.key, .value, .blockEnd] true true r
      let (v, r) ← match r with
        | .value :: r => nodeUnless hs fuel [.key, .value, .blockEnd] true true r
        | r => .ok (empty, r)
      blockEntries hs fuel ((k, v) :: acc) r
    | .blockEnd :: r => .ok (acc.reverse, r)
    | _ => .error .unexpectedToken

/-- Items up to the closing bracket. A key makes a mapping of one entry; where its name is missing,
the token after the mark is lost. -/
def flowItems (hs : Handles) : Nat → (first : Bool) → List Node → List Token →
    Except Fault (List Node × List Token)
  | 0, _, _, _ => .error .outOfFuel
  | fuel + 1, first, acc, ts => do
    if next [.closeSequence] ts then return (acc.reverse, ts.drop 1)
    else if !first && !next [.flowEntry] ts then .error .unexpectedToken
    else
      let ts := if first then ts else ts.drop 1
      match ts with
      | .closeSequence :: r => return (acc.reverse, r)
      | .key :: r => do
        let (k, r) ←
          if next [.value, .flowEntry, .closeSequence] r then .ok (empty, r.drop 1)
          else ofTokens hs fuel false false r
        let (v, r) ← match r with
          | .value :: r => nodeUnless hs fuel [.flowEntry, .closeSequence] false false r
          | r => .ok (empty, r)
        flowItems hs fuel false (.mapping {} [(k, v)] :: acc) r
      | ts => do
        let (x, r) ← ofTokens hs fuel false false ts
        flowItems hs fuel false (x :: acc) r

def flowEntries (hs : Handles) : Nat → (first : Bool) → List (Node × Node) → List Token →
    Except Fault (List (Node × Node) × List Token)
  | 0, _, _, _ => .error .outOfFuel
  | fuel + 1, first, acc, ts => do
    if next [.closeMapping] ts then return (acc.reverse, ts.drop 1)
    else if !first && !next [.flowEntry] ts then .error .unexpectedToken
    else
      let ts := if first then ts else ts.drop 1
      match ts with
      | .closeMapping :: r => return (acc.reverse, r)
      | .key :: r => do
        let (k, r) ← nodeUnless hs fuel [.value, .flowEntry, .closeMapping] false false r
        let (v, r) ← match r with
          | .value :: r => nodeUnless hs fuel [.flowEntry, .closeMapping] false false r
          | r => .ok (empty, r)
        flowEntries hs fuel false ((k, v) :: acc) r
      | ts => do
        let (k, r) ← ofTokens hs fuel false false ts
        flowEntries hs fuel false ((k, empty) :: acc) r
end

/-- The directives before a document: at most one version, 1.1 or 1.2, and each handle once. -/
def directives : (versionSeen : Bool) → Handles → List Token →
    Except Fault (Handles × List Token)
  | seen, hs, .version major minor :: r =>
    if seen then .error .duplicateDirective
    else if major = 1 ∧ (minor = 1 ∨ minor = 2) then directives true hs r
    else .error .unsupportedVersion
  | seen, hs, .tagHandle handle start :: r =>
    if (hs.lookup handle).isSome then .error .duplicateDirective
    else directives seen (hs ++ [(handle, start)]) r
  | _, hs, ts => .ok (hs ++ defaultHandles, ts)

def startsDocument : List Token → Bool
  | .version _ _ :: _ => true
  | .tagHandle _ _ :: _ => true
  | .documentStart :: _ => true
  | _ => false

/-- Every token is passed by at most four calls. -/
def fuelFor (ts : List Token) : Nat := 4 * ts.length + 8

def firstDocument (ts : List Token) : Except Fault (Node × List Token) := do
  if startsDocument ts then
    let (hs, r) ← directives false [] ts
    match r with
    | .documentStart :: r =>
      if r.isEmpty || startsDocument r || next [.documentEnd] r then return (empty, r)
      else ofTokens hs (fuelFor r) true false r
    | _ => .error .missingDocumentStart
  else ofTokens defaultHandles (fuelFor ts) true false ts

/-- The node of a text; `none` when it holds no document. -/
def parse (cs : List Char) : Except Fault (Option Node) := do
  let ts ← Token.scan cs
  if ts.isEmpty then return none
  else
    let (n, r) ← firstDocument ts
    if r.all (· = .documentEnd) then return some n else .error .secondDocument

end Node
end TypedEndpoints.Yaml
