import TypedEndpoints.Decimal.Reading
import TypedEndpoints.Yaml.Token
/-!
Block scalars. Literal ones keep their lines, folded ones join lines that neither start with a blank;
the breaks at the end are clipped to one, stripped or kept.
-/
namespace TypedEndpoints.Yaml.Block

/-- What becomes of the breaks at the end. -/
inductive Chomping where
  | strip
  | clip
  | keep
deriving Repr, DecidableEq

structure Header where
  chomping : Chomping := .clip
  increment : Nat := 0

def chomping? : Char → Option Chomping
  | '+' => some .keep
  | '-' => some .strip
  | _ => none

def increment? (c : Char) : Option Nat :=
  if c.isDigit && c != '0' then some (Decimal.digitValue c) else none

/-- A chomping mark and an indentation digit, in either order. -/
def header (c : Cursor) : Except Fault (Header × Cursor) :=
  match c.rest with
  | [] => .ok ({}, c)
  | x :: r =>
    match chomping? x with
    | some m =>
      match r with
      | y :: _ =>
        if y == '0' then .error .badBlockHeader
        else match increment? y with
          | some n => .ok (⟨m, n⟩, c.skipBy 2)
          | none => .ok (⟨m, 0⟩, c.skip)
      | [] => .ok (⟨m, 0⟩, c.skip)
    | none =>
      if x == '0' then .error .badBlockHeader
      else match increment? x with
        | some n =>
          match r.head?.bind chomping? with
          | some m => .ok (⟨m, n⟩, c.skipBy 2)
          | none => .ok (⟨.clip, n⟩, c.skip)
        | none => .ok ({}, c)

/-- Indentation and empty lines in front of a line. `indent` is zero while it is not yet known; then
it becomes the widest indentation seen. -/
def breaks (indent : Nat) : Nat → Cursor → Nat → List Char → Except Fault (Nat × List Char × Cursor)
  | 0, _, _, _ => .error .outOfFuel
  | fuel + 1, c, widest, acc =>
    let inIndent := fun (c : Cursor) => indent == 0 || c.column < indent
    let spaces := (c.rest.takeWhile (· == ' ')).length
    let c := c.skipBy (if indent == 0 then spaces else min spaces (indent - c.column))
    let widest := max widest c.column
    match c.rest with
    | [] => .ok (widest, acc, c)
    | x :: _ =>
      if inIndent c && x == '\t' then .error .tabInIndentation
      else if isBreak x then
        let (t, c) := c.takeBreak
        breaks indent fuel c widest (acc ++ t)
      else .ok (widest, acc, c)

def startsBlank : List Char → Bool
  | x :: _ => isSpace x
  | [] => false

/-- The text put between two lines: the break between them and the empty lines. -/
def between (literal : Bool) (first more : List Char) (blankBefore blankAfter : Bool) : List Char :=
  if !literal && first.head? == some '\n' && !blankBefore && !blankAfter then
    if more.isEmpty then [' '] else more
  else first ++ more

/-- The lines at the indentation of the scalar. `text` is in reverse. -/
def lines (literal : Bool) (indent : Nat) : Nat → Cursor → (text first more : List Char) →
    (blankBefore : Bool) → Except Fault (List Char × List Char × List Char × Cursor)
  | 0, _, _, _, _, _ => .error .outOfFuel
  | fuel + 1, c, text, first, more, blankBefore =>
    if c.column != indent || c.rest.isEmpty then .ok (text, first, more, c)
    else do
      let blank := startsBlank c.rest
      let text := (between literal first more blankBefore blank).reverse ++ text
      let line := c.rest.takeWhile fun x => !isBreak x
      let (first, c) := (c.skipBy line.length).takeBreak
      let (_, more, c) ← breaks indent (fuel + 1) c 0 []
      lines literal indent fuel c (line.reverse ++ text) first more blank

/-- A block scalar at its indicator, inside a collection indented by `around`. -/
def scan (fuel : Nat) (literal : Bool) (around : Int) (c : Cursor) : Except Fault (Token × Cursor) := do
  let (h, c) ← header c.skip
  match c.lineEnd? with
  | none => .error .badBlockHeader
  | some c => do
    let known := if h.increment = 0 then 0 else (max around 0).toNat + h.increment
    let (widest, more, c) ← breaks known fuel c 0 []
    let indent := if known = 0 then max widest (max (around + 1).toNat 1) else known
    let (text, first, more, c) ← lines literal indent fuel c [] [] more false
    let tail := match h.chomping with
      | .strip => []
      | .clip => first
      | .keep => first ++ more
    return (.scalar (if literal then .literal else .folded) (String.ofList (text.reverse ++ tail)), c)

end TypedEndpoints.Yaml.Block
