import TypedEndpoints.Yaml.Token
/-!
Plain scalars. A colon before a blank ends one, and so does a comment; inside brackets so do commas
and brackets. It goes on over lines that are indented more than the collection around it.
-/
namespace TypedEndpoints.Yaml.Plain

def isFlowIndicator (c : Char) : Bool :=
  c == ',' || c == '[' || c == ']' || c == '{' || c == '}'

def stops (inFlow : Bool) : List Char → Bool
  | [] => true
  | ':' :: r => endsWord r
  | x :: _ => inFlow && isFlowIndicator x

/-- A colon right before an indicator, which brackets do not allow. -/
def isStrayColon (inFlow : Bool) : List Char → Bool
  | ':' :: x :: _ => inFlow && (isFlowIndicator x || x == '?')
  | _ => false

/-- The characters up to a blank or the end, put in front of `acc` in reverse. -/
def word (inFlow : Bool) : Nat → Cursor → List Char → Except Fault (List Char × Cursor)
  | 0, c, acc => .ok (acc, c)
  | fuel + 1, c, acc =>
    match c.rest with
    | [] => .ok (acc, c)
    | x :: _ =>
      if isSpace x || isBreak x then .ok (acc, c)
      else if isStrayColon inFlow c.rest then .error .unexpectedColon
      else if stops inFlow c.rest then .ok (acc, c)
      else word inFlow fuel c.skip (x :: acc)

/-- Words and gaps; a gap counts only if a word follows. The flag says that a line was left. -/
def body (inFlow : Bool) (indent : Int) : Nat → Cursor → Gap → List Char →
    Except Fault (List Char × Bool × Cursor)
  | 0, _, _, _ => .error .outOfFuel
  | fuel + 1, c, g, acc =>
    if c.atDocumentMarker || c.rest.head? = some '#' then .ok (acc.reverse, g.broken, c)
    else do
      let (found, c') ← word inFlow (fuel + 1) c []
      let acc := if found.isEmpty then acc else found ++ g.text.reverse ++ acc
      let g := if found.isEmpty then g else {}
      match c'.rest with
      | [] => .ok (acc.reverse, g.broken, c')
      | x :: _ =>
        if !(isSpace x || isBreak x) then .ok (acc.reverse, g.broken, c')
        else do
          let (g, c) ← c'.gap (some indent) (fuel + 1) g
          if !inFlow && Int.ofNat c.column < indent then .ok (acc.reverse, g.broken, c)
          else body inFlow indent fuel c g acc

/-- A plain scalar, and whether a simple key may follow it. -/
def scan (fuel : Nat) (inFlow : Bool) (indent : Int) (c : Cursor) : Except Fault (Token × Bool × Cursor) := do
  let (text, broken, c) ← body inFlow (indent + 1) fuel c {} []
  return (.scalar .plain (String.ofList text), broken, c)

end TypedEndpoints.Yaml.Plain
