import TypedEndpoints.Decimal.Reading
import TypedEndpoints.Yaml.Token
/-!
Quoted scalars. In single quotes only a doubled quote is special; in double quotes a backslash starts
an escape or joins lines.
-/
namespace TypedEndpoints.Yaml.Quoted

def simpleEscape? : Char → Option Char
  | '0' => some '\x00'
  | 'a' => some '\x07'
  | 'b' => some '\x08'
  | 't' => some '\t'
  | '\t' => some '\t'
  | 'n' => some '\n'
  | 'v' => some '\x0b'
  | 'f' => some '\x0c'
  | 'r' => some '\r'
  | 'e' => some '\x1b'
  | ' ' => some ' '
  | '"' => some '"'
  | '/' => some '/'
  | '\\' => some '\\'
  | 'N' => some '\u0085'
  | '_' => some '\u00a0'
  | 'L' => some '\u2028'
  | 'P' => some '\u2029'
  | _ => none

def codeLength? : Char → Option Nat
  | 'x' => some 2
  | 'u' => some 4
  | 'U' => some 8
  | _ => none

def escape? (cs : List Char) : Option (Char × Nat) :=
  match cs with
  | [] => none
  | e :: r =>
    match simpleEscape? e, codeLength? e with
    | some x, _ => some (x, 1)
    | none, some n =>
      let ds := r.take n
      if ds.length < n then none
      else match Decimal.hexDigitsValue? ds with
        | some v =>
          if (0xD800 ≤ v ∧ v ≤ 0xDFFF) ∨ 0x10FFFF < v then none else some (Char.ofNat v, n + 1)
        | none => none
    | none, none => none

/-- The characters up to a blank, a break or the closing quote, put in front of `acc` in reverse; the
flag says that an escaped break came last. -/
def word (single : Bool) : Nat → Cursor → List Char → Except Fault (List Char × Bool × Cursor)
  | 0, c, acc => .ok (acc, false, c)
  | fuel + 1, c, acc =>
    match c.rest with
    | [] => .ok (acc, false, c)
    | x :: r =>
      if isSpace x || isBreak x then .ok (acc, false, c)
      else if single then
        if x == '\'' then
          match r with
          | '\'' :: _ => word single fuel (c.skipBy 2) ('\'' :: acc)
          | _ => .ok (acc, false, c)
        else word single fuel c.skip (x :: acc)
      else if x == '"' then .ok (acc, false, c)
      else if x == '\\' then
        if !r.isEmpty && endsLine r then .ok (acc, true, c.skip.skipBreak)
        else match escape? r with
          | some (y, n) => word single fuel (c.skipBy (n + 1)) (y :: acc)
          | none => .error .badEscape
      else word single fuel c.skip (x :: acc)

/-- Words and gaps up to the closing quote. -/
def body (single : Bool) : Nat → Cursor → List Char → Except Fault (List Char × Cursor)
  | 0, _, _ => .error .outOfFuel
  | fuel + 1, c, acc =>
    if c.atDocumentMarker then .error .documentInQuotes
    else if c.rest.isEmpty then .error .unclosedQuote
    else do
      let (acc, joined, c) ← word single (fuel + 1) c acc
      if c.rest.head? = some (if single then '\'' else '"') then .ok (acc.reverse, c.skip)
      else do
        let (g, c) ← c.gap none (fuel + 1) { broken := joined }
        body single fuel c (g.text.reverse ++ acc)

def scan (fuel : Nat) (single : Bool) (c : Cursor) : Except Fault (Token × Cursor) := do
  let (text, c) ← body single fuel c.skip []
  return (.scalar (if single then .singleQuoted else .doubleQuoted) (String.ofList text), c)

end TypedEndpoints.Yaml.Quoted
