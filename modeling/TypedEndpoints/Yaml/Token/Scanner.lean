import TypedEndpoints.Yaml.Token.Block
import TypedEndpoints.Yaml.Token.Mark
import TypedEndpoints.Yaml.Token.Plain
import TypedEndpoints.Yaml.Token.Quoted
/-!
From text to tokens. Keys are recognised late: a place where a key may start is remembered, and when a
colon follows on the same line, the key token is put in front of what was read since. Indentation
opens and closes block collections; inside brackets it means nothing.
-/
namespace TypedEndpoints.Yaml

/-- A place where a simple key may start, with the number of tokens before it. -/
structure PendingKey where
  required : Bool
  before : Nat
  index : Nat
  line : Nat
  column : Nat

/-- The state of the scanner. `keys` has an entry for the block context and one for each open bracket;
`tokens` holds what was read, the last token first. -/
structure Scanner where
  cursor : Cursor
  indent : Int := -1
  outer : List Int := []
  keyAllowed : Bool := true
  keys : List (Option PendingKey) := [none]
  count : Nat := 0
  tokens : List Token := []

namespace Scanner

def inFlow (s : Scanner) : Bool := 1 < s.keys.length

def push (t : Token) (s : Scanner) : Scanner :=
  { s with tokens := t :: s.tokens, count := s.count + 1 }

/-- Put a token behind the first `before` ones. -/
def insertAt (before : Nat) (t : Token) (s : Scanner) : Scanner :=
  let later := s.count - before
  { s with tokens := s.tokens.take later ++ t :: s.tokens.drop later, count := s.count + 1 }

/-- Between tokens: blanks, comments and breaks. Tabs count as blanks only where no key may start, and a
byte order mark only at the start of a line, where it takes a column. -/
def skipToToken : Nat → Scanner → Scanner
  | 0, s => s
  | fuel + 1, s =>
    let tabs := s.inFlow || !s.keyAllowed
    let start := match s.cursor.rest with
      | '\ufeff' :: _ => if s.cursor.column = 0 then s.cursor.skip else s.cursor
      | _ => s.cursor
    let c := (start.skipWhile fun x => x == ' ' || (tabs && x == '\t')).skipComment
    match c.rest with
    | x :: _ =>
      if isBreak x then
        skipToToken fuel { s with cursor := c.skipBreak, keyAllowed := s.keyAllowed || !s.inFlow }
      else { s with cursor := c }
    | [] => { s with cursor := c }

/-- A simple key is on one line, and its colon at most 1024 bytes behind its start. -/
def isStale (c : Cursor) (k : PendingKey) : Bool := k.line < c.line || k.index + 1024 < c.index

/-- Forget places where a key can no longer start; a required one must not be forgotten. -/
def dropStale (s : Scanner) : Except Fault Scanner :=
  let stale := fun k => isStale s.cursor k
  if s.keys.any (fun k => match k with | some k => stale k && k.required | none => false) then
    .error .missingColon
  else
    .ok { s with keys := s.keys.map fun k => k.filter fun k => !stale k }

def dropKey (s : Scanner) : Except Fault Scanner :=
  match s.keys with
  | some k :: ks => if k.required then .error .missingColon else .ok { s with keys := none :: ks }
  | _ => .ok s

def saveKey (s : Scanner) : Except Fault Scanner :=
  if s.keyAllowed then do
    let c := s.cursor
    let key : PendingKey :=
      { required := !s.inFlow && s.indent == Int.ofNat c.column, before := s.count,
        index := c.index, line := c.line, column := c.column }
    let s ← s.dropKey
    return { s with keys := some key :: s.keys.tail }
  else .ok s

/-- Open a block collection when the column lies right of the indentation. -/
def openBlock (column : Nat) (before : Nat) (t : Token) (s : Scanner) : Scanner :=
  if !s.inFlow && s.indent < Int.ofNat column then
    { s with indent := Int.ofNat column, outer := s.indent :: s.outer }.insertAt before t
  else s

def closeBlocks (column : Int) : List Int → Scanner → Scanner
  | [], s => s
  | i :: is, s =>
    if s.indent ≤ column then s
    else closeBlocks column is ({ s with indent := i, outer := is }.push .blockEnd)

def unroll (column : Int) (s : Scanner) : Scanner :=
  if s.inFlow then s else closeBlocks column s.outer s

def skipBy (n : Nat) (s : Scanner) : Scanner := { s with cursor := s.cursor.skipBy n }

def allowKey (allowed : Bool) (s : Scanner) : Scanner := { s with keyAllowed := allowed }

/-- A token that takes the place of a key: a scalar, an alias, an anchor or a tag. -/
def content (scan : Cursor → Except Fault (Token × Cursor)) (s : Scanner) : Except Fault Scanner := do
  let s ← s.saveKey
  let (t, c) ← scan s.cursor
  return { s with cursor := c, keyAllowed := false }.push t

def plain (fuel : Nat) (s : Scanner) : Except Fault Scanner := do
  let s ← s.saveKey
  let (t, broken, c) ← Plain.scan fuel s.inFlow s.indent s.cursor
  return { s with cursor := c, keyAllowed := broken }.push t

def blockScalar (fuel : Nat) (literal : Bool) (s : Scanner) : Except Fault Scanner := do
  let s ← s.dropKey
  let (t, c) ← Block.scan fuel literal s.indent s.cursor
  return { s with cursor := c, keyAllowed := true }.push t

def named (token : String → Token) (c : Cursor) : Except Fault (Token × Cursor) := do
  let (name, c) ← Mark.anchorName c.skip
  return (token name, c)

/-- A marker or directive ends all block collections. -/
def documentLevel (s : Scanner) : Except Fault Scanner := do
  return (← (s.unroll (-1)).dropKey).allowKey false

def openFlow (t : Token) (s : Scanner) : Except Fault Scanner := do
  let s ← s.saveKey
  return ({ s with keys := none :: s.keys, keyAllowed := true }.skipBy 1).push t

def closeFlow (t : Token) (s : Scanner) : Except Fault Scanner := do
  let s ← s.dropKey
  let keys := match s.keys with
    | _ :: k :: ks => k :: ks
    | ks => ks
  return ({ s with keys, keyAllowed := false }.skipBy 1).push t

def flowEntry (s : Scanner) : Except Fault Scanner := do
  let s ← s.dropKey
  return ((s.allowKey true).skipBy 1).push .flowEntry

def blockEntry (s : Scanner) : Except Fault Scanner := do
  if !s.inFlow && !s.keyAllowed then .error .misplacedEntry
  else do
    let s ← (s.openBlock s.cursor.column s.count .blockSequence).dropKey
    return ((s.allowKey true).skipBy 1).push .blockEntry

def explicitKey (s : Scanner) : Except Fault Scanner := do
  if !s.inFlow && !s.keyAllowed then .error .misplacedKey
  else do
    let s ← (s.openBlock s.cursor.column s.count .blockMapping).dropKey
    return ((s.allowKey !s.inFlow).skipBy 1).push .key

/-- A colon: the value of the remembered key, or of a key that was marked as such. -/
def value (s : Scanner) : Except Fault Scanner :=
  match s.keys with
  | some k :: ks =>
    let s := ({ s with keys := none :: ks }.insertAt k.before .key).openBlock k.column k.before
      .blockMapping
    .ok (((s.allowKey false).skipBy 1).push .value)
  | _ =>
    if !s.inFlow && !s.keyAllowed then .error .misplacedValue
    else
      let s := s.openBlock s.cursor.column s.count .blockMapping
      .ok (((s.allowKey !s.inFlow).skipBy 1).push .value)

def startsPlain (inFlow : Bool) : List Char → Bool
  | [] => false
  | x :: r =>
    !(isSpace x || isBreak x || "-?:,[]\x7b\x7d#&*!|>'\"%@`".toList.contains x) ||
      (x == '-' && !(match r with | y :: _ => isSpace y | [] => false)) ||
      (!inFlow && (x == '?' || x == ':') && !endsWord r)

/-- The token at the cursor; `fuel` is more than what is left of the text. -/
def token (fuel : Nat) (s : Scanner) : Except Fault Scanner :=
  let c := s.cursor
  match c.rest with
  | [] => .ok s
  | x :: r =>
    if c.column == 0 && x == '%' then do
      let s ← s.documentLevel
      let (t, c) ← Mark.directive fuel s.cursor
      return { s with cursor := c }.push t
    else if c.atMarker '-' then do
      return ((← s.documentLevel).skipBy 3).push .documentStart
    else if c.atMarker '.' then do
      return ((← s.documentLevel).skipBy 3).push .documentEnd
    else if x == '[' then s.openFlow .openSequence
    else if x == '{' then s.openFlow .openMapping
    else if x == ']' then s.closeFlow .closeSequence
    else if x == '}' then s.closeFlow .closeMapping
    else if x == ',' then s.flowEntry
    else if x == '-' && endsWord r then s.blockEntry
    else if x == '?' && (s.inFlow || endsWord r) then s.explicitKey
    else if x == ':' && (s.inFlow || endsWord r) then s.value
    else if x == '*' then s.content (named .alias)
    else if x == '&' then s.content (named .anchor)
    else if x == '!' then s.content (Mark.tag fuel s.inFlow)
    else if x == '|' && !s.inFlow then s.blockScalar fuel true
    else if x == '>' && !s.inFlow then s.blockScalar fuel false
    else if x == '\'' then s.content (Quoted.scan fuel true)
    else if x == '"' then s.content (Quoted.scan fuel false)
    else if startsPlain s.inFlow c.rest then s.plain fuel
    else .error .unexpectedCharacter

/-- The end of the text is a new line. -/
def finish (s : Scanner) : Except Fault Scanner := (s.unroll (-1)).dropKey

/-- Token after token to the end of the text; each takes a character at least, so the fuel stays above
what is left. -/
def run : Nat → Scanner → Except Fault Scanner
  | 0, _ => .error .outOfFuel
  | fuel + 1, s => do
    let s := s.skipToToken fuel
    let s ← s.dropStale
    let s := s.unroll (Int.ofNat s.cursor.column)
    if s.cursor.rest.isEmpty then s.finish
    else run fuel (← s.token fuel)

end Scanner

def Token.scan (cs : List Char) : Except Fault (List Token) := do
  if !cs.all isPrintable then .error .controlCharacter
  else do
    let s ← Scanner.run (cs.length + 2) { cursor := { rest := cs } }
    return s.tokens.reverse

end TypedEndpoints.Yaml
