import TypedEndpoints.Decimal.Reading
import TypedEndpoints.Text.Utf8
import TypedEndpoints.Yaml.Token
/-!
What is marked by a leading character: anchors and aliases, tags, directives.
-/
namespace TypedEndpoints.Yaml.Mark

def endsAnchor : List Char → Bool
  | [] => true
  | c :: _ =>
    isSpace c || isBreak c || c == '?' || c == ':' || c == ',' || c == ']' || c == '}' || c == '%' ||
      c == '@' || c == '\x60'

def anchorName (c : Cursor) : Except Fault (String × Cursor) :=
  let name := c.rest.takeWhile isWordChar
  let c := c.skipBy name.length
  if name.isEmpty || !endsAnchor c.rest then .error .badAnchor else .ok (String.ofList name, c)

def isUriChar (verbatim : Bool) (c : Char) : Bool :=
  isWordChar c || c == ';' || c == '/' || c == '?' || c == ':' || c == '@' || c == '&' || c == '=' ||
    c == '+' || c == '$' || c == '.' || c == '%' || c == '!' || c == '~' || c == '*' || c == '\'' ||
    c == '(' || c == ')' || (verbatim && (c == ',' || c == '[' || c == ']'))

def octet? : List Char → Option (UInt8 × List Char)
  | '%' :: a :: b :: r => (Decimal.hexDigitsValue? [a, b]).map fun n => (UInt8.ofNat n, r)
  | _ => none

/-- The number of bytes of the character that starts with a byte. -/
def width? (b : UInt8) : Option Nat :=
  if b < 0x80 then some 1
  else if b &&& 0xE0 = 0xC0 then some 2
  else if b &&& 0xF0 = 0xE0 then some 3
  else if b &&& 0xF8 = 0xF0 then some 4
  else none

def moreOctets? : Nat → List Char → Option (Bytes × List Char)
  | 0, r => some ([], r)
  | n + 1, r => do
    let (b, r) ← octet? r
    if b &&& 0xC0 = 0x80 then do
      let (bs, r) ← moreOctets? n r
      pure (b :: bs, r)
    else none

/-- The bytes written in percent escapes, as many as the first one asks for, and the number of
characters they take. -/
def escaped? (cs : List Char) : Option (Bytes × Nat) := do
  let (b, r) ← octet? cs
  let n ← width? b
  let (bs, _) ← moreOctets? (n - 1) r
  pure (b :: bs, 3 * n)

/-- The bytes of a tag, in reverse. -/
def uri (verbatim : Bool) : Nat → Cursor → Bytes → Except Fault (Bytes × Cursor)
  | 0, c, acc => .ok (acc, c)
  | fuel + 1, c, acc =>
    match c.rest with
    | [] => .ok (acc, c)
    | x :: _ =>
      if !isUriChar verbatim x then .ok (acc, c)
      else if x == '%' then
        match escaped? c.rest with
        | some (bs, n) => uri verbatim fuel (c.skipBy n) (bs.reverse ++ acc)
        | none => .error .badTag
      else uri verbatim fuel c.skip ((Text.encodeChar x).reverse ++ acc)

/-- A zero byte ends a tag. -/
def upToZero (b : Bytes) : Bytes := b.takeWhile (· != 0)

def suffix (fuel : Nat) (verbatim : Bool) (c : Cursor) : Except Fault (Bytes × Cursor) := do
  let (b, c) ← uri verbatim fuel c []
  if b.isEmpty then .error .badTag else .ok (upToZero b.reverse, c)

/-- The tag that is an exclamation mark and nothing else. -/
def lone : Bytes := Text.encode ['!']

/-- An exclamation mark, a word, and an exclamation mark if one follows. -/
def handle (c : Cursor) : Except Fault (List Char × Cursor) :=
  match c.rest with
  | '!' :: r =>
    let word := r.takeWhile isWordChar
    let c := c.skipBy (word.length + 1)
    match c.rest with
    | '!' :: _ => .ok ('!' :: word ++ ['!'], c.skip)
    | _ => .ok ('!' :: word, c)
  | _ => .error .badTag

/-- A handle ends with an exclamation mark of its own. -/
def isHandle (cs : List Char) : Bool := 1 < cs.length && cs.getLast? == some '!'

def tag (fuel : Nat) (inFlow : Bool) (c : Cursor) : Except Fault (Token × Cursor) := do
  let (token, c) ← match c.rest with
    | '!' :: '<' :: _ => do
      let (s, c) ← suffix fuel true (c.skipBy 2)
      match c.rest with
      | '>' :: _ => Except.ok (Token.tag "" s, c.skip)
      | _ => .error Fault.badTag
    | _ => do
      let (h, c) ← handle c
      if isHandle h then do
        let (s, c) ← suffix fuel false c
        .ok (Token.tag (String.ofList h) s, c)
      else do
        let (s, c) ← uri false fuel c []
        let s := upToZero (Text.encode (h.drop 1) ++ s.reverse)
        if s.isEmpty then .ok (Token.tag "" lone, c) else .ok (Token.tag "!" s, c)
  if endsWord c.rest || (inFlow && c.rest.head? == some ',') then .ok (token, c) else .error .badTag

def versionNumber (c : Cursor) : Except Fault (Nat × Cursor) :=
  let ds := c.rest.takeWhile Char.isDigit
  if ds.isEmpty || 9 < ds.length then .error .badDirective
  else .ok (Decimal.digitsValue ds, c.skipBy ds.length)

def version (c : Cursor) : Except Fault (Token × Cursor) := do
  let (major, c) ← versionNumber (c.skipWhile isSpace)
  match c.rest with
  | '.' :: _ => do
    let (minor, c) ← versionNumber c.skip
    return (.version major minor, c)
  | _ => .error .badDirective

def tagHandle (fuel : Nat) (c : Cursor) : Except Fault (Token × Cursor) := do
  let (h, c) ← handle (c.skipWhile isSpace)
  if h != ['!'] && !isHandle h then .error .badDirective
  else if !(match c.rest with | x :: _ => isSpace x | [] => false) then .error .badDirective
  else do
    let (s, c) ← suffix fuel true (c.skipWhile isSpace)
    if endsWord c.rest then return (.tagHandle (String.ofList h) s, c)
    else .error .badDirective

def directive (fuel : Nat) (c : Cursor) : Except Fault (Token × Cursor) := do
  let c := c.skip
  let name := c.rest.takeWhile isWordChar
  let c := c.skipBy name.length
  if name.isEmpty || !endsWord c.rest then .error .badDirective
  else do
    let (token, c) ← match String.ofList name with
      | "YAML" => version c
      | "TAG" => tagHandle fuel c
      | _ => .error .badDirective
    match c.lineEnd? with
    | some c => .ok (token, c)
    | none => .error .badDirective

end TypedEndpoints.Yaml.Mark
