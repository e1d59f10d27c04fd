/-!
A place in a YAML text: what is left of it, and where it starts. Lines end with any of five breaks;
a carriage return followed by a line feed is one break.
-/
namespace TypedEndpoints.Yaml

inductive Fault where
  | controlCharacter
  | badDirective
  | badAnchor
  | badTag
  | badBlockHeader
  | badEscape
  | tabInIndentation
  | unclosedQuote
  | documentInQuotes
  | unexpectedColon
  | unexpectedCharacter
  | misplacedEntry
  | misplacedKey
  | misplacedValue
  | missingColon
  | missingDocumentStart
  | duplicateDirective
  | unsupportedVersion
  | unknownTagHandle
  | unknownAnchor
  | unexpectedToken
  | secondDocument
  | outOfFuel
deriving Repr, DecidableEq

def Fault.message : Fault → String
  | .controlCharacter => "control characters are not allowed"
  | .badDirective => "a directive is not well-formed"
  | .badAnchor => "an anchor is not well-formed"
  | .badTag => "a tag is not well-formed"
  | .badBlockHeader => "the header of a block scalar is not well-formed"
  | .badEscape => "an escape is not known"
  | .tabInIndentation => "a tab stands in the indentation"
  | .unclosedQuote => "a quoted scalar is not closed"
  | .documentInQuotes => "a document marker stands in a quoted scalar"
  | .unexpectedColon => "a colon is not expected here"
  | .unexpectedCharacter => "no token starts with this character"
  | .misplacedEntry => "a sequence entry is not allowed here"
  | .misplacedKey => "a mapping key is not allowed here"
  | .misplacedValue => "a mapping value is not allowed here"
  | .missingColon => "a key has no colon"
  | .missingDocumentStart => "a document start is expected"
  | .duplicateDirective => "a directive is given twice"
  | .unsupportedVersion => "the version is not supported"
  | .unknownTagHandle => "a tag handle is not declared"
  | .unknownAnchor => "an anchor is not known"
  | .unexpectedToken => "a token is not expected here"
  | .secondDocument => "there is more than one document"
  | .outOfFuel => "the text is too long"

def isBreak (c : Char) : Bool :=
  c == '\n' || c == '\r' || c == '\u0085' || c == '\u2028' || c == '\u2029'

def isSpace (c : Char) : Bool := c == ' ' || c == '\t'

/-- A character of a word: directive names, handles and anchors consist of these. -/
def isWordChar (c : Char) : Bool := c.isAlphanum || c == '_' || c == '-'

def isPrintable (c : Char) : Bool :=
  let n := c.toNat
  n == 0x09 || n == 0x0A || n == 0x0D || (0x20 ≤ n && n ≤ 0x7E) || n == 0x85 ||
    (0xA0 ≤ n && n ≤ 0xD7FF) || (0xE000 ≤ n && n ≤ 0xFFFD) || (0x10000 ≤ n && n ≤ 0x10FFFF)

/-- A place in a text; `index` counts bytes, `column` characters. -/
structure Cursor where
  rest : List Char
  index : Nat := 0
  line : Nat := 0
  column : Nat := 0

def endsWord : List Char → Bool
  | [] => true
  | c :: _ => isSpace c || isBreak c

def endsLine : List Char → Bool
  | [] => true
  | c :: _ => isBreak c

namespace Cursor

def skip (c : Cursor) : Cursor :=
  match c.rest with
  | [] => c
  | x :: r => { c with rest := r, index := c.index + x.utf8Size, column := c.column + 1 }

def byteCount (cs : List Char) : Nat := cs.foldl (fun n c => n + c.utf8Size) 0

def skipBy (c : Cursor) (n : Nat) : Cursor :=
  { c with rest := c.rest.drop n, index := c.index + byteCount (c.rest.take n),
           column := c.column + n }

def skipWhile (p : Char → Bool) (c : Cursor) : Cursor := c.skipBy (c.rest.takeWhile p).length

/-- Past a break, if one stands here, and the text it stands for: a line feed, except for the two
Unicode separators, which stand for themselves. -/
def takeBreak (c : Cursor) : List Char × Cursor :=
  match c.rest with
  | '\r' :: '\n' :: r => (['\n'], { rest := r, index := c.index + 2, line := c.line + 1, column := 0 })
  | x :: r =>
    if isBreak x then
      (if x == '\u2028' || x == '\u2029' then [x] else ['\n'],
        { rest := r, index := c.index + x.utf8Size, line := c.line + 1, column := 0 })
    else ([], c)
  | [] => ([], c)

def skipBreak (c : Cursor) : Cursor := c.takeBreak.2

def skipComment (c : Cursor) : Cursor :=
  match c.rest with
  | '#' :: _ => c.skipWhile fun x => !isBreak x
  | _ => c

/-- Past blanks and a comment to the end of the line. -/
def lineEnd? (c : Cursor) : Option Cursor :=
  let c := (c.skipWhile isSpace).skipComment
  if endsLine c.rest then some c.skipBreak else none

/-- A document marker: three of the same character at the start of a line, and the end of a word. -/
def atMarker (mark : Char) (c : Cursor) : Bool :=
  c.column == 0 &&
    match c.rest with
    | x :: y :: z :: r => x == mark && y == mark && z == mark && endsWord r
    | _ => false

def atDocumentMarker (c : Cursor) : Bool := c.atMarker '-' || c.atMarker '.'

end Cursor

/-- What stands between two words of a scalar: blanks on one line, or breaks. -/
structure Gap where
  blanks : List Char := []
  first : List Char := []
  more : List Char := []
  broken : Bool := false

/-- The text of a gap: one line feed folds to a space, and one of several is dropped. -/
def Gap.text (g : Gap) : List Char :=
  if !g.broken then g.blanks
  else if g.first.head? = some '\n' then if g.more.isEmpty then [' '] else g.more
  else g.first ++ g.more

/-- Read a gap. Where `indent` is given, a tab left of it on a new line is refused. -/
def Cursor.gap (indent : Option Int) : Nat → Cursor → Gap → Except Fault (Gap × Cursor)
  | 0, c, g => .ok (g, c)
  | fuel + 1, c, g =>
    match c.rest with
    | [] => .ok (g, c)
    | x :: _ =>
      if isSpace x then
        if g.broken then
          if x == '\t' && (match indent with | some i => Int.ofNat c.column < i | none => false) then
            .error .tabInIndentation
          else gap indent fuel c.skip g
        else gap indent fuel c.skip { g with blanks := g.blanks ++ [x] }
      else if isBreak x then
        let (t, c') := c.takeBreak
        if g.broken then gap indent fuel c' { g with more := g.more ++ t }
        else gap indent fuel c' { first := t, broken := true }
      else .ok (g, c)

end TypedEndpoints.Yaml
