import TypedEndpoints.Text.Utf8
/-!
What is left of a text when it is shown where control sequences mean nothing: the sequences and the
control characters go, line breaks and tabs stay.
-/
namespace TypedEndpoints.Text

inductive SequenceState where
  | ground
  | escape
  | intermediate
  /-- Parameters, up to a letter. -/
  | parameters
  /-- A command of the operating system, up to a bell. -/
  | command
  /-- A control string, up to its terminator. -/
  | string
deriving Repr, DecidableEq

def isLayout (c : Char) : Bool := c == '\t' || c == '\n' || c == '\x0c' || c == '\r'

def isControl (c : Char) : Bool := c.toNat < 0x20 || c == '\x7f'

/-- A character that is shown outside sequences. -/
def isShown (c : Char) : Bool := !isControl c || isLayout c

namespace SequenceState

def afterEscape (c : Char) : SequenceState :=
  if c.toNat < 0x20 then .escape
  else if c.toNat < 0x30 then .intermediate
  else if c = '[' then .parameters
  else if c = ']' then .command
  else if c = 'P' ∨ c = 'X' ∨ c = '^' ∨ c = '_' then .string
  else if c.toNat < 0x7F then .ground
  else .escape

/-- The state after a character. Two control characters abandon any sequence, and an escape starts
one; the terminator of a string is the byte 156, also inside a character. -/
def next (s : SequenceState) (c : Char) : SequenceState :=
  if c = '\x18' ∨ c = '\x1a' then .ground
  else if c = '\x1b' then .escape
  else match s with
    | .ground => .ground
    | .escape => afterEscape c
    | .intermediate => if 0x30 ≤ c.toNat ∧ c.toNat < 0x7F then .ground else .intermediate
    | .parameters => if 0x40 ≤ c.toNat ∧ c.toNat < 0x7F then .ground else .parameters
    | .command => if c = '\x07' then .ground else .command
    | .string => if (encodeChar c).contains 0x9C then .ground else .string

def shows (s : SequenceState) (c : Char) : Bool :=
  match s with
  | .ground => isShown c
  | .escape => isLayout c
  | .intermediate => isLayout c
  | .parameters => isLayout c
  | .command => false
  | .string => false

end SequenceState

/-- The characters shown, from a state and from inside or outside a run of them. A run lasts up to the
next control character, also when it started inside a sequence. -/
def shownFrom : SequenceState → Bool → List Char → List Char
  | _, _, [] => []
  | s, true, c :: cs =>
    if isShown c then c :: shownFrom (if c.toNat < 0x80 then s else .ground) true cs
    else shownFrom (s.next c) false cs
  | s, false, c :: cs =>
    if s.shows c then c :: shownFrom (s.next c) true cs else shownFrom (s.next c) false cs

def shown (s : String) : String := String.ofList (shownFrom .ground false s.toList)

end TypedEndpoints.Text
