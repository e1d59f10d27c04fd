import TypedEndpoints.Json.Tree
import TypedEndpoints.Text.Utf8
/-!
Reading JSON texts, strictly: the four JSON blanks, no comments, no trailing commas, no leading zeros,
nothing after the value. The reader checks syntax only and has no depth limit.
-/
namespace TypedEndpoints.Json.Reader

def isBlank (c : Char) : Bool := c == ' ' || c == '\n' || c == '\t' || c == '\r'

def skipBlanks (cs : List Char) : List Char := cs.dropWhile isBlank

/-- A character of a string body, or the 16-bit unit of a `\u` escape. -/
inductive Unit16 where
  | char (c : Char)
  | unit (n : Nat)

def hex4? (a b c d : Char) : Option Nat := Decimal.hexDigitsValue? [a, b, c, d]

def simpleEscape? : Char → Option Char
  | '"' => some '"'
  | '\\' => some '\\'
  | '/' => some '/'
  | 'b' => some '\x08'
  | 'f' => some '\x0c'
  | 'n' => some '\n'
  | 'r' => some '\r'
  | 't' => some '\t'
  | _ => none

/-- A string body up to its closing quote, in reverse; control characters must be escaped. -/
def units (acc : List Unit16) : List Char → Option (List Unit16 × List Char)
  | [] => none
  | '"' :: r => some (acc, r)
  | '\\' :: 'u' :: a :: b :: c :: d :: r =>
    match hex4? a b c d with
    | some n => units (.unit n :: acc) r
    | none => none
  | '\\' :: e :: r =>
    match simpleEscape? e with
    | some x => units (.char x :: acc) r
    | none => none
  | c :: r => if c.toNat < 0x20 ∨ c = '\\' then none else units (.char c :: acc) r

def isHighSurrogate (n : Nat) : Bool := 0xD800 ≤ n && n ≤ 0xDBFF
def isLowSurrogate (n : Nat) : Bool := 0xDC00 ≤ n && n ≤ 0xDFFF

/-- Units put together: a high surrogate must be followed by a low one, and no low one stands alone. -/
def assemble : List Unit16 → Option (List Char)
  | [] => some []
  | .char c :: r => (assemble r).map (c :: ·)
  | .unit n :: .unit m :: r =>
    if isHighSurrogate n then
      if isLowSurrogate m then
        (assemble r).map (Char.ofNat (0x10000 + (n - 0xD800) * 0x400 + (m - 0xDC00)) :: ·)
      else none
    else if isLowSurrogate n then none
    else (assemble (.unit m :: r)).map (Char.ofNat n :: ·)
  | .unit n :: r =>
    if isHighSurrogate n || isLowSurrogate n then none
    else (assemble r).map (Char.ofNat n :: ·)

def string? (cs : List Char) : Option (Option String × List Char) :=
  (units [] cs).map fun p => ((assemble p.1.reverse).map String.ofList, p.2)

/-- A run of digits that must not be empty. -/
def digits? (cs : List Char) : Option (List Char × List Char) :=
  let ds := cs.takeWhile Char.isDigit
  if ds.isEmpty then none else some (ds, cs.dropWhile Char.isDigit)

def fraction? : List Char → Option (List Char × List Char)
  | '.' :: r => digits? r
  | r => some ([], r)

def exponentDigits? (r : List Char) : Option (Option (Bool × List Char) × List Char) :=
  match r with
  | '-' :: r => (digits? r).map fun p => (some (true, p.1), p.2)
  | '+' :: r => (digits? r).map fun p => (some (false, p.1), p.2)
  | r => (digits? r).map fun p => (some (false, p.1), p.2)

def exponent? : List Char → Option (Option (Bool × List Char) × List Char)
  | 'e' :: r => exponentDigits? r
  | 'E' :: r => exponentDigits? r
  | r => some (none, r)

/-- A whole part is `0` or starts with another digit. -/
def whole? (cs : List Char) : Option (List Char × List Char) := do
  let (ds, r) ← digits? cs
  if ds.head? = some '0' ∧ ds.length ≠ 1 then none else some (ds, r)

def numeral? (cs : List Char) : Option (Numeral × List Char) := do
  let (negative, r) := match cs with
    | '-' :: r => (true, r)
    | r => (false, r)
  let (whole, r) ← whole? r
  let (fraction, r) ← fraction? r
  let (exponent, r) ← exponent? r
  pure (⟨negative, whole, fraction, exponent⟩, r)

mutual
/-- One value and what follows it. Every call takes a character, so the length of the text is fuel
enough. -/
def tree? : Nat → List Char → Option (Tree × List Char)
  | 0, _ => none
  | fuel + 1, cs =>
    match skipBlanks cs with
    | '"' :: r => (string? r).map fun p => (.text p.1, p.2)
    | '[' :: r =>
      match skipBlanks r with
      | ']' :: r => some (.list [], r)
      | r => items? fuel [] r
    | '{' :: r =>
      match skipBlanks r with
      | '}' :: r => some (.object [], r)
      | r => members? fuel [] r
    | 'n' :: 'u' :: 'l' :: 'l' :: r => some (.null, r)
    | 't' :: 'r' :: 'u' :: 'e' :: r => some (.bool true, r)
    | 'f' :: 'a' :: 'l' :: 's' :: 'e' :: r => some (.bool false, r)
    | r => (numeral? r).map fun p => (.number p.1, p.2)

/-- The items of a list after its bracket; those before are in `acc`, the last one first. -/
def items? : Nat → List Tree → List Char → Option (Tree × List Char)
  | 0, _, _ => none
  | fuel + 1, acc, cs =>
    match tree? fuel cs with
    | none => none
    | some (t, r) =>
      match skipBlanks r with
      | ',' :: r => items? fuel (t :: acc) r
      | ']' :: r => some (.list (t :: acc).reverse, r)
      | _ => none

/-- The members of an object after its brace. -/
def members? : Nat → List (Option String × Tree) → List Char → Option (Tree × List Char)
  | 0, _, _ => none
  | fuel + 1, acc, cs =>
    match skipBlanks cs with
    | '"' :: r =>
      match string? r with
      | none => none
      | some (key, r) =>
        match skipBlanks r with
        | ':' :: r =>
          match tree? fuel r with
          | none => none
          | some (t, r) =>
            match skipBlanks r with
            | ',' :: r => members? fuel ((key, t) :: acc) r
            | '}' :: r => some (.object ((key, t) :: acc).reverse, r)
            | _ => none
        | _ => none
    | _ => none
end

end Reader

def Tree.parse? (cs : List Char) : Option Tree :=
  match Reader.tree? (cs.length + 1) cs with
  | some (t, r) => if (Reader.skipBlanks r).isEmpty then some t else none
  | none => none

def Value.parse? (cs : List Char) : Option Value := (Tree.parse? cs).bind (Tree.value? maxDepth)

def Value.ofBytes? (b : Bytes) : Option Value :=
  match Text.decode b with
  | .ok cs => Value.parse? cs
  | .error _ => none

end TypedEndpoints.Json
