import TypedEndpoints.Decimal.Reading
import TypedEndpoints.Toml.Value
/-!
TOML strings, numbers and dates.
-/
namespace TypedEndpoints.Toml

/-- A character that may stand unescaped in strings and comments. -/
def isTextChar (c : Char) : Bool := c == '\t' || (0x20 ≤ c.toNat && c.toNat ≠ 0x7F)

def isSpace (c : Char) : Bool := c == ' ' || c == '\t'

/-- Past a line break: a line feed, with or without a carriage return. -/
def newline? : List Char → Option (List Char)
  | '\n' :: r => some r
  | '\r' :: '\n' :: r => some r
  | _ => none

def codePoint? (ds : List Char) : Option Char := do
  let v ← Decimal.hexDigitsValue? ds
  if (0xD800 ≤ v ∧ v ≤ 0xDFFF) ∨ 0x10FFFF < v then none else some (Char.ofNat v)

def escape? : List Char → Option (Char × List Char)
  | 'b' :: r => some ('\x08', r)
  | 't' :: r => some ('\t', r)
  | 'n' :: r => some ('\n', r)
  | 'f' :: r => some ('\x0c', r)
  | 'r' :: r => some ('\r', r)
  | '"' :: r => some ('"', r)
  | '\\' :: r => some ('\\', r)
  | 'u' :: r => if r.length < 4 then none else (codePoint? (r.take 4)).map (·, r.drop 4)
  | 'U' :: r => if r.length < 8 then none else (codePoint? (r.take 8)).map (·, r.drop 8)
  | _ => none

def lineBody (literal : Bool) : Nat → List Char → List Char → Option (List Char × List Char)
  | 0, _, _ => none
  | fuel + 1, acc, cs =>
    match cs with
    | [] => none
    | c :: r =>
      if c == (if literal then '\'' else '"') then some (acc.reverse, r)
      else if !literal && c == '\\' then
        match escape? r with
        | some (x, r) => lineBody literal fuel (x :: acc) r
        | none => none
      else if isTextChar c then lineBody literal fuel (c :: acc) r
      else none

/-- Past blanks and line breaks, which an escaped line break swallows. -/
def skipBlankLines : Nat → List Char → List Char
  | 0, cs => cs
  | fuel + 1, cs =>
    let cs := cs.dropWhile isSpace
    match newline? cs with
    | some r => skipBlankLines fuel r
    | none => cs

/-- An escaped line break: blanks may stand before the break. -/
def escapedBreak? (cs : List Char) : Option (List Char) :=
  (newline? (cs.dropWhile isSpace)).map fun r => skipBlankLines (r.length + 1) r

/-- The body of a string over several lines. Up to two quotes may stand before the closing three. -/
def blockBody (literal : Bool) : Nat → List Char → List Char → Option (List Char × List Char)
  | 0, _, _ => none
  | fuel + 1, acc, cs =>
    let quote := if literal then '\'' else '"'
    match cs with
    | [] => none
    | c :: r =>
      if c == quote then
        let run := min 5 (cs.takeWhile (· == quote)).length
        let inner := if run < 3 then run else run - 3
        let acc := List.replicate inner quote ++ acc
        if run < 3 then blockBody literal fuel acc (cs.drop run) else some (acc.reverse, cs.drop run)
      else match newline? cs with
        | some r => blockBody literal fuel ('\n' :: acc) r
        | none =>
          if !literal && c == '\\' then
            match escapedBreak? r with
            | some r => blockBody literal fuel acc r
            | none =>
              match escape? r with
              | some (x, r) => blockBody literal fuel (x :: acc) r
              | none => none
          else if isTextChar c then blockBody literal fuel (c :: acc) r
          else none

def lineString (literal : Bool) (r : List Char) : Option (String × List Char) :=
  (lineBody literal (r.length + 1) [] r).map fun p => (String.ofList p.1, p.2)

/-- A string over several lines, after its opening quotes; a break right after them is dropped. -/
def blockString (literal : Bool) (r : List Char) : Option (String × List Char) :=
  let r := (newline? r).getD r
  (blockBody literal (r.length + 1) [] r).map fun p => (String.ofList p.1, p.2)

def string? : List Char → Option (String × List Char)
  | '"' :: '"' :: '"' :: r => blockString false r
  | '"' :: r => lineString false r
  | '\'' :: '\'' :: '\'' :: r => blockString true r
  | '\'' :: r => lineString true r
  | _ => none

/-- Each underscore has a character other than an underscore behind it. -/
def isSeparated : List Char → Bool
  | '_' :: '_' :: _ => false
  | ['_'] => false
  | _ :: r => isSeparated r
  | [] => true

/-- Digits with single underscores between them. -/
def digitRun? (isDigit : Char → Bool) (cs : List Char) : Option (List Char) :=
  let ds := cs.filter (· != '_')
  if ds.isEmpty || !ds.all isDigit || cs.head? == some '_' || !isSeparated cs then none else some ds

def baseValue (base : Nat) (ds : List Char) : Nat :=
  ds.foldl (fun n c => n * base + (Decimal.hexValue? c).getD 0) 0

def isBaseDigit (base : Nat) (c : Char) : Bool :=
  match Decimal.hexValue? c with
  | some d => d < base
  | none => false

def splitSign : List Char → Bool × List Char
  | '+' :: r => (false, r)
  | '-' :: r => (true, r)
  | r => (false, r)

/-- A decimal run without a leading zero. -/
def wholeRun? (cs : List Char) : Option (List Char) := do
  let ds ← digitRun? Char.isDigit cs
  if ds.head? = some '0' ∧ ds.length ≠ 1 then none else some ds

def fitsInt64 (i : Int) : Bool := -Int.pow 2 63 ≤ i && i < Int.pow 2 63

/-- A prefixed integer has no sign; every integer has 64 bits. -/
def integer? (cs : List Char) : Option Int :=
  let unsigned := fun base ds =>
    (digitRun? (isBaseDigit base) ds).map fun ds => Int.ofNat (baseValue base ds)
  let i : Option Int := match cs with
    | '0' :: 'x' :: ds => unsigned 16 ds
    | '0' :: 'o' :: ds => unsigned 8 ds
    | '0' :: 'b' :: ds => unsigned 2 ds
    | cs =>
      let (negative, ds) := splitSign cs
      (wholeRun? ds).map fun ds =>
        if negative then -Int.ofNat (Decimal.digitsValue ds) else Int.ofNat (Decimal.digitsValue ds)
  i.filter fitsInt64

/-- A float has a fraction, an exponent or both, or is one of two names. It must not be too large,
unless it is negative. -/
def float? (cs : List Char) : Option Float :=
  let (negative, body) := splitSign cs
  let x : Option Float := match body with
    | ['i', 'n', 'f'] => some (1.0 / 0.0)
    | ['n', 'a', 'n'] => some (0.0 / 0.0)
    | body => do
      let isExponent := fun c => c == 'e' || c == 'E'
      let mantissa := body.takeWhile fun c => !isExponent c
      let after := body.drop mantissa.length
      let whole ← wholeRun? (mantissa.takeWhile (· != '.'))
      let fraction ← match mantissa.dropWhile (· != '.') with
        | [] => some []
        | _ :: ds => digitRun? Char.isDigit ds
      let exponent ← match after with
        | [] => some 0
        | _ :: r => do
          let (negative, ds) := splitSign r
          let ds ← digitRun? Char.isDigit ds
          pure (if negative then -Int.ofNat (Decimal.digitsValue ds) else Int.ofNat (Decimal.digitsValue ds))
      let x := Decimal.Numeral.toFloat ⟨whole, fraction, exponent⟩
      if (fraction.isEmpty && after.isEmpty) || (x.isInf && !negative) then none else some x
  x.map fun x => if negative then -x else x

/-- Exactly two digits, worth at most `limit`. -/
def twoDigits? (limit : Nat) : List Char → Option (List Char × List Char)
  | a :: b :: r =>
    if a.isDigit && b.isDigit && Decimal.digitsValue [a, b] ≤ limit then some ([a, b], r) else none
  | _ => none

def isLeapYear (y : Nat) : Bool := (y % 4 == 0 && y % 100 != 0) || y % 400 == 0

def daysInMonth (year month : Nat) : Nat :=
  if month = 2 then if isLeapYear year then 29 else 28
  else if month = 4 ∨ month = 6 ∨ month = 9 ∨ month = 11 then 30
  else 31

def date? (cs : List Char) : Option (List Char × List Char) := do
  let year := cs.take 4
  if year.length < 4 || !year.all Char.isDigit then none
  else match cs.drop 4 with
    | '-' :: r => do
      let (month, r) ← twoDigits? 12 r
      match r with
      | '-' :: r => do
        let (day, r) ← twoDigits? 31 r
        let m := Decimal.digitsValue month
        let d := Decimal.digitsValue day
        if m = 0 ∨ d = 0 ∨ daysInMonth (Decimal.digitsValue year) m < d then none
        else some (year ++ '-' :: month ++ '-' :: day, r)
      | _ => none
    | _ => none

/-- Nine digits of a second at most, without zeros at the end. -/
def secondFraction (ds : List Char) : List Char :=
  let kept := ((ds.take 9).reverse.dropWhile (· == '0')).reverse
  if kept.isEmpty then [] else '.' :: kept

def time? (cs : List Char) : Option (List Char × List Char) := do
  let (hour, r) ← twoDigits? 23 cs
  match r with
  | ':' :: r => do
    let (minute, r) ← twoDigits? 59 r
    match r with
    | ':' :: r => do
      let (second, r) ← twoDigits? 60 r
      let whole := hour ++ ':' :: minute ++ ':' :: second
      match r with
      | '.' :: f =>
        let ds := f.takeWhile Char.isDigit
        if ds.isEmpty then some (whole, r)
        else some (whole ++ secondFraction ds, f.dropWhile Char.isDigit)
      | r => some (whole, r)
    | _ => none
  | _ => none

def offset (cs : List Char) : List Char × List Char :=
  let numeric := fun sign r =>
    match twoDigits? 23 r with
    | some (hour, ':' :: r') =>
      match twoDigits? 59 r' with
      | some (minute, r) => (sign :: hour ++ ':' :: minute, r)
      | none => ([], cs)
    | _ => ([], cs)
  match cs with
  | 'Z' :: r => (['Z'], r)
  | 'z' :: r => (['Z'], r)
  | '+' :: r => numeric '+' r
  | '-' :: r => numeric '-' r
  | _ => ([], cs)

def datetime? (cs : List Char) : Option (List Char × List Char) :=
  match date? cs with
  | none => time? cs
  | some (d, r) =>
    match r with
    | x :: r' =>
      if x == 'T' || x == 't' || x == ' ' then
        match time? r' with
        | some (t, r) =>
          let (o, r) := offset r
          some (d ++ 'T' :: t ++ o, r)
        | none => some (d, r)
      else some (d, r)
    | [] => some (d, r)

def isWordChar (c : Char) : Bool := c.isAlphanum || c == '+' || c == '-' || c == '_' || c == '.'

def word? (cs : List Char) : Option (Value × List Char) :=
  match datetime? cs with
  | some (d, r) => some (.datetime (String.ofList d), r)
  | none =>
    let w := cs.takeWhile isWordChar
    let r := cs.drop w.length
    if w = "true".toList then some (.bool true, r)
    else if w = "false".toList then some (.bool false, r)
    else match integer? w with
      | some i => some (.integer i, r)
      | none => (float? w).map fun x => (.float x, r)

end TypedEndpoints.Toml
