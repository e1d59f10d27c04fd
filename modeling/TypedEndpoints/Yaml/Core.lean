import TypedEndpoints.Decimal.Reading
/-!
What an unquoted scalar without a tag stands for: nothing, a truth value, a number, or else its text.
Digits behind a leading zero are text.
-/
namespace TypedEndpoints.Yaml.Core

def isNull (s : String) : Bool := s == "null" || s == "Null" || s == "NULL" || s == "~"

def bool? (s : String) : Option Bool :=
  if s = "true" ∨ s = "True" ∨ s = "TRUE" then some true
  else if s = "false" ∨ s = "False" ∨ s = "FALSE" then some false
  else none

def isWithin (base limit : Nat) (ds : List Char) : Bool :=
  !ds.isEmpty &&
    match ds.foldl (fun n c => do
        let n ← n
        let d ← Decimal.hexValue? c
        if d < base then pure (n * base + d) else none) (some 0) with
    | some n => n ≤ limit
    | none => false

/-- Digits behind `0x`, `0o` or `0b`. -/
def isPrefixed (limit : Nat) : List Char → Bool
  | '0' :: 'x' :: ds => isWithin 16 limit ds
  | '0' :: 'o' :: ds => isWithin 8 limit ds
  | '0' :: 'b' :: ds => isWithin 2 limit ds
  | _ => false

def hasLeadingZero : List Char → Bool
  | '0' :: d :: ds => (d :: ds).all Char.isDigit
  | _ => false

/-- Integers from `-2 ^ 127` to `2 ^ 128 - 1`; larger ones in decimal are floats. -/
def isInteger : List Char → Bool
  | '-' :: cs =>
    isPrefixed (Nat.pow 2 127) cs || (!hasLeadingZero cs && isWithin 10 (Nat.pow 2 127) cs)
  | '+' :: cs =>
    isPrefixed (Nat.pow 2 128 - 1) cs || (!hasLeadingZero cs && isWithin 10 (Nat.pow 2 128 - 1) cs)
  | cs =>
    isPrefixed (Nat.pow 2 128 - 1) cs || (!hasLeadingZero cs && isWithin 10 (Nat.pow 2 128 - 1) cs)

def isInfinity (s : String) : Bool := s == ".inf" || s == ".Inf" || s == ".INF"

def isNaN (s : String) : Bool := s == ".nan" || s == ".NaN" || s == ".NAN"

def withoutSign : List Char → List Char
  | '+' :: cs => cs
  | '-' :: cs => cs
  | cs => cs

/-- Finite floats in the usual notation, the infinities, and the value that is no number. -/
def isFloat (cs : List Char) : Bool :=
  isInfinity (String.ofList (withoutSign cs)) || isNaN (String.ofList cs) ||
    (!hasLeadingZero (withoutSign cs) &&
      match Decimal.float? cs with
      | some x => x.isFinite
      | none => false)

def isText (s : String) : Bool :=
  !(s == "" || isNull s || (bool? s).isSome || isInteger s.toList || isFloat s.toList)

end TypedEndpoints.Yaml.Core
