import TypedEndpoints.Decimal.Reading
import TypedEndpoints.Decimal.Writing
/-!
JSON numbers: as they are written, and what they are worth. A numeral without fraction and exponent
that fits 64 bits is an integer; every other one is a float. The float is `significand · 10 ^ e` with
the significand cut to 64 bits, so a numeral of more than 19 digits may miss the nearest float.
-/
namespace TypedEndpoints.Json

/-- A numeral as written; the exponent keeps its sign apart from its digits. -/
structure Numeral where
  negative : Bool
  whole : List Char
  fraction : List Char
  exponent : Option (Bool × List Char)
deriving Repr, DecidableEq

/-- An integer of 64 bits, signed or not, or a float. -/
inductive Number where
  | int (i : Int)
  | float (x : Float)

namespace Numeral

def maxWord : Nat := Nat.pow 2 64 - 1

/-- The leading digits that fit a 64-bit word, and the number of digits left over. -/
def wholeDigits (n : Nat) : List Char → Nat × Nat
  | [] => (n, 0)
  | d :: ds =>
    let m := n * 10 + Decimal.digitValue d
    if m ≤ maxWord then wholeDigits m ds else (n, (d :: ds).length)

/-- The fraction digits that still fit, appended, and their number. -/
def fractionDigits (n : Nat) : List Char → Nat × Nat
  | [] => (n, 0)
  | d :: ds =>
    let m := n * 10 + Decimal.digitValue d
    if m ≤ maxWord then
      let (r, taken) := fractionDigits m ds
      (r, taken + 1)
    else (n, 0)

def powerOfTen (n : Nat) : Float := Float.ofScientific 1 false n

/-- One multiplication or division by a power of ten, in steps of `10 ^ 308` below the least one.
`none` is a number too large for a float. -/
def scaled (f : Float) (e : Int) : Nat → Option Float
  | 0 => some f
  | steps + 1 =>
    if e.natAbs ≤ 308 then
      if 0 ≤ e then
        let g := f * powerOfTen e.toNat
        if g.isInf then none else some g
      else some (f / powerOfTen e.natAbs)
    else if f == 0.0 then some f
    else if 0 ≤ e then none
    else scaled (f / powerOfTen 308) (e + 308) steps

def signed (negative : Bool) (f : Float) : Float := if negative then -f else f

def floatOf (negative : Bool) (significand : Nat) (e : Int) : Option Number :=
  (scaled (UInt64.ofNat significand).toFloat e 4).map fun f => .float (signed negative f)

/-- The largest exponent that is counted; beyond it only zero and the vanishing numbers remain. -/
def maxExponent : Nat := Nat.pow 2 31 - 1

def clampExponent (e : Int) : Int := max (-(Int.ofNat maxExponent) - 1) (min e (Int.ofNat maxExponent))

/-- What a numeral is worth; `none` when it is too large for a float. -/
def value? (n : Numeral) : Option Number :=
  let (whole, left) := wholeDigits 0 n.whole
  match n.fraction, n.exponent with
  | [], none =>
    if left ≠ 0 then floatOf n.negative whole (Int.ofNat left)
    else if !n.negative then some (.int (Int.ofNat whole))
    else if whole ≠ 0 ∧ whole ≤ Nat.pow 2 63 then some (.int (-Int.ofNat whole))
    else some (.float (signed true (UInt64.ofNat whole).toFloat))
  | fraction, exponent =>
    let (significand, taken) := fractionDigits whole fraction
    let start := Int.ofNat left - Int.ofNat taken
    match exponent with
    | none => floatOf n.negative significand start
    | some (negative, ds) =>
      let e := Decimal.digitsValue ds
      if maxExponent < e then
        if significand ≠ 0 ∧ !negative then none else some (.float (signed n.negative 0.0))
      else
        let e := if negative then start - Int.ofNat e else start + Int.ofNat e
        floatOf n.negative significand (clampExponent e)

end Numeral

/-- Floats are positional from `1e-5` up to `1e16` and scientific elsewhere, always with a fraction
or an exponent; ties go to the even digit. -/
def floatText (x : Float) : List Char :=
  match Decimal.Binary64.ofFloat x with
  | .nan => "null".toList
  | .infinite _ => "null".toList
  | .finite negative m q =>
    let s := Decimal.shortest .toEven m q
    let body :=
      if m = 0 ∨ (-5 ≤ s.leading ∧ s.leading < 16) then Decimal.positional true s
      else Decimal.scientific s
    if negative then '-' :: body else body

def intText (i : Int) : List Char :=
  if i < 0 then '-' :: Decimal.digitsOf i.natAbs else Decimal.digitsOf i.natAbs

def Number.text : Number → List Char
  | .int i => intText i
  | .float x => floatText x

end TypedEndpoints.Json
