/-!
Reading decimals. A numeral is read digit by digit into an integer and a power of ten, and only then
rounded, once, to the nearest 64-bit float.
-/
namespace TypedEndpoints.Decimal

def digitValue (c : Char) : Nat := c.toNat - '0'.toNat

def digitsValue (ds : List Char) : Nat := ds.foldl (fun n c => n * 10 + digitValue c) 0

def hexValue? (c : Char) : Option Nat :=
  if c.isDigit then some (digitValue c)
  else if 'a' ≤ c ∧ c ≤ 'f' then some (c.toNat - 'a'.toNat + 10)
  else if 'A' ≤ c ∧ c ≤ 'F' then some (c.toNat - 'A'.toNat + 10)
  else none

def hexDigitsValue? (ds : List Char) : Option Nat :=
  ds.foldl (fun n c => do let n ← n; let d ← hexValue? c; pure (n * 16 + d)) (some 0)

/-- The float nearest to `m · 10 ^ e`. The two tests only keep powers of ten small: beyond them the
number is above or below every float. -/
def nearestFloat (m : Nat) (e : Int) : Float :=
  let size := Int.ofNat (Nat.toDigits 10 m).length + e
  if m = 0 then 0.0
  else if 310 < size then 1.0 / 0.0
  else if size < -330 then 0.0
  else if 0 ≤ e then Float.ofScientific m false e.toNat
  else Float.ofScientific m true (-e).toNat

structure Numeral where
  whole : List Char
  fraction : List Char
  exponent : Int
deriving Repr, DecidableEq

/-- An optional sign and at least one digit, up to the end. -/
def exponent? (cs : List Char) : Option Int :=
  let (negative, ds) := match cs with
    | '+' :: r => (false, r)
    | '-' :: r => (true, r)
    | r => (false, r)
  if ds.isEmpty || !ds.all Char.isDigit then none
  else some (if negative then -Int.ofNat (digitsValue ds) else Int.ofNat (digitsValue ds))

/-- Digits may be missing on one side of the point, but not on both. -/
def numeral? (cs : List Char) : Option Numeral :=
  let whole := cs.takeWhile Char.isDigit
  let rest := cs.dropWhile Char.isDigit
  let (fraction, rest) := match rest with
    | '.' :: r => (r.takeWhile Char.isDigit, r.dropWhile Char.isDigit)
    | r => ([], r)
  if whole.isEmpty && fraction.isEmpty then none
  else match rest with
    | [] => some ⟨whole, fraction, 0⟩
    | c :: r => if c = 'e' ∨ c = 'E' then (exponent? r).map (⟨whole, fraction, ·⟩) else none

def Numeral.toFloat (n : Numeral) : Float :=
  nearestFloat (digitsValue (n.whole ++ n.fraction)) (n.exponent - Int.ofNat n.fraction.length)

/-- A float in the usual notation: an optional sign, then a numeral, an infinity or `nan`; letters in
either case. -/
def float? (cs : List Char) : Option Float :=
  let (negative, body) := match cs with
    | '+' :: r => (false, r)
    | '-' :: r => (true, r)
    | r => (false, r)
  let size : Option Float := match String.ofList (body.map Char.toLower) with
    | "inf" => some (1.0 / 0.0)
    | "infinity" => some (1.0 / 0.0)
    | "nan" => some (0.0 / 0.0)
    | _ => (numeral? body).map Numeral.toFloat
  size.map fun x => if negative then -x else x

end TypedEndpoints.Decimal
