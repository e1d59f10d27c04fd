/-!
Binary numbers in decimal. A 64-bit float is taken apart into an integer times a power of two, read off
the bits, so nothing rounds. What is written are the fewest decimal digits that still name it: a decimal
names `m · 2 ^ q` when it lies in the interval of reals that round to it; the interval holds its ends
when `m` is even. Grids of one digit, two digits, ... are tried in turn, and on each only the two
neighbours of the number itself: if a point of a grid lies in the interval, so does one of these two.
-/
namespace TypedEndpoints.Decimal

/-- A 64-bit float: not a number, an infinity, or `± m · 2 ^ q` with `m < 2 ^ 53`. -/
inductive Binary64 where
  | nan
  | infinite (negative : Bool)
  | finite (negative : Bool) (m : Nat) (q : Int)
deriving Repr, DecidableEq

/-- One sign bit, eleven bits of exponent, 52 bits of fraction. -/
def Binary64.ofBits (bits : Nat) : Binary64 :=
  let negative := bits / Nat.pow 2 63 % 2 == 1
  let e := bits / Nat.pow 2 52 % 2048
  let f := bits % Nat.pow 2 52
  if e = 2047 then if f = 0 then .infinite negative else .nan
  else if e = 0 then .finite negative f (-1074)
  else .finite negative (Nat.pow 2 52 + f) (Int.ofNat e - 1075)

def Binary64.ofFloat (x : Float) : Binary64 := .ofBits x.toBits.toNat

/-- The number `digits · 10 ^ exponent`. -/
structure Scaled where
  digits : Nat
  exponent : Int
deriving Repr, DecidableEq

inductive Tie where
  | toEven
  | up
deriving Repr, DecidableEq

structure Ratio where
  num : Nat
  den : Nat

def Ratio.scale (r : Ratio) (base : Nat) (e : Int) : Ratio :=
  if 0 ≤ e then ⟨r.num * base.pow e.toNat, r.den⟩ else ⟨r.num, r.den * base.pow (-e).toNat⟩

def Ratio.le (a b : Ratio) : Bool := a.num * b.den ≤ b.num * a.den

def Ratio.lt (a b : Ratio) : Bool := a.num * b.den < b.num * a.den

def digitCount (n : Nat) : Nat := (Nat.toDigits 10 n).length

structure Interval where
  low : Ratio
  high : Ratio
  closed : Bool

def Interval.holds (i : Interval) (r : Ratio) : Bool :=
  if i.closed then i.low.le r && r.le i.high else i.low.lt r && r.lt i.high

/-- The neighbours below are half as far when `m` is the least significand of its exponent. -/
def Interval.around (m : Nat) (q : Int) : Interval :=
  let below := if m = Nat.pow 2 52 ∧ -1074 < q then 4 * m - 1 else 4 * m - 2
  { low := (Ratio.mk below 1).scale 2 (q - 2)
    high := (Ratio.mk (4 * m + 2) 1).scale 2 (q - 2)
    closed := m % 2 == 0 }

/-- The `k` with `10 ^ (k - 1) ≤ r < 10 ^ k`, for a positive fraction. -/
def Ratio.magnitude (r : Ratio) : Int :=
  let k := Int.ofNat (digitCount r.num) - Int.ofNat (digitCount r.den)
  if ((Ratio.mk 1 1).scale 10 k).le r then k + 1 else k

/-- The neighbour of `r` on the grid of multiples of `10 ^ e` that lies in the interval, the nearer
one if both do. -/
def onGrid (tie : Tie) (i : Interval) (r : Ratio) (e : Int) : Option Scaled :=
  let g := r.scale 10 (-e)
  let down := g.num / g.den
  let rest := g.num % g.den
  let holds := fun n => i.holds ((Ratio.mk n 1).scale 10 e)
  match holds down, holds (down + 1) with
  | false, false => none
  | true, false => some ⟨down, e⟩
  | false, true => some ⟨down + 1, e⟩
  | true, true =>
    let takeUp := match compare (2 * rest) g.den, tie with
      | .lt, _ => false
      | .gt, _ => true
      | .eq, .up => true
      | .eq, .toEven => down % 2 == 1
    some ⟨if takeUp then down + 1 else down, e⟩

/-- The first grid with a point in the interval, starting at `count` digits. -/
def firstGrid (tie : Tie) (i : Interval) (r : Ratio) (k : Int) (count : Nat) : Nat → Scaled
  | 0 => ⟨0, 0⟩
  | more + 1 =>
    match onGrid tie i r (k - Int.ofNat count) with
    | some s => s
    | none => firstGrid tie i r k (count + 1) more

def Scaled.strip (s : Scaled) : Nat → Scaled
  | 0 => s
  | more + 1 =>
    if s.digits % 10 = 0 ∧ s.digits ≠ 0 then
      Scaled.strip ⟨s.digits / 10, s.exponent + 1⟩ more
    else s

/-- The shortest decimal that names `m · 2 ^ q`; of several the nearest. Seventeen digits always
suffice. -/
def shortest (tie : Tie) (m : Nat) (q : Int) : Scaled :=
  if m = 0 then ⟨0, 0⟩
  else
    let r := (Ratio.mk m 1).scale 2 q
    (firstGrid tie (Interval.around m q) r r.magnitude 1 17).strip 18

def digitsOf (n : Nat) : List Char := Nat.toDigits 10 n

/-- Positional notation. `fraction` asks for `.0` after a whole number. -/
def positional (fraction : Bool) (s : Scaled) : List Char :=
  let ds := digitsOf s.digits
  if 0 ≤ s.exponent then
    ds ++ List.replicate s.exponent.toNat '0' ++ (if fraction then ['.', '0'] else [])
  else
    let places := (-s.exponent).toNat
    if places < ds.length then
      ds.take (ds.length - places) ++ '.' :: ds.drop (ds.length - places)
    else '0' :: '.' :: List.replicate (places - ds.length) '0' ++ ds

def Scaled.leading (s : Scaled) : Int := s.exponent + Int.ofNat (digitsOf s.digits).length - 1

def scientific (s : Scaled) : List Char :=
  let e := s.leading
  let sign := if 0 ≤ e then '+' else '-'
  match digitsOf s.digits with
  | [] => []
  | [d] => d :: 'e' :: sign :: digitsOf e.natAbs
  | d :: ds => d :: '.' :: ds ++ 'e' :: sign :: digitsOf e.natAbs

end TypedEndpoints.Decimal
