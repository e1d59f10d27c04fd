/-!
Text as bytes. `encode` writes each character in its one shortest form; `decode` accepts these forms
only and otherwise names the first byte that cannot be read, with the length of the longest prefix
of a character that stands there.
-/
namespace TypedEndpoints

abbrev Bytes := List UInt8

namespace Text

inductive Utf8Fault where
  | invalid (length index : Nat)
  | incomplete (index : Nat)
deriving Repr, DecidableEq

def Utf8Fault.message : Utf8Fault → String
  | .invalid length index =>
    "invalid utf-8 sequence of " ++ toString length ++ " bytes from index " ++ toString index
  | .incomplete index => "incomplete utf-8 byte sequence from index " ++ toString index

def encodeChar (c : Char) : Bytes :=
  let n := c.toNat
  if n < 0x80 then [UInt8.ofNat n]
  else if n < 0x800 then [UInt8.ofNat (0xC0 + n / 64), UInt8.ofNat (0x80 + n % 64)]
  else if n < 0x10000 then
    [UInt8.ofNat (0xE0 + n / 4096), UInt8.ofNat (0x80 + n / 64 % 64), UInt8.ofNat (0x80 + n % 64)]
  else
    [UInt8.ofNat (0xF0 + n / 262144), UInt8.ofNat (0x80 + n / 4096 % 64),
     UInt8.ofNat (0x80 + n / 64 % 64), UInt8.ofNat (0x80 + n % 64)]

def encode (cs : List Char) : Bytes := cs.flatMap encodeChar

def isContinuation (b : UInt8) : Bool := 0x80 ≤ b && b ≤ 0xBF

def isSecondOfThree (a b : UInt8) : Bool :=
  if a = 0xE0 then 0xA0 ≤ b && b ≤ 0xBF
  else if a = 0xED then 0x80 ≤ b && b ≤ 0x9F
  else isContinuation b

def isSecondOfFour (a b : UInt8) : Bool :=
  if a = 0xF0 then 0x90 ≤ b && b ≤ 0xBF
  else if a = 0xF4 then 0x80 ≤ b && b ≤ 0x8F
  else isContinuation b

/-- Six payload bits of a continuation byte appended to `n`. -/
def extend (n : Nat) (b : UInt8) : Nat := n * 64 + (b.toNat - 0x80)

/-- Read characters from bytes whose first one has the given index. -/
def decodeFrom (index : Nat) : Bytes → Except Utf8Fault (List Char)
  | [] => .ok []
  | a :: r =>
    if a < 0x80 then (Char.ofNat a.toNat :: ·) <$> decodeFrom (index + 1) r
    else if a < 0xC2 then .error (.invalid 1 index)
    else if a < 0xE0 then
      match r with
      | [] => .error (.incomplete index)
      | b :: r =>
        if isContinuation b then
          (Char.ofNat (extend (a.toNat - 0xC0) b) :: ·) <$> decodeFrom (index + 2) r
        else .error (.invalid 1 index)
    else if a < 0xF0 then
      match r with
      | [] => .error (.incomplete index)
      | [b] => .error (if isSecondOfThree a b then .incomplete index else .invalid 1 index)
      | b :: c :: r =>
        if !isSecondOfThree a b then .error (.invalid 1 index)
        else if !isContinuation c then .error (.invalid 2 index)
        else (Char.ofNat (extend (extend (a.toNat - 0xE0) b) c) :: ·) <$> decodeFrom (index + 3) r
    else if a < 0xF5 then
      match r with
      | [] => .error (.incomplete index)
      | [b] => .error (if isSecondOfFour a b then .incomplete index else .invalid 1 index)
      | [b, c] =>
        .error (if !isSecondOfFour a b then .invalid 1 index
          else if !isContinuation c then .invalid 2 index else .incomplete index)
      | b :: c :: d :: r =>
        if !isSecondOfFour a b then .error (.invalid 1 index)
        else if !isContinuation c then .error (.invalid 2 index)
        else if !isContinuation d then .error (.invalid 3 index)
        else
          (Char.ofNat (extend (extend (extend (a.toNat - 0xF0) b) c) d) :: ·) <$>
            decodeFrom (index + 4) r
    else .error (.invalid 1 index)

def decode (b : Bytes) : Except Utf8Fault (List Char) := decodeFrom 0 b

end Text
end TypedEndpoints
