import TypedEndpoints.Json.Tree
/-!
Writing JSON values compactly: no blanks, members in the order of the value, and only the escapes
that JSON demands.
-/
namespace TypedEndpoints.Json

def escapeChar (c : Char) : List Char :=
  if c = '"' then ['\\', '"']
  else if c = '\\' then ['\\', '\\']
  else if c = '\x08' then ['\\', 'b']
  else if c = '\x0c' then ['\\', 'f']
  else if c = '\n' then ['\\', 'n']
  else if c = '\r' then ['\\', 'r']
  else if c = '\t' then ['\\', 't']
  else if c.toNat < 0x20 then
    ['\\', 'u', '0', '0', Nat.digitChar (c.toNat / 16), Nat.digitChar (c.toNat % 16)]
  else [c]

def quoted (s : String) : List Char := '"' :: s.toList.flatMap escapeChar ++ ['"']

namespace Value

mutual
def chars : Value → List Char
  | .null => "null".toList
  | .bool true => "true".toList
  | .bool false => "false".toList
  | .number n => n.text
  | .text s => quoted s
  | .list [] => ['[', ']']
  | .list (v :: vs) => '[' :: chars v ++ itemChars vs ++ [']']
  | .object [] => ['{', '}']
  | .object ((k, v) :: ms) => '{' :: quoted k ++ ':' :: chars v ++ memberChars ms ++ ['}']

def itemChars : List Value → List Char
  | [] => []
  | v :: vs => ',' :: chars v ++ itemChars vs

def memberChars : List (String × Value) → List Char
  | [] => []
  | (k, v) :: ms => ',' :: quoted k ++ ':' :: chars v ++ memberChars ms
end

def render (v : Value) : String := String.ofList v.chars

end Value
end TypedEndpoints.Json
