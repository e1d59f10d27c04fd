/-!
Types, declarations and their text. A type stands on one line, or with its outermost objects spread
over lines, one member a line and one tab a level. A name that is an ASCII identifier is a bare key,
every other one stands in single quotes with backslashes and quotes escaped.
-/
namespace TypedEndpoints.TypeScript

inductive Primitive where
  | string
  | number
  | boolean
  | any
  | undefined
deriving Repr, DecidableEq

structure Member (τ : Type) where
  name : String
  type : τ
  optional : Bool := false

inductive TypeExpr where
  | primitive (p : Primitive)
  | array (item : TypeExpr)
  | object (members : List (Member TypeExpr))
  | ref (name : String)
  | verbatim (text : String)

namespace TypeExpr

def any : TypeExpr := .primitive .any
def undefined : TypeExpr := .primitive .undefined

end TypeExpr

/-- What a declared name stands for: an object type with one member a line, or another type. -/
inductive Definition where
  | structural (members : List (Member TypeExpr))
  | alias (type : TypeExpr)

structure Declaration where
  name : String
  definition : Definition

def isAsciiLetter (c : Char) : Bool := ('a' ≤ c && c ≤ 'z') || ('A' ≤ c && c ≤ 'Z')

def isIdentifierStart (c : Char) : Bool := isAsciiLetter c || c == '_' || c == '$'

def isIdentifierPart (c : Char) : Bool := isIdentifierStart c || ('0' ≤ c && c ≤ '9')

def isIdentifier : List Char → Bool
  | [] => false
  | c :: cs => isIdentifierStart c && cs.all isIdentifierPart

def needsQuoting (name : String) : Bool := !isIdentifier name.toList

def escapeChar (c : Char) : List Char := if c = '\\' ∨ c = '\'' then ['\\', c] else [c]

def quoted (cs : List Char) : List Char := '\'' :: cs.flatMap escapeChar ++ ['\'']

def keyChars (name : String) : List Char :=
  if needsQuoting name then quoted name.toList else name.toList

def key (name : String) : String := String.ofList (keyChars name)

def Primitive.name : Primitive → String
  | .string => "string"
  | .number => "number"
  | .boolean => "boolean"
  | .any => "any"
  | .undefined => "undefined"

def bindsLoosely (text : String) : Bool := text.toList.any fun c => c == '|' || c == '&' || c == ' '

def mark (optional : Bool) : List Char := if optional then ['?', ':', ' '] else [':', ' ']

mutual
def TypeExpr.inline : TypeExpr → List Char
  | .primitive p => p.name.toList
  | .array (.verbatim text) =>
    if bindsLoosely text then '(' :: text.toList ++ [')', '[', ']'] else text.toList ++ ['[', ']']
  | .array item => item.inline ++ ['[', ']']
  | .object [] => ['{', '}']
  | .object (p :: ps) => '{' :: ' ' :: inlineMember p ++ inlineMembers ps ++ [' ', '}']
  | .ref name => name.toList
  | .verbatim text => text.toList

def inlineMember : Member TypeExpr → List Char
  | ⟨name, type, optional⟩ => keyChars name ++ mark optional ++ type.inline

/-- The members after the first. -/
def inlineMembers : List (Member TypeExpr) → List Char
  | [] => []
  | p :: ps => ';' :: ' ' :: inlineMember p ++ inlineMembers ps
end

def tabs (n : Nat) : List Char := List.replicate n '\t'

mutual
/-- A type with its outermost `depth` levels of objects spread over lines, from `indent` tabs. -/
def TypeExpr.block (indent depth : Nat) : TypeExpr → List Char
  | .object (p :: ps) =>
    match depth with
    | 0 => (TypeExpr.object (p :: ps)).inline
    | d + 1 => '{' :: '\n' :: blockMembers (indent + 1) d (p :: ps) ++ tabs indent ++ ['}']
  | t => t.inline

def blockMembers (indent depth : Nat) : List (Member TypeExpr) → List Char
  | [] => []
  | ⟨name, type, optional⟩ :: ps =>
    tabs indent ++ keyChars name ++ mark optional ++ type.block indent depth ++ [';', '\n'] ++
      blockMembers indent depth ps
end

def TypeExpr.emit (t : TypeExpr) : String := String.ofList t.inline

def TypeExpr.emitBlock (t : TypeExpr) (indent depth : Nat) : String :=
  String.ofList (t.block indent depth)

def Definition.chars : Definition → List Char
  | .structural [] => ['{', '\n', '}']
  | .structural members => (TypeExpr.object members).block 0 1
  | .alias type => type.inline

def Declaration.chars (d : Declaration) : List Char :=
  "export type ".toList ++ d.name.toList ++ [' ', '=', ' '] ++ d.definition.chars ++ [';', '\n']

def Declaration.emit (d : Declaration) : String := String.ofList d.chars

end TypedEndpoints.TypeScript
