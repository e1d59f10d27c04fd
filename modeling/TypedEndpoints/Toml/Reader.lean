import TypedEndpoints.Toml.Scalar
/-!
Reading TOML texts: key lines and headers, one after another, into one table.
-/
namespace TypedEndpoints.Toml

/-- Arrays, inline tables and dotted keys may be this long or deep, less one. -/
def nestingLimit : Nat := 80

def isBareChar (c : Char) : Bool := c.isAlphanum || c == '_' || c == '-'

def simpleKey? (cs : List Char) : Option (String × List Char) :=
  match cs with
  | '"' :: r => lineString false r
  | '\'' :: r => lineString true r
  | cs =>
    let k := cs.takeWhile isBareChar
    if k.isEmpty then none else some (String.ofList k, cs.drop k.length)

def dottedKey? : Nat → List Char → Option (List String × List Char)
  | 0, _ => none
  | fuel + 1, cs => do
    let (k, r) ← simpleKey? (cs.dropWhile isSpace)
    match r.dropWhile isSpace with
    | '.' :: r => do
      let (ks, r) ← dottedKey? fuel r
      pure (k :: ks, r)
    | r => pure ([k], r)

/-- A key as the path to its table and its last part. -/
def key? (cs : List Char) : Option (List String × String × List Char) := do
  let (ks, r) ← dottedKey? nestingLimit cs
  let last ← ks.getLast?
  if nestingLimit ≤ ks.length then none else pure (ks.dropLast, last, r)

/-- Past a comment, which may not hold control characters. -/
def comment? : List Char → Option (List Char)
  | '#' :: r =>
    let r := r.dropWhile isTextChar
    if r.isEmpty || (newline? r).isSome then some r else none
  | r => some r

def skipLines? : Nat → List Char → Option (List Char)
  | 0, _ => none
  | fuel + 1, cs => do
    let r ← comment? (cs.dropWhile isSpace)
    match newline? r with
    | some r => skipLines? fuel r
    | none => some r

def lineEnd? (cs : List Char) : Option (List Char) := do
  let r ← comment? (cs.dropWhile isSpace)
  if r.isEmpty then some r else newline? r

mutual
/-- A value inside `depth` more levels of brackets. -/
def value? : Nat → (depth : Nat) → List Char → Option (Value × List Char)
  | 0, _, _ => none
  | fuel + 1, depth, cs =>
    match cs with
    | '"' :: _ => (string? cs).map fun p => (.text p.1, p.2)
    | '\'' :: _ => (string? cs).map fun p => (.text p.1, p.2)
    | '[' :: r => if depth = 0 then none else items? fuel (depth - 1) [] r
    | '{' :: r =>
      if depth = 0 then none
      else match r.dropWhile isSpace with
        | '}' :: r => some (.table .closed [], r)
        | r => entries? fuel (depth - 1) [] r
    | cs => word? cs

/-- The items of an array; a comma may follow the last one. -/
def items? : Nat → Nat → List Value → List Char → Option (Value × List Char)
  | 0, _, _, _ => none
  | fuel + 1, depth, acc, cs => do
    match ← skipLines? (cs.length + 1) cs with
    | ']' :: r => pure (.list acc.reverse, r)
    | cs => do
      let (v, r) ← value? fuel depth cs
      match ← skipLines? (r.length + 1) r with
      | ',' :: r => items? fuel depth (v :: acc) r
      | ']' :: r => pure (.list (v :: acc).reverse, r)
      | _ => none

/-- The entries of an inline table, all on one line. -/
def entries? : Nat → Nat → Entries → List Char → Option (Value × List Char)
  | 0, _, _, _ => none
  | fuel + 1, depth, es, cs => do
    let (path, k, r) ← key? cs
    match r with
    | '=' :: r => do
      let (v, r) ← value? fuel depth (r.dropWhile isSpace)
      let es ← es.addKey path k v .closed
      match r.dropWhile isSpace with
      | ',' :: r => entries? fuel depth es r
      | '}' :: r => pure (.table .closed es, r)
      | _ => none
    | _ => none
end

/-- A table header: its path, whether it is repeated, and what follows its line. -/
def header? (cs : List Char) : Option (List String × String × Bool × List Char) :=
  match cs with
  | '[' :: '[' :: r => do
    let (path, k, r) ← key? r
    match r with
    | ']' :: ']' :: r => do pure (path, k, true, ← lineEnd? r)
    | _ => none
  | '[' :: r => do
    let (path, k, r) ← key? r
    match r with
    | ']' :: r => do pure (path, k, false, ← lineEnd? r)
    | _ => none
  | _ => none

/-- Lines up to the end; `at` is the path of the last header. -/
def lines? : Nat → (here : List String) → Entries → List Char → Option Entries
  | 0, _, _, _ => none
  | fuel + 1, here, es, cs => do
    match ← skipLines? (cs.length + 1) cs with
    | [] => pure es
    | '[' :: r => do
      let (path, k, repeated, r) ← header? ('[' :: r)
      let es ← if repeated then es.openElement path k else es.openTable path k
      lines? fuel (path ++ [k]) es r
    | cs => do
      let (path, k, r) ← key? cs
      match r with
      | '=' :: r => do
        let (v, r) ← value? (r.length + 1) nestingLimit (r.dropWhile isSpace)
        let r ← lineEnd? r
        let es ← Entries.descend false (fun _ es => es.addKey path k v .header) .header here es
        lines? fuel here es r
      | _ => none

def parse? (cs : List Char) : Option Entries :=
  let cs := match cs with
    | '\ufeff' :: r => r
    | r => r
  lines? (cs.length + 1) [] [] cs

end TypedEndpoints.Toml
