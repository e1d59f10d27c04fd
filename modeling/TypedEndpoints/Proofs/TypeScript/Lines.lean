import TypedEndpoints.TypeScript.Layout
/-! Objects over lines: a brace, a line for each member, and a brace that closes. -/
namespace TypedEndpoints.TypeScript

/-- A member on a line of its own: its name, whether it is optional, and the text of its type. -/
def memberLine (indent : Nat) (x : String × Bool × List Char) : List Char :=
  tabs indent ++ keyChars x.1 ++ mark x.2.1 ++ x.2.2 ++ [';', '\n']

def bracedLines (indent : Nat) (xs : List (String × Bool × List Char)) : List Char :=
  '{' :: '\n' :: xs.flatMap (memberLine (indent + 1)) ++ tabs indent ++ ['}']

/-- An object over lines; an empty one takes none. -/
def objectLines (indent : Nat) (xs : List (String × Bool × List Char)) : List Char :=
  if xs.isEmpty then ['{', '}'] else bracedLines indent xs

@[simp] theorem block_zero (t : TypeExpr) (indent : Nat) : t.block indent 0 = t.inline := by
  cases t with
  | object xs =>
      cases xs with
      | nil => rfl
      | cons x xs => rw [TypeExpr.block]
  | _ => rfl

theorem blockMembers_lines (indent depth : Nat) (xs : List (Member TypeExpr)) :
    blockMembers indent depth xs =
      (xs.map fun x => (x.name, x.optional, x.type.block indent depth)).flatMap (memberLine indent) := by
  induction xs with
  | nil => rw [blockMembers, List.map_nil, List.flatMap_nil]
  | cons x xs ih =>
      rw [blockMembers, ih, List.map_cons, List.flatMap_cons]
      rfl

theorem block_object (xs : List (Member TypeExpr)) (indent depth : Nat) :
    (TypeExpr.object xs).block indent (depth + 1) =
      objectLines indent (xs.map fun x => (x.name, x.optional, x.type.block (indent + 1) depth)) := by
  cases xs with
  | nil => rfl
  | cons x xs =>
      rw [TypeExpr.block, blockMembers_lines]
      rfl

theorem structural_lines (xs : List (Member TypeExpr)) :
    (Definition.structural xs).chars =
      bracedLines 0 (xs.map fun x => (x.name, x.optional, x.type.inline)) := by
  cases xs with
  | nil => rfl
  | cons x xs =>
      change (TypeExpr.object (x :: xs)).block 0 1 = _
      rw [block_object]
      simp only [block_zero]
      rfl

end TypedEndpoints.TypeScript
