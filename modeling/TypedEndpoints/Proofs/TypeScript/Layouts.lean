import TypedEndpoints.Proofs.TypeScript.Reader
/-! Both layouts of a type are texts of the grammar, so that one reader takes them back to the type. The
only types left out are those whose text is taken as it is, and declared names that are keywords or no
identifiers. -/
namespace TypedEndpoints.TypeScript

/-- No text taken as it is, and every declared name an identifier that is no keyword. -/
inductive TypeExpr.Plain : TypeExpr → Prop
  | primitive (p : Primitive) : Plain (.primitive p)
  | array {t} : Plain t → Plain (.array t)
  | object {xs : List (Member TypeExpr)} : (∀ x ∈ xs, Plain x.type) → Plain (.object xs)
  | ref {name : String} : needsQuoting name = false → (∀ p : Primitive, p.name ≠ name) →
      Plain (.ref name)

theorem TypeExpr.Plain.ne_verbatim {t : TypeExpr} (h : t.Plain) (text : String) :
    t ≠ .verbatim text := by
  rintro rfl
  cases h

/-- Parentheses come with texts taken as they are only. -/
theorem inline_array {t : TypeExpr} (h : t.Plain) :
    (TypeExpr.array t).inline = t.inline ++ ['[', ']'] := by
  rw [TypeExpr.inline]
  exact h.ne_verbatim

theorem blanks_singleton : Blanks [' '] := by
  intro c hc
  cases List.mem_singleton.mp hc
  rfl

theorem blanks_tabs (n : Nat) : Blanks (tabs n) := fun c hc => by
  cases List.eq_of_mem_replicate hc
  rfl

theorem blanks_newline {bs : List Char} (h : Blanks bs) : Blanks ('\n' :: bs) := by
  intro c hc
  rcases List.mem_cons.mp hc with rfl | hc
  · rfl
  · exact h c hc

theorem inlineMember_eq (x : Member TypeExpr) :
    inlineMember x = keyChars x.name ++ (mark x.optional ++ x.type.inline) := by
  rw [inlineMember, List.append_assoc]

/-- Members on one line. Only the last one is closed by the brace. -/
theorem inlineMembers_text {x : Member TypeExpr} {xs : List (Member TypeExpr)}
    (h : ∀ y ∈ x :: xs, TypeText y.type y.type.inline) :
    MembersText (x :: xs) (' ' :: inlineMember x ++ inlineMembers xs ++ [' ', '}']) := by
  induction xs generalizing x with
  | nil =>
      have hx := h x List.mem_cons_self
      simpa [inlineMember_eq, inlineMembers] using
        MembersText.last blanks_singleton hx blanks_singleton
  | cons y ys ih =>
      have hx := h x List.mem_cons_self
      have hys := ih fun z hz => h z (List.mem_cons_of_mem x hz)
      simpa [inlineMember_eq, inlineMembers] using MembersText.more blanks_singleton hx hys

theorem inline_text {t : TypeExpr} (h : t.Plain) : TypeText t t.inline := by
  induction h with
  | primitive p =>
      rw [TypeExpr.inline]
      exact .primitive p
  | array h ih =>
      rw [inline_array h]
      exact .array ih
  | @object xs h ih =>
      cases xs with
      | nil =>
          rw [TypeExpr.inline]
          have hnone : Blanks [] := nofun
          exact .object (.close hnone)
      | cons x xs =>
          rw [TypeExpr.inline]
          exact .object (inlineMembers_text ih)
  | ref hq hp =>
      rw [TypeExpr.inline]
      exact .ref hq hp

/-- Members one a line. Each one ends with `;`, so the brace stands on a line without a member. -/
theorem blockMembers_text {indent depth close : Nat} {xs : List (Member TypeExpr)}
    (h : ∀ x ∈ xs, TypeText x.type (x.type.block indent depth)) :
    MembersText xs ('\n' :: blockMembers indent depth xs ++ tabs close ++ ['}']) := by
  induction xs with
  | nil => exact .close (blanks_newline (blanks_tabs close))
  | cons x xs ih =>
      have hx := h x List.mem_cons_self
      have hxs := ih fun y hy => h y (List.mem_cons_of_mem x hy)
      simpa [blockMembers] using
        MembersText.more (blanks_newline (blanks_tabs indent)) hx hxs

/-- Without members to spread over lines, the block layout is the one line. -/
theorem flat_text {t : TypeExpr} (h : t.Plain) (hflat : ∀ x xs, t ≠ .object (x :: xs))
    (indent depth : Nat) : TypeText t (t.block indent depth) := by
  rw [TypeExpr.block]
  · exact inline_text h
  · exact hflat

theorem block_text {t : TypeExpr} (h : t.Plain) (indent depth : Nat) :
    TypeText t (t.block indent depth) := by
  induction h generalizing indent depth with
  | primitive p => exact flat_text (.primitive p) nofun indent depth
  | array h => exact flat_text (.array h) nofun indent depth
  | ref hq hp => exact flat_text (.ref hq hp) nofun indent depth
  | @object xs h ih =>
      cases xs with
      | nil => exact flat_text (.object h) nofun indent depth
      | cons x xs =>
          cases depth with
          | zero =>
              rw [TypeExpr.block]
              exact inline_text (.object h)
          | succ depth =>
              rw [TypeExpr.block]
              exact .object (blockMembers_text fun y hy => ih y hy (indent + 1) depth)

inductive TypeExpr.LaidOut (t : TypeExpr) : String → Prop
  | line : LaidOut t t.emit
  | block (indent depth : Nat) : LaidOut t (t.emitBlock indent depth)

theorem read_laidOut {t : TypeExpr} (h : t.Plain) {text : String} (ht : t.LaidOut text) :
    TypeExpr.read text = some t := by
  cases ht with
  | line => exact read_text (inline_text h)
  | block indent depth => exact read_text (block_text h indent depth)

/-- One reader takes both layouts back to the type. So no text stands for two types, in whatever layouts,
and no name ends its key before the mark, whatever follows. -/
theorem layouts_read_back {t : TypeExpr} (h : t.Plain) :
    TypeExpr.read t.emit = some t ∧
      (∀ indent depth, TypeExpr.read (t.emitBlock indent depth) = some t) ∧
      (∀ u text, u.Plain → t.LaidOut text → u.LaidOut text → u = t) ∧
      ∀ name optional rest, readKey (keyChars name ++ (mark optional ++ rest)) =
        some (name, mark optional ++ rest) := by
  refine ⟨read_laidOut h .line, fun indent depth => read_laidOut h (.block indent depth), ?_, ?_⟩
  · intro u text hu ht hut
    have hread := read_laidOut h ht
    rw [read_laidOut hu hut] at hread
    exact Option.some.inj hread
  · exact fun name optional rest => readKey_keyChars name (wordEnds_mark optional rest)

/-- Names with quotes, backslashes, braces, semicolons and line breaks. -/
def forgingNames : TypeExpr :=
  .object [
    ⟨"it's: any; x", .array (.object [⟨"\\', y", .primitive .string, true⟩]), false⟩,
    ⟨"\x7d\n", .object [], false⟩,
    ⟨"", .ref "User", true⟩]

theorem forgingNames_plain : forgingNames.Plain := by
  refine .object ?_
  simp only [List.forall_mem_cons, List.not_mem_nil, false_imp_iff, implies_true, and_true]
  refine ⟨.array (.object ?_), .object nofun, .ref (by decide) fun p => ?_⟩
  · simp only [List.forall_mem_cons, List.not_mem_nil, false_imp_iff, implies_true, and_true]
    exact .primitive .string
  · cases p <;> decide

theorem layouts_read_back_forgingNames : forgingNames.Plain ∧
    forgingNames.emit =
      "\x7b 'it\\'s: any; x': \x7b '\\\\\\', y'?: string \x7d[]; '\x7d\n': \x7b\x7d; ''?: User \x7d" ∧
    TypeExpr.read forgingNames.emit = some forgingNames ∧
    TypeExpr.read (forgingNames.emitBlock 1 2) = some forgingNames := by
  have h := layouts_read_back forgingNames_plain
  exact ⟨forgingNames_plain, by decide, h.1, h.2.1 1 2⟩

end TypedEndpoints.TypeScript
