import TypedEndpoints.Proofs.Generation.DeclaredNames
/-! The reach of an override. References are checked without a look at the overrides, and the endpoints are
typed without one; a component schema is declared by the text given last for its own name, if there is one. -/
namespace TypedEndpoints.Generation
open OpenApi TypeScript

/-- The text given last for a name, or else the one that is seeded. -/
def lastText (mappings : List (String × String)) (name : String) : Option String :=
  (mappings.reverse.lookup name).or (Overrides.defaults.get? name)

@[simp] theorem withMappings_snoc (mappings : List (String × String)) (n t : String) :
    Overrides.withMappings (mappings ++ [(n, t)]) =
      OrderedMap.insert n t (Overrides.withMappings mappings) := by
  simp only [Overrides.withMappings, List.foldl_append, List.foldl_cons, List.foldl_nil]

@[simp] theorem lastText_snoc (mappings : List (String × String)) (n t name : String) :
    lastText (mappings ++ [(n, t)]) name = if n = name then some t else lastText mappings name := by
  rw [lastText, List.reverse_append, List.reverse_singleton, List.singleton_append, List.lookup_cons]
  by_cases h : n = name
  · simp [h]
  · rw [if_neg h, beq_false_of_ne (Ne.symm h), lastText]

@[simp] theorem get?_withMappings (mappings : List (String × String)) (name : String) :
    (Overrides.withMappings mappings).get? name = lastText mappings name := by
  -- on the last mapping, which is the one that counts
  induction mappings using List.reverseRecOn with
  | nil => rfl
  | append_singleton mappings p ih =>
      obtain ⟨n, t⟩ := p
      simp [ih]

theorem lastText_swap {a b : String × String} (h : a.1 ≠ b.1) (before after : List (String × String))
    (name : String) : lastText (before ++ a :: b :: after) name = lastText (before ++ b :: a :: after) name := by
  have hlookup : ∀ rest : List (String × String),
      (b :: a :: rest).lookup name = (a :: b :: rest).lookup name := by
    intro rest
    rw [List.lookup_cons, List.lookup_cons, List.lookup_cons, List.lookup_cons]
    by_cases ha : name = a.1
    · have hb : name ≠ b.1 := by
        rintro rfl
        exact h ha.symm
      rw [beq_false_of_ne hb]
    · rw [beq_false_of_ne ha]
  simp only [lastText, List.reverse_append, List.reverse_cons, List.append_assoc, List.cons_append,
    List.nil_append, List.lookup_append, hlookup]

/-- Whether a document is refused, and why, is the same for all overrides. -/
theorem generate_cases (strict : Bool) (d : Document) :
    (∃ e, ∀ overrides, generate strict overrides d = .error e) ∨
      ∀ overrides, generate strict overrides d = .ok (output overrides d) := by
  cases h : if strict then (dangling d).head? else none with
  | some r => exact .inl ⟨.unresolved r, fun overrides => by rw [generate, h]⟩
  | none => exact .inr fun overrides => by rw [generate, h]

/-- Only the texts for component schemas count. -/
theorem generate_congr {overrides other : Overrides} {d : Document}
    (h : ∀ name ∈ OrderedMap.keys d.schemas, overrides.get? name = other.get? name) (strict : Bool) :
    generate strict overrides d = generate strict other d := by
  have hdeclarations : declarations overrides d = declarations other d := by
    apply List.map_congr_left
    intro p hp
    have hp' := h p.1 (List.mem_map_of_mem hp)
    simp only [declarationOf, hp']
  have houtput : output overrides d = output other d := by
    simp only [output, outputChars, hdeclarations]
  rcases generate_cases strict d with ⟨e, he⟩ | hok
  · rw [he, he]
  · rw [hok, hok, houtput]

def schemaEntries (overrides : Overrides) (d : Document) : List (String × List Char) :=
  d.schemas.map fun p => (p.1, (declarationOf overrides p.1 p.2).definition.chars)

/-- Declarations in which the name `n` stands for `t`, and every other one as before. -/
def redeclare (n t : String) (entries : List (String × List Char)) : List (String × List Char) :=
  entries.map fun x => if x.1 = n then (n, t.toList) else x

theorem declarationOf_insert (overrides : Overrides) (n t name : String) (s : Schema) :
    (declarationOf (OrderedMap.insert n t overrides) name s).definition.chars =
      if name = n then t.toList else (declarationOf overrides name s).definition.chars := by
  unfold declarationOf
  rw [OrderedMap.get?_insert]
  by_cases h : name = n
  · rw [if_pos h.symm, if_pos h]
    simp only [Definition.chars, TypeExpr.inline]
  · rw [if_neg (Ne.symm h), if_neg h]

theorem schemaEntries_insert (overrides : Overrides) (n t : String) (d : Document) :
    schemaEntries (OrderedMap.insert n t overrides) d = redeclare n t (schemaEntries overrides d) := by
  rw [redeclare, schemaEntries, schemaEntries, List.map_map]
  apply List.map_congr_left
  intro p _
  simp only [Function.comp_apply, declarationOf_insert]
  split
  · next h => rw [h]
  · rfl

theorem output_schemaEntries (overrides : Overrides) (d : Document) : output overrides d =
    String.ofList (fileChars (("Endpoints", (endpoints d).block 0 2) :: schemaEntries overrides d)) := by
  rw [output, outputChars_eq]
  rfl

@[simp] theorem schemaEntries_names (overrides : Overrides) (d : Document) :
    (schemaEntries overrides d).map Prod.fst = OrderedMap.keys d.schemas := by
  rw [schemaEntries, List.map_map]
  rfl

theorem mem_redeclare {n t : String} {entries : List (String × List Char)} (h : n ∈ entries.map Prod.fst) :
    (n, t.toList) ∈ redeclare n t entries := by
  obtain ⟨x, hx, hname⟩ := List.mem_map.mp h
  apply List.mem_map.mpr
  exact ⟨x, hx, if_pos hname⟩

/-- One more override makes no difference to whether generation succeeds or why it fails. If it succeeds,
the file is the same but for the declaration of the overridden name, if there is one: that is the text of
the override. What is generated depends on the last text for each name alone, so overrides of different
names may change places. -/
theorem override_scope (strict : Bool) (d : Document) (mappings : List (String × String)) (n t : String) :
    ((∃ e, generate strict (Overrides.withMappings mappings) d = .error e ∧
        generate strict (Overrides.withMappings (mappings ++ [(n, t)])) d = .error e) ∨
      ∃ entries, entries.map Prod.fst = OrderedMap.keys d.schemas ∧
        generate strict (Overrides.withMappings mappings) d = .ok (String.ofList
          (fileChars (("Endpoints", (endpoints d).block 0 2) :: entries))) ∧
        generate strict (Overrides.withMappings (mappings ++ [(n, t)])) d = .ok (String.ofList
          (fileChars (("Endpoints", (endpoints d).block 0 2) :: redeclare n t entries))) ∧
        (d.hasSchema n = true → (n, t.toList) ∈ redeclare n t entries)) ∧
    (d.hasSchema n = false → generate strict (Overrides.withMappings (mappings ++ [(n, t)])) d =
      generate strict (Overrides.withMappings mappings) d) ∧
    (∀ other, (∀ name, lastText mappings name = lastText other name) →
      generate strict (Overrides.withMappings mappings) d =
        generate strict (Overrides.withMappings other) d) ∧
    ∀ before a b after, mappings = before ++ a :: b :: after → a.1 ≠ b.1 →
      generate strict (Overrides.withMappings mappings) d =
        generate strict (Overrides.withMappings (before ++ b :: a :: after)) d := by
  have hlast : ∀ {ms other : List (String × String)}, (∀ name, lastText ms name = lastText other name) →
      generate strict (Overrides.withMappings ms) d = generate strict (Overrides.withMappings other) d := by
    intro ms other h
    apply generate_congr
    intro name _
    simp [h]
  refine ⟨?_, ?_, fun other h => hlast h, ?_⟩
  · rcases generate_cases strict d with ⟨e, he⟩ | hok
    · exact .inl ⟨e, he _, he _⟩
    · right
      refine ⟨schemaEntries (Overrides.withMappings mappings) d, schemaEntries_names _ d, ?_, ?_, ?_⟩
      · rw [hok, output_schemaEntries]
      · rw [hok, output_schemaEntries, withMappings_snoc, schemaEntries_insert]
      · intro hn
        apply mem_redeclare
        simpa [Document.hasSchema] using hn
  · intro hn
    apply generate_congr
    intro name hname
    have hne : n ≠ name := by
      rintro rfl
      rw [Document.hasSchema, OrderedMap.contains_iff.mpr hname] at hn
      cases hn
    simp [hne]
  · rintro before a b after rfl hab
    exact hlast (lastText_swap hab before after)

/-- A type that is seeded can be overridden, and overridden back. -/
theorem override_scope_guid :
    (∃ entries, generate true (Overrides.withMappings [("Guid", "bigint")]) guidAndPage = .ok (String.ofList
        (fileChars (("Endpoints", (endpoints guidAndPage).block 0 2) :: entries))) ∧
      ("Guid", "bigint".toList) ∈ entries) ∧
    generate true (Overrides.withMappings [("Guid", "bigint"), ("Guid", "string")]) guidAndPage =
      generate true (Overrides.withMappings []) guidAndPage := by
  constructor
  · obtain ⟨⟨e, he, -⟩ | ⟨entries, -, -, hfile, hmem⟩, -⟩ :=
      override_scope true guidAndPage [] "Guid" "bigint"
    · have hok : generate true (Overrides.withMappings []) guidAndPage = .ok _ :=
        generate_strict_ok.mpr ⟨dangling_eq_nil.mp (by decide), rfl⟩
      rw [hok] at he
      cases he
    · exact ⟨_, hfile, hmem (by decide)⟩
  · obtain ⟨-, -, hlast, -⟩ :=
      override_scope true guidAndPage [("Guid", "bigint"), ("Guid", "string")] "Guid" "string"
    apply hlast
    intro name
    have hback := lastText_snoc [("Guid", "bigint")] "Guid" "string" name
    have hover := lastText_snoc [] "Guid" "bigint" name
    simp only [List.singleton_append, List.nil_append] at hback hover
    rw [hback, hover]
    by_cases h : "Guid" = name
    · subst h
      rw [if_pos rfl]
      rfl
    · rw [if_neg h, if_neg h]

end TypedEndpoints.Generation
