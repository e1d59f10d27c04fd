import TypedEndpoints.Generation.Output
import TypedEndpoints.Proofs.Generation.Within
import TypedEndpoints.Proofs.OpenApi.Resolution
import TypedEndpoints.Proofs.OrderedMap
/-! Strict generation. The check walks the references of a document, the translation walks its types;
every name the translation writes is the end of a reference the check has seen. -/
namespace TypedEndpoints.Generation
open OpenApi TypeScript

theorem own_reference {s : Schema} {ref : String} (h : s.ref = some ref) (location : String) :
    ⟨ref, location⟩ ∈ schemaReferences location s := by
  cases s
  simp only at h
  simp [schemaReferences, h]

theorem item_references {s i : Schema} (h : s.items = some i) (location : String) :
    schemaReferences location i ⊆ schemaReferences location s := by
  intro r hr
  cases s
  simp only at h
  simp only [schemaReferences, h, itemReferences, List.mem_append]
  exact .inl (.inr hr)

theorem property_references {s q : Schema} {ps : List (String × Schema)} {name : String}
    (h : s.properties = some ps) (hq : (name, q) ∈ ps) (location : String) :
    schemaReferences (location ++ "." ++ name) q ⊆ schemaReferences location s := by
  have each : schemaReferences (location ++ "." ++ name) q ⊆
      eachPropertyReferences location ps := by
    clear h
    intro r hr
    induction ps with
    | nil => cases hq
    | cons p ps ih =>
        rw [eachPropertyReferences]
        rcases List.mem_cons.mp hq with rfl | hq
        · exact List.mem_append_left _ hr
        · exact List.mem_append_right _ (ih hq)
  intro r hr
  cases s
  simp only at h
  simp only [schemaReferences, h, propertyReferences, List.mem_append]
  exact .inr (each hr)

/-- Every name in the type of a schema ends one of its references. -/
theorem reference_of_within {n : String} {u : TypeExpr} (h : (TypeExpr.ref n).Within u)
    {s : Schema} (hs : typeOf s = u) (location : String) :
    ∃ r ∈ schemaReferences location s, refName r.target = n := by
  induction h generalizing s with
  | here =>
      obtain ⟨ref, href, hname⟩ := typeOf_eq_ref hs
      exact ⟨⟨ref, location⟩, own_reference href location, hname⟩
  | member hx h ih => exact absurd hs (typeOf_ne_object s _)
  | item h ih =>
      rcases typeOf_eq_array hs with rfl | ⟨i, hi, rfl⟩
      · cases TypeExpr.within_primitive h
      · obtain ⟨r, hr, hn⟩ := ih rfl
        exact ⟨r, item_references hi location hr, hn⟩

/-- The schema references among these all name component schemas. -/
def Resolve (d : Document) (rs : List Reference) : Prop :=
  ∀ r ∈ rs, d.hasSchema (refName r.target) = true

theorem Resolve.within {d : Document} {location : String} {s : Schema}
    (hs : Resolve d (schemaReferences location s)) {n : String}
    (h : (TypeExpr.ref n).Within (typeOf s)) : d.hasSchema n = true := by
  obtain ⟨r, hr, rfl⟩ := reference_of_within h rfl location
  exact hs r hr

/-- Nothing in a document dangles: no schema reference, and no parameter reference of an operation. -/
structure Resolved (d : Document) : Prop where
  schemas : ∀ p ∈ d.schemas, Resolve d (schemaReferences p.1 p.2)
  parameters : ∀ p ∈ d.paths, ∀ q ∈ p.2.operations,
    ∀ x ∈ p.2.parameters.getD [] ++ q.2.parameters.getD [],
      x.ref.isSome = true → (d.resolve? x).isSome = true
  operations : ∀ p ∈ d.paths, ∀ q ∈ p.2.operations,
    Resolve d (operationReferences d (q.1.name ++ " " ++ p.1) p.2.parameters q.2)

@[simp] theorem filter_dangles_eq_nil {d : Document} {rs : List Reference} :
    rs.filter (danglesIn d) = [] ↔ Resolve d rs := by
  rw [List.filter_eq_nil_iff]
  refine forall_congr' fun r => imp_congr_right fun _ => ?_
  cases h : d.hasSchema (refName r.target) <;> simp [danglesIn, h]

@[simp] theorem danglingParameters_eq_nil {d : Document} {location : String} {ps : List Parameter} :
    danglingParameters d location ps = [] ↔
      ∀ x ∈ ps, x.ref.isSome = true → (d.resolve? x).isSome = true := by
  rw [danglingParameters, List.filterMap_eq_nil_iff]
  refine forall_congr' fun x => imp_congr_right fun _ => ?_
  cases hr : x.ref <;> cases hx : d.resolve? x <;> simp

theorem dangling_eq_nil {d : Document} : dangling d = [] ↔ Resolved d := by
  simp only [dangling, danglingInOperation, List.append_eq_nil_iff, List.flatMap_eq_nil_iff,
    filter_dangles_eq_nil, danglingParameters_eq_nil]
  constructor
  · rintro ⟨hs, ho⟩
    refine ⟨?_, fun p hp q hq => (ho p hp q hq).1, fun p hp q hq => (ho p hp q hq).2⟩
    intro p hp r hr
    exact hs r (List.mem_flatMap.mpr ⟨p, hp, hr⟩)
  · intro h
    refine ⟨?_, fun p hp q hq => ⟨h.parameters p hp q hq, h.operations p hp q hq⟩⟩
    intro r hr
    obtain ⟨p, hp, hr⟩ := List.mem_flatMap.mp hr
    exact h.schemas p hp r hr

@[simp] theorem generate_permissive (overrides : Overrides) (d : Document) :
    generate false overrides d = .ok (output overrides d) := rfl

theorem generate_strict_ok {overrides : Overrides} {d : Document} {text : String} :
    generate true overrides d = .ok text ↔ Resolved d ∧ text = output overrides d := by
  rw [← dangling_eq_nil, generate]
  cases h : dangling d with
  | nil => simp [eq_comm]
  | cons r rs => simp

theorem optional_references {o : Option Schema} {s : Schema} (h : o = some s) (location : String) :
    optionalReferences location o = schemaReferences location s := by
  rw [h, optionalReferences]

theorem shownSchemas_references {d : Document} (location : String)
    {shared : Option (List Parameter)} {o : Operation} {s : Schema}
    (hs : s ∈ shownSchemas (d.mergeParameters shared o) o) :
    ∃ place, schemaReferences place s ⊆ operationReferences d location shared o := by
  simp only [shownSchemas, List.mem_append, List.mem_filterMap, Option.mem_toList] at hs
  rcases hs with (⟨m, hm, hs⟩ | hs) | hs
  · refine ⟨location ++ " parameter " ++ m.name, fun r hr => ?_⟩
    rw [← optional_references hs] at hr
    exact List.mem_append_left _ (List.mem_append_left _ (List.mem_flatMap.mpr ⟨m, hm, hr⟩))
  · refine ⟨location ++ " request body", fun r hr => ?_⟩
    rw [← optional_references hs] at hr
    exact List.mem_append_left _ (List.mem_append_right _ hr)
  · refine ⟨location ++ " response", fun r hr => ?_⟩
    rw [← optional_references hs] at hr
    exact List.mem_append_right _ hr

namespace Resolved
variable {d : Document} (hd : Resolved d)
include hd

theorem endpoints {n : String} (h : (TypeExpr.ref n).Within (endpoints d)) :
    d.hasSchema n = true := by
  rcases within_endpoints h with h | ⟨p, hp, h | ⟨q, hq, h⟩⟩
  · cases h
  · cases h
  · rcases within_signature h with h | h | h | h | ⟨s, hs, h⟩
    · cases h
    · unfold requestType at h
      split at h <;> cases h
    · cases h
    · cases h
    · obtain ⟨place, hsub⟩ := shownSchemas_references (q.1.name ++ " " ++ p.1) hs
      have hr : Resolve d (schemaReferences place s) := fun r hr =>
        hd.operations p hp q hq r (hsub hr)
      exact hr.within h

theorem declarations {overrides : Overrides} {x : Declaration}
    (hx : x ∈ declarations overrides d) {n : String}
    (h : (TypeExpr.ref n).Within x.definition.body) : d.hasSchema n = true := by
  rcases within_declarations hx h with ⟨text, h⟩ | ⟨p, hp, h | h | ⟨ps, hps, q, hq, h⟩⟩
  · cases h
  · cases h
  · exact (hd.schemas p hp).within h
  · have hr : Resolve d (schemaReferences (p.1 ++ "." ++ q.1) q.2) := fun r hr =>
      hd.schemas p hp r (property_references hps hq p.1 hr)
    exact hr.within h

end Resolved

/-- A line of its own that declares a name. -/
def Declares (text name : String) : Prop :=
  ∃ body, ("\nexport type " ++ name ++ " = " ++ body ++ ";\n").toList <:+: text.toList

theorem declares_of_mem {overrides : Overrides} {d : Document} {x : Declaration}
    (hx : x ∈ declarations overrides d) : Declares (output overrides d) x.name := by
  obtain ⟨before, after, hsplit⟩ := List.append_of_mem hx
  have htext : (output overrides d).toList =
      (endpointsChars d ++ before.flatMap (fun y => '\n' :: y.chars)) ++ '\n' :: x.chars ++
        after.flatMap (fun y => '\n' :: y.chars) := by
    simp only [output, outputChars, hsplit, String.toList_ofList, List.flatMap_append,
      List.flatMap_cons, List.append_assoc, List.cons_append]
  have hline : ("\nexport type " ++ x.name ++ " = " ++ String.ofList x.definition.chars ++
      ";\n").toList = '\n' :: x.chars := by
    unfold Declaration.chars
    simp only [String.toList_append, String.toList_ofList]
    rfl
  refine ⟨String.ofList x.definition.chars, ?_⟩
  rw [hline, htext]
  exact List.infix_append _ _ _

@[simp] theorem declarationOf_name (overrides : Overrides) (name : String) (s : Schema) :
    (declarationOf overrides name s).name = name := by
  unfold declarationOf
  split <;> rfl

theorem output_declares (overrides : Overrides) {d : Document} {n : String}
    (h : d.hasSchema n = true) : Declares (output overrides d) n := by
  obtain ⟨s, hs⟩ := OrderedMap.exists_mem_of_contains h
  have hx : declarationOf overrides n s ∈ declarations overrides d :=
    List.mem_map.mpr ⟨(n, s), hs, rfl⟩
  simpa using declares_of_mem hx

/-- A type of the generated file: in the endpoints or in a declaration. -/
def Generated (overrides : Overrides) (d : Document) (t : TypeExpr) : Prop :=
  t.Within (endpoints d) ∨ ∃ x ∈ declarations overrides d, t.Within x.definition.body

theorem Resolved.generated {overrides : Overrides} {d : Document} (hd : Resolved d) {n : String}
    (h : Generated overrides d (.ref n)) : d.hasSchema n = true := by
  rcases h with h | ⟨x, hx, h⟩
  · exact hd.endpoints h
  · exact hd.declarations hx h

theorem Resolved.target {d : Document} (hd : Resolved d) {p : String × PathItem} (hp : p ∈ d.paths)
    {q : Method × Operation} (hq : q ∈ p.2.operations) {x : Parameter}
    (hx : x ∈ p.2.parameters.getD [] ++ q.2.parameters.getD []) (href : x.ref.isSome = true) :
    ∃ target, StandsFor d x target := by
  obtain ⟨target, htarget⟩ := Option.isSome_iff_exists.mp (hd.parameters p hp q hq x hx href)
  exact ⟨target, resolve?_eq_some_iff.mp htarget⟩

/-- Permissive generation never fails. When strict generation succeeds it gives the same text; every
name in its types is a component schema and is declared there; every own parameter reference is kept,
and every shared one of a path with operations is kept or replaced at its name and location. -/
theorem strict_generation_sound (overrides : Overrides) (d : Document) :
    (∃ text, generate false overrides d = .ok text) ∧
      ∀ text, generate true overrides d = .ok text →
        generate false overrides d = .ok text ∧
        (∀ n, Generated overrides d (.ref n) → n ∈ OrderedMap.keys d.schemas ∧ Declares text n) ∧
        (∀ p ∈ d.paths, ∀ q ∈ p.2.operations, ∀ x ∈ q.2.parameters.getD [], x.ref.isSome = true →
          ∃ target, StandsFor d x target ∧ target ∈ d.mergeParameters p.2.parameters q.2) ∧
        ∀ p ∈ d.paths, p.2.operations ≠ [] → ∀ x ∈ p.2.parameters.getD [], x.ref.isSome = true →
          ∃ target, StandsFor d x target ∧ ∀ q ∈ p.2.operations,
            ∃ m ∈ d.mergeParameters p.2.parameters q.2,
              m.name = target.name ∧ m.location = target.location := by
  refine ⟨⟨_, generate_permissive overrides d⟩, ?_⟩
  intro text h
  obtain ⟨hd, rfl⟩ := generate_strict_ok.mp h
  refine ⟨generate_permissive overrides d, ?_, ?_, ?_⟩
  · intro n hn
    have hschema := hd.generated hn
    exact ⟨OrderedMap.contains_iff.mp hschema, output_declares overrides hschema⟩
  · intro p hp q hq x hx href
    obtain ⟨target, htarget⟩ := hd.target hp hq (List.mem_append_right _ hx) href
    have hown : target ∈ d.resolveAll q.2.parameters :=
      Document.mem_resolveAll.mpr ⟨x, hx, resolve?_eq_some_iff.mpr htarget⟩
    exact ⟨target, htarget, Document.mem_merge.mpr (.inl hown)⟩
  · intro p hp hne x hx href
    obtain ⟨q, hq⟩ := List.exists_mem_of_ne_nil _ hne
    obtain ⟨target, htarget⟩ := hd.target hp hq (List.mem_append_left _ hx) href
    have hshared : target ∈ d.resolveAll p.2.parameters :=
      Document.mem_resolveAll.mpr ⟨x, hx, resolve?_eq_some_iff.mpr htarget⟩
    exact ⟨target, htarget, fun q _ => Document.merge_covers_shared hshared⟩

/-- A list of pets with a page size: one schema reference under an array, one parameter reference. -/
def petList : Document where
  paths := [("/pets", {
    operations := [(.get, {
      responses := [("200", { content := some [("application/json", { schema := some {
        type := some (.single "array")
        items := some { ref := some "#/components/schemas/Pet" } } })] })] })]
    parameters := some [{ ref := some "#/components/parameters/Size" }] })]
  components := some {
    schemas := some [("Pet", { type := some (.single "object") })]
    parameters := some [("Size", { name := "size", location := "query" })] }

theorem petList_within : Generated [] petList (.ref "Pet") :=
  .inl (.member List.mem_cons_self (.member List.mem_cons_self
    (.member List.mem_cons_self (.item .here))))

theorem strict_generation_petList :
    generate true [] petList = .ok (output [] petList) ∧ Declares (output [] petList) "Pet" := by
  have h : generate true [] petList = .ok (output [] petList) :=
    generate_strict_ok.mpr ⟨dangling_eq_nil.mp (by decide), rfl⟩
  exact ⟨h, (((strict_generation_sound [] petList).2 _ h).2.1 "Pet" petList_within).2⟩

end TypedEndpoints.Generation
