import TypedEndpoints.Generation.Output
import TypedEndpoints.Proofs.OpenApi.Positions
import TypedEndpoints.Proofs.OpenApi.Resolution
import TypedEndpoints.Proofs.OrderedMap
/-! The reference that strict generation reports. The check lists dangling references; the list is
compared with the positions of a document, and its head with the first position. -/
namespace TypedEndpoints.Generation
open OpenApi

/-- A place below properties of a labelled schema. Items have the place of what they are items of. -/
def placeBelow (label : String) (names : List String) : String :=
  names.foldl (fun place name => place ++ "." ++ name) label

/-- At an address of a schema stands this reference. -/
def SchemaHolds (label : String) (s : Schema) (a : Address) (r : Reference) : Prop :=
  ∃ names, s.Refers a names r.target ∧ r.location = placeBelow label names

/-- At an address of a schema stands this reference, and its last segment names no component schema. -/
def SchemaDangles (d : Document) (label : String) (s : Schema) (a : Address) (r : Reference) : Prop :=
  SchemaHolds label s a r ∧ ∃ name, LastSegment r.target name ∧ name ∉ OrderedMap.keys d.schemas

/-- The dangling references of an operation: parameters that stand for nothing, the path's first; then
the schemas of the parameters that it carries, of the body and of the response. -/
inductive OperationDangles (d : Document) (label : String) (shared : Option (List Parameter))
    (o : Operation) : Address → Reference → Prop
  | parameter {k p target} : (shared.getD [] ++ o.parameters.getD [])[k]? = some p →
      p.ref = some target → (∀ t, ¬ StandsFor d p t) →
      OperationDangles d label shared o [0, k] ⟨target, label ++ " parameters"⟩
  | kept {ts k p s a r} : o.Carries d shared ts → ts[k]? = some p → p.schema = some s →
      SchemaDangles d (label ++ " parameter " ++ p.name) s a r →
      OperationDangles d label shared o (1 :: k :: a) r
  | body {s a r} : o.JsonBody s → SchemaDangles d (label ++ " request body") s a r →
      OperationDangles d label shared o (2 :: a) r
  | response {s a r} : o.JsonOk s → SchemaDangles d (label ++ " response") s a r →
      OperationDangles d label shared o (3 :: a) r

/-- The dangling references of a document: component schemas first, then operations. -/
inductive Dangles (d : Document) : Address → Reference → Prop
  | component {i name s a r} : d.schemas[i]? = some (name, s) → SchemaDangles d name s a r →
      Dangles d (0 :: i :: a) r
  | operation {i path item j method o a r} : d.paths[i]? = some (path, item) →
      item.operations[j]? = some (method, o) →
      OperationDangles d (method.name ++ " " ++ path) item.parameters o a r →
      Dangles d (1 :: i :: j :: a) r

theorem itemReferences_eq (location : String) (items : Option Schema) :
    itemReferences location items = items.elim [] (schemaReferences location) := by
  cases items <;> rw [itemReferences, Option.elim]

theorem eachPropertyReferences_eq (location : String) (ps : List (String × Schema)) :
    eachPropertyReferences location ps =
      ps.flatMap fun p => schemaReferences (location ++ "." ++ p.1) p.2 := by
  induction ps with
  | nil => rw [eachPropertyReferences, List.flatMap_nil]
  | cons p ps ih => rw [eachPropertyReferences, List.flatMap_cons, ih]

theorem propertyReferences_eq (location : String) (properties : Option (List (String × Schema))) :
    propertyReferences location properties = properties.elim [] fun ps =>
      ps.flatMap fun p => schemaReferences (location ++ "." ++ p.1) p.2 := by
  cases properties with
  | none => rw [propertyReferences, Option.elim]
  | some ps => rw [propertyReferences, Option.elim, eachPropertyReferences_eq]

theorem optionalReferences_eq (location : String) (s : Option Schema) :
    optionalReferences location s = s.elim [] (schemaReferences location) := by
  cases s <;> rfl

theorem schemaReferences_eq (location : String) (s : Schema) :
    schemaReferences location s = s.ref.toList.map (⟨·, location⟩) ++
      (itemReferences location s.items ++ propertyReferences location s.properties) := by
  cases s
  rw [schemaReferences, List.append_assoc]

/-- The walk of a schema meets its references in the order of their addresses. -/
theorem schemaReferences_enumerates (location : String) (s : Schema) :
    Enumerates (schemaReferences location s) (SchemaHolds location s) := by
  induction s using Schema.ind generalizing location with
  | h s hitems hproperties =>
  have own := (Enumerates.option s.ref).map fun target => Reference.mk target location
  have items := Enumerates.elim fun i hi => hitems i hi location
  have properties := Enumerates.elim fun ps hps => Enumerates.flatMap fun p hp =>
    hproperties ps hps p hp (location ++ "." ++ p.1)
  rw [schemaReferences_eq, itemReferences_eq, propertyReferences_eq]
  refine (own.append ((items.along 0).append (properties.along 1) ?_) ?_).congr ?_
  · intro a r ha c q hc
    exact ha.before Nat.zero_lt_one hc
  · -- the own reference has the empty address, which is before all others
    rintro a r ⟨target, ⟨rfl, -⟩, -⟩ c q (⟨rest, rfl, -⟩ | ⟨rest, rfl, -⟩)
    · exact .nil
    · exact .nil
  · intro a r
    constructor
    · rintro (⟨target, ⟨rfl, href⟩, rfl⟩ | ⟨rest, rfl, i, hi, names, hrefers, hplace⟩ |
        ⟨rest, rfl, ps, hps, k, ⟨name, q⟩, hk, below, rfl, names, hrefers, hplace⟩)
      · exact ⟨[], .own href, rfl⟩
      · exact ⟨names, .item hi hrefers, hplace⟩
      · exact ⟨name :: names, .property hps hk hrefers, hplace⟩
    · rintro ⟨names, hrefers, hplace⟩
      obtain ⟨target, place⟩ := r
      cases hrefers with
      | own href =>
          cases hplace
          exact .inl ⟨target, ⟨rfl, href⟩, rfl⟩
      | item hi hrefers => exact .inr (.inl ⟨_, rfl, _, hi, names, hrefers, hplace⟩)
      | property hps hk hrefers =>
          exact .inr (.inr ⟨_, rfl, _, hps, _, _, hk, _, rfl, _, hrefers, hplace⟩)

def OptionalHolds (label : String) (o : Option Schema) (a : Address) (r : Reference) : Prop :=
  ∃ s, o = some s ∧ SchemaHolds label s a r

theorem optionalReferences_enumerates (label : String) (o : Option Schema) :
    Enumerates (optionalReferences label o) (OptionalHolds label o) := by
  rw [optionalReferences_eq]
  exact Enumerates.elim fun s _ => schemaReferences_enumerates label s

theorem operationReferences_enumerates (d : Document) (label : String)
    (shared : Option (List Parameter)) (o : Operation) :
    Enumerates (operationReferences d label shared o) fun a r =>
      (Along 1 (AlongEach (d.mergeParameters shared o) fun p =>
        OptionalHolds (label ++ " parameter " ++ p.name) p.schema) a r ∨
      Along 2 (OptionalHolds (label ++ " request body") o.jsonBody?) a r) ∨
      Along 3 (OptionalHolds (label ++ " response") o.jsonOk?) a r := by
  have kept := Enumerates.flatMap (l := d.mergeParameters shared o) fun p _ =>
    optionalReferences_enumerates (label ++ " parameter " ++ p.name) p.schema
  have body := optionalReferences_enumerates (label ++ " request body") o.jsonBody?
  have response := optionalReferences_enumerates (label ++ " response") o.jsonOk?
  refine ((kept.along 1).append (body.along 2) ?_).append (response.along 3) ?_
  · intro a r ha c q hc
    exact ha.before (by decide) hc
  · rintro a r (ha | ha) c q hc
    · exact ha.before (by decide) hc
    · exact ha.before (by decide) hc

theorem danglingParameters_enumerates (d : Document) (label : String) (ps : List Parameter) :
    Enumerates (danglingParameters d label ps) (AlongEach ps fun p a r => a = [] ∧
      ∃ target, p.ref = some target ∧ d.resolve? p = none ∧ r = ⟨target, label ++ " parameters"⟩) := by
  refine (Enumerates.filterMap ps _).congr fun a r => ?_
  refine exists_congr fun i => exists_congr fun p => and_congr_right fun _ =>
    exists_congr fun rest => and_congr_right fun _ => and_congr_right fun _ => ?_
  cases p.ref <;> cases d.resolve? p <;> simp [eq_comm]

theorem danglesIn_iff {d : Document} {r : Reference} : danglesIn d r = true ↔
    ∃ name, LastSegment r.target name ∧ name ∉ OrderedMap.keys d.schemas := by
  have hname : danglesIn d r = true ↔ refName r.target ∉ OrderedMap.keys d.schemas := by
    rw [danglesIn, Bool.not_eq_true', ← Bool.not_eq_true, Document.hasSchema, OrderedMap.contains_iff]
  rw [hname]
  constructor
  · intro h
    exact ⟨_, refName_eq_iff.mp rfl, h⟩
  · rintro ⟨name, hsegment, h⟩
    rwa [refName_eq_iff.mpr hsegment]

theorem danglingInOperation_enumerates (d : Document) (path : String) (item : PathItem)
    (method : Method) (o : Operation) :
    Enumerates (danglingInOperation d path item method o)
      (OperationDangles d (method.name ++ " " ++ path) item.parameters o) := by
  have parameters := danglingParameters_enumerates d (method.name ++ " " ++ path)
    (item.parameters.getD [] ++ o.parameters.getD [])
  have schemas := (operationReferences_enumerates d (method.name ++ " " ++ path) item.parameters
    o).filter (danglesIn d)
  refine ((parameters.along 0).append schemas ?_).congr fun a r => ?_
  · -- parameters that stand for nothing come before every schema
    rintro a r ha c q ⟨(hc | hc) | hc, -⟩
    all_goals exact ha.before (by decide) hc
  · rw [danglesIn_iff]
    constructor
    · rintro (⟨_, rfl, k, p, hk, _, rfl, rfl, target, href, hnone, rfl⟩ |
        ⟨(⟨_, rfl, k, p, hk, _, rfl, s, hs, hr⟩ | ⟨_, rfl, s, hs, hr⟩) | ⟨_, rfl, s, hs, hr⟩, hd⟩)
      · exact .parameter hk href (resolve?_eq_none_iff.mp hnone)
      · exact .kept (carries_iff.mpr rfl) hk hs ⟨hr, hd⟩
      · exact .body (Operation.jsonBody?_eq_some_iff.mp hs) ⟨hr, hd⟩
      · exact .response (Operation.jsonOk?_eq_some_iff.mp hs) ⟨hr, hd⟩
    · intro h
      cases h with
      | parameter hk href hnone =>
          exact .inl ⟨_, rfl, _, _, hk, _, rfl, rfl, _, href, resolve?_eq_none_iff.mpr hnone, rfl⟩
      | kept hcarries hk hs h =>
          rw [← carries_iff.mp hcarries] at hk
          exact .inr ⟨.inl (.inl ⟨_, rfl, _, _, hk, _, rfl, _, hs, h.1⟩), h.2⟩
      | body hs h =>
          exact .inr ⟨.inl (.inr ⟨_, rfl, _, Operation.jsonBody?_eq_some_iff.mpr hs, h.1⟩), h.2⟩
      | response hs h =>
          exact .inr ⟨.inr ⟨_, rfl, _, Operation.jsonOk?_eq_some_iff.mpr hs, h.1⟩, h.2⟩

/-- The check lists what dangles, in the order of the document. -/
theorem dangling_enumerates (d : Document) : Enumerates (dangling d) (Dangles d) := by
  have components := (Enumerates.flatMap (l := d.schemas) fun p _ =>
    schemaReferences_enumerates p.1 p.2).filter (danglesIn d)
  have operations := Enumerates.flatMap (l := d.paths) fun p _ =>
    Enumerates.flatMap (l := p.2.operations) fun q _ =>
      danglingInOperation_enumerates d p.1 p.2 q.1 q.2
  refine ((components.along 0).append (operations.along 1) ?_).congr fun a r => ?_
  · intro a r ha c q hc
    exact ha.before (by decide) hc
  · constructor
    · rintro (⟨_, rfl, ⟨i, ⟨name, s⟩, hi, _, rfl, hr⟩, hd⟩ |
        ⟨_, rfl, i, ⟨path, item⟩, hi, _, rfl, j, ⟨method, o⟩, hj, _, rfl, hr⟩)
      · exact .component hi ⟨hr, danglesIn_iff.mp hd⟩
      · exact .operation hi hj hr
    · intro h
      cases h with
      | component hi h =>
          exact .inl ⟨_, rfl, ⟨_, _, hi, _, rfl, h.1⟩, danglesIn_iff.mpr h.2⟩
      | operation hi hj h => exact .inr ⟨_, rfl, _, _, hi, _, rfl, _, _, hj, _, rfl, h⟩

theorem generate_strict_error {overrides : Overrides} {d : Document} {e : GenerateError} :
    generate true overrides d = .error e ↔ ∃ r, e = .unresolved r ∧ (dangling d).head? = some r := by
  rw [generate]
  cases (dangling d).head? with
  | none => simp
  | some r => simp [eq_comm]

/-- Strict generation fails exactly for a document in which something dangles, overridden or not, and
reports what dangles before all else, with the place where it stands. -/
theorem strict_generation_reports_first (overrides : Overrides) (d : Document) :
    ((∃ e, generate true overrides d = .error e) ↔ ∃ a r, Dangles d a r) ∧
    ∀ e, generate true overrides d = .error e ↔
      ∃ a r, e = .unresolved r ∧ Dangles d a r ∧ ∀ c q, Dangles d c q → c = a ∨ a.Before c := by
  have hlist := dangling_enumerates d
  constructor
  · constructor
    · rintro ⟨e, he⟩
      obtain ⟨r, -, hr⟩ := generate_strict_error.mp he
      obtain ⟨a, ha, -⟩ := hlist.head?.mp hr
      exact ⟨a, r, ha⟩
    · rintro ⟨a, r, ha⟩
      have hmem := hlist.mem.mpr ⟨a, ha⟩
      have hhead := List.head?_eq_some_head (List.ne_nil_of_mem hmem)
      exact ⟨_, generate_strict_error.mpr ⟨_, rfl, hhead⟩⟩
  · intro e
    rw [generate_strict_error]
    constructor
    · rintro ⟨r, rfl, hr⟩
      obtain ⟨a, ha, hfirst⟩ := hlist.head?.mp hr
      exact ⟨a, r, rfl, ha, hfirst⟩
    · rintro ⟨a, r, rfl, ha, hfirst⟩
      exact ⟨r, rfl, hlist.head?.mpr ⟨a, ha, hfirst⟩⟩

end TypedEndpoints.Generation
