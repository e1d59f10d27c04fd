import TypedEndpoints.Proofs.Generation.FirstReference
import TypedEndpoints.Proofs.Generation.Visible
import TypedEndpoints.Proofs.OpenApi.Alike
import Mathlib.Logic.Relation
/-! A nullable kind has two spellings: the kind with a flag, and a list of kinds that holds `null`. Schemas
that differ in the spelling only, at any number of places, have the same types and the same references, and
so have documents of such schemas. -/
namespace TypedEndpoints.OpenApi

/-- A list for a nullable kind: `null` stands in it at any place, and of the other kinds this one is the first. -/
structure NullableList (kind : String) (kinds : List String) : Prop where
  proper : kind ≠ "null"
  null_mem : "null" ∈ kinds
  first : ∃ nulls rest, kinds = nulls ++ kind :: rest ∧ ∀ k ∈ nulls, k = "null"

/-- At one place of a schema, at any depth, a flagged kind becomes a list without the flag. -/
inductive Schema.Relisted : Schema → Schema → Prop
  | here {s : Schema} {kind kinds} : s.type = some (.single kind) → s.nullable = some true →
      NullableList kind kinds → Relisted s { s with type := some (.several kinds), nullable := none }
  | item {s i j : Schema} : s.items = some i → Relisted i j → Relisted s { s with items := some j }
  | property {s q r : Schema} {before after name} : s.properties = some (before ++ (name, q) :: after) →
      Relisted q r → Relisted s { s with properties := some (before ++ (name, r) :: after) }

/-- Schemas that differ in the spelling of nullable kinds only. -/
def Schema.Respelled : Schema → Schema → Prop := Relation.EqvGen Schema.Relisted

theorem NullableList.kind? {kind : String} {kinds : List String} (h : NullableList kind kinds) :
    SchemaType.kind? (.several kinds) = some kind := by
  obtain ⟨nulls, rest, rfl, hnulls⟩ := h.first
  have hskip : nulls.find? (· != "null") = none := by
    refine List.find?_eq_none.mpr fun k hk => ?_
    simp [hnulls k hk]
  have hkind : (kind != "null") = true := bne_iff_ne.mpr h.proper
  rw [SchemaType.kind?, List.find?_append, hskip, Option.none_or]
  exact List.find?_cons_of_pos hkind

namespace Schema.Relisted
variable {s t : Schema}

theorem ref_eq (h : Relisted s t) : s.ref = t.ref := by
  cases h <;> rfl

theorem kind_eq (h : Relisted s t) : s.kind = t.kind := by
  cases h with
  | here htype _ hlist =>
      rw [kind, kind, htype, Option.bind_some, Option.bind_some, hlist.kind?]
      rfl
  | item => rfl
  | property => rfl

theorem isNullable_eq (h : Relisted s t) : s.isNullable = t.isNullable := by
  cases h with
  | here _ hnullable hlist =>
      have hnull := List.contains_iff_mem.mpr hlist.null_mem
      simp only [isNullable, hnullable, hnull, beq_self_eq_true, Bool.true_or, Bool.or_true]
  | item => rfl
  | property => rfl

end Schema.Relisted

/-- What no change at one place alters is the same however a schema is spelled. -/
theorem Schema.Respelled.eq {α : Type} {f : Schema → α} (hf : ∀ s t, Relisted s t → f s = f t) {s t : Schema}
    (h : Respelled s t) : f s = f t := by
  induction h with
  | rel s t h => exact hf s t h
  | refl s => rfl
  | symm s t _ ih => exact ih.symm
  | trans s t u _ _ ihs iht => exact ihs.trans iht

end TypedEndpoints.OpenApi

namespace TypedEndpoints.Generation
open OpenApi TypeScript

/-! ### One place -/

theorem typeOf_eq_of_kind {s t : Schema} (hkind : s.kind = t.kind) (href : s.ref = t.ref)
    (hitems : typeOfItems s.items = typeOfItems t.items) : typeOf s = typeOf t := by
  cases h : s.ref with
  | some ref => rw [typeOf_of_ref h, typeOf_of_ref (href ▸ h)]
  | none => rw [typeOf_of_no_ref h, typeOf_of_no_ref (href ▸ h), hkind, hitems]

theorem typeOf_relisted {s t : Schema} (h : s.Relisted t) : typeOf s = typeOf t := by
  induction h with
  | here htype hnullable hlist =>
      exact typeOf_eq_of_kind (Schema.Relisted.here htype hnullable hlist).kind_eq rfl rfl
  | @item s i j hitems _ ih =>
      refine typeOf_eq_of_kind rfl rfl ?_
      rw [hitems, typeOfItems, typeOfItems, ih]
  -- the type of a schema in use does not depend on its properties
  | property => exact typeOf_congr rfl rfl rfl

theorem memberOf_relisted {s t : Schema} (h : s.Relisted t) (name : String) :
    memberOf name s = memberOf name t := by
  rw [memberOf, memberOf, h.isNullable_eq, typeOf_relisted h]

theorem definitionOf_congr {s t : Schema}
    (hmembers : (s.properties.map fun ps => ps.map fun p => memberOf p.1 p.2) =
      t.properties.map fun ps => ps.map fun p => memberOf p.1 p.2)
    (hkind : s.kind = t.kind) (href : s.ref = t.ref) (htype : typeOf s = typeOf t) :
    definitionOf s = definitionOf t := by
  unfold definitionOf
  rw [hkind, href, htype]
  cases hs : s.properties with
  | none =>
      cases ht : t.properties with
      | none => rfl
      | some qs => rw [hs, ht] at hmembers; cases hmembers
  | some ps =>
      cases ht : t.properties with
      | none => rw [hs, ht] at hmembers; cases hmembers
      | some qs =>
          rw [hs, ht] at hmembers
          exact congrArg Definition.structural (Option.some.inj hmembers)

theorem definitionOf_relisted {s t : Schema} (h : s.Relisted t) : definitionOf s = definitionOf t := by
  refine definitionOf_congr ?_ h.kind_eq h.ref_eq (typeOf_relisted h)
  cases h with
  | here => rfl
  | item => rfl
  | property hproperties hqr =>
      rw [hproperties]
      simp only [Option.map_some, List.map_append, List.map_cons, memberOf_relisted hqr]

theorem schemaReferences_relisted {s t : Schema} (h : s.Relisted t) (location : String) :
    schemaReferences location s = schemaReferences location t := by
  induction h generalizing location with
  | here => rw [schemaReferences_eq, schemaReferences_eq]
  | item hitems _ ih =>
      rw [schemaReferences_eq, schemaReferences_eq, itemReferences_eq, itemReferences_eq, hitems,
        Option.elim_some, Option.elim_some, ih]
  | property hproperties _ ih =>
      rw [schemaReferences_eq, schemaReferences_eq, propertyReferences_eq, propertyReferences_eq, hproperties]
      simp only [Option.elim_some, List.flatMap_append, List.flatMap_cons, ih]

/-! ### Alike documents -/

section
variable {R : Schema → Schema → Prop}

theorem typeOrAny_alike (hR : ∀ s t, R s t → typeOf s = typeOf t) {s t : Option Schema}
    (h : Option.Rel R s t) : typeOrAny s = typeOrAny t := by
  cases h with
  | none => rfl
  | some h => exact hR _ _ h

theorem paramMember_alike (hR : ∀ s t, R s t → typeOf s = typeOf t) {p q : Parameter}
    (h : p.Alike R q) : paramMember p = paramMember q := by
  rw [paramMember, paramMember, typeOrAny_alike hR h.schema, h.name, h.location, h.required]

theorem bodyMembers_alike (hR : ∀ s t, R s t → typeOf s = typeOf t) {s t : Option Schema}
    (h : Option.Rel R s t) : bodyMembers s = bodyMembers t := by
  cases h with
  | none => rfl
  | some h => rw [bodyMembers, bodyMembers, hR _ _ h]

theorem optionalReferences_alike
    (hR : ∀ s t, R s t → ∀ location, schemaReferences location s = schemaReferences location t)
    {s t : Option Schema} (h : Option.Rel R s t) (location : String) :
    optionalReferences location s = optionalReferences location t := by
  cases h with
  | none => rfl
  | some h => exact hR _ _ h location

theorem signature_alike (hR : ∀ s t, R s t → typeOf s = typeOf t) {ps qs : List Parameter}
    (hparams : List.Forall₂ (Parameter.Alike R) ps qs) {o o' : Operation} (ho : o.Alike R o') :
    signature ps o = signature qs o' := by
  have hmembers : ps.map paramMember = qs.map paramMember :=
    map_eq_map hparams fun _ _ => paramMember_alike hR
  have hempty : ps.isEmpty = qs.isEmpty := by
    cases hparams <;> rfl
  rw [signature, signature, requestType, requestType, paramsMembers, paramsMembers, hmembers, hempty,
    bodyMembers_alike hR ho.jsonBody?, typeOrAny_alike hR ho.jsonOk?]

variable {d e : Document} (h : d.Alike R e)
include h

theorem endpoints_alike (hR : ∀ s t, R s t → typeOf s = typeOf t) : endpoints d = endpoints e := by
  refine congrArg TypeExpr.object (h.paths.map_eq fun path x y hxy => ?_)
  have hitem : pathType d x = pathType e y := by
    refine congrArg TypeExpr.object (hxy.operations.map_eq fun method o o' ho => ?_)
    rw [signature_alike hR (h.mergeParameters hxy.parameters ho) ho]
  rw [hitem]

theorem declarations_alike (hR : ∀ s t, R s t → definitionOf s = definitionOf t) (overrides : Overrides) :
    declarations overrides d = declarations overrides e := by
  refine h.schemas.map_eq fun name s t hst => ?_
  rw [declarationOf, declarationOf, hR s t hst]

theorem danglesIn_alike : danglesIn d = danglesIn e := by
  funext r
  rw [danglesIn, danglesIn, h.hasSchema]

theorem danglingParameters_alike (location : String) {ps qs : List Parameter}
    (hparams : List.Forall₂ (Parameter.Alike R) ps qs) :
    danglingParameters d location ps = danglingParameters e location qs := by
  unfold danglingParameters
  induction hparams with
  | nil => rfl
  | @cons p q _ _ hpq _ ih =>
      have hsome : (d.resolve? p).isNone = (e.resolve? q).isNone := by
        rw [← Option.not_isSome, ← Option.not_isSome, rel_isSome (h.resolve? hpq)]
      rw [List.filterMap_cons, List.filterMap_cons, ih, hpq.ref, hsome]

theorem operationReferences_alike
    (hR : ∀ s t, R s t → ∀ location, schemaReferences location s = schemaReferences location t)
    (location : String) {ps qs : Option (List Parameter)} {o o' : Operation}
    (hparams : Option.Rel (List.Forall₂ (Parameter.Alike R)) ps qs) (ho : o.Alike R o') :
    operationReferences d location ps o = operationReferences e location qs o' := by
  have hkept : ((d.mergeParameters ps o).flatMap fun p =>
      optionalReferences (location ++ " parameter " ++ p.name) p.schema) =
        (e.mergeParameters qs o').flatMap fun p =>
          optionalReferences (location ++ " parameter " ++ p.name) p.schema := by
    rw [List.flatMap_def, List.flatMap_def]
    refine congrArg List.flatten (map_eq_map (h.mergeParameters hparams ho) fun p q hpq => ?_)
    rw [hpq.name, optionalReferences_alike hR hpq.schema]
  rw [operationReferences, operationReferences, hkept, optionalReferences_alike hR ho.jsonBody?,
    optionalReferences_alike hR ho.jsonOk?]

theorem dangling_alike (hR : ∀ s t, R s t → ∀ location, schemaReferences location s = schemaReferences location t) :
    dangling d = dangling e := by
  have hcomponents : (d.schemas.flatMap fun p => schemaReferences p.1 p.2) =
      e.schemas.flatMap fun p => schemaReferences p.1 p.2 :=
    h.schemas.flatMap_eq fun name s t hst => hR s t hst name
  rw [dangling, dangling, hcomponents, danglesIn_alike h]
  congr 1
  refine h.paths.flatMap_eq fun path x y hxy => hxy.operations.flatMap_eq fun method o o' ho => ?_
  have hlisted := List.rel_append (rel_getD hxy.parameters) (rel_getD ho.parameters)
  rw [danglingInOperation, danglingInOperation, danglingParameters_alike h _ hlisted,
    operationReferences_alike h hR _ hxy.parameters ho, danglesIn_alike h]

end

/-! ### Any number of places -/

/-- The two spellings of a nullable kind are interchangeable. Respelled at any number of places, a schema has
the same declaration under every name and the same outcome when its references are checked, and a document
the same endpoints, the same dangling references and the same output or error. -/
theorem spellings_interchangeable :
    (∀ s t : Schema, s.Respelled t →
      (∀ overrides name, declarationOf overrides name s = declarationOf overrides name t) ∧
      ∀ d location, (schemaReferences location s).find? (danglesIn d) =
        (schemaReferences location t).find? (danglesIn d)) ∧
    ∀ d e : Document, d.Alike Schema.Respelled e →
      endpoints d = endpoints e ∧ danglesIn d = danglesIn e ∧ dangling d = dangling e ∧
      ∀ strict overrides, generate strict overrides d = generate strict overrides e := by
  have htype : ∀ s t : Schema, s.Respelled t → typeOf s = typeOf t :=
    fun _ _ => Schema.Respelled.eq fun _ _ => typeOf_relisted
  have hdefinition : ∀ s t : Schema, s.Respelled t → definitionOf s = definitionOf t :=
    fun _ _ => Schema.Respelled.eq fun _ _ => definitionOf_relisted
  have hreferences : ∀ s t : Schema, s.Respelled t →
      ∀ location, schemaReferences location s = schemaReferences location t :=
    fun _ _ h location => Schema.Respelled.eq (fun _ _ h => schemaReferences_relisted h location) h
  refine ⟨fun s t h => ⟨fun overrides name => ?_, fun d location => ?_⟩, fun d e h => ?_⟩
  · rw [declarationOf, declarationOf, hdefinition s t h]
  · rw [hreferences s t h]
  · have hendpoints := endpoints_alike h htype
    have hdangling := dangling_alike h hreferences
    refine ⟨hendpoints, danglesIn_alike h, hdangling, fun strict overrides => ?_⟩
    have houtput : output overrides d = output overrides e := by
      unfold output outputChars endpointsChars
      rw [hendpoints, declarations_alike h hdefinition]
    unfold generate
    rw [hdangling, houtput]

/-- An object with a list of tags, where the list and each tag may be null. -/
def flaggedTags : Schema where
  properties := some [("tags", {
    type := some (.single "array")
    items := some { type := some (.single "string"), nullable := some true }
    nullable := some true })]

def listedTags : Schema where
  properties := some [("tags", {
    type := some (.several ["null", "array"])
    items := some { type := some (.several ["string", "null", "integer", "null"]) } })]

theorem tags_respelled : flaggedTags.Respelled listedTags := by
  have hstring : NullableList "string" ["string", "null", "integer", "null"] :=
    ⟨by decide, by decide, [], _, rfl, nofun⟩
  have harray : NullableList "array" ["null", "array"] := ⟨by decide, by decide, ["null"], _, rfl, by simp⟩
  have hitems := @Schema.Relisted.property flaggedTags _ _ [] [] "tags" rfl (.item rfl (.here rfl rfl hstring))
  exact .trans _ _ _ (.rel _ _ hitems) (.rel _ _ (@Schema.Relisted.property _ _ _ [] [] "tags" rfl
    (.here rfl rfl harray)))

/-- A document with a schema among its components and in a response. -/
def showing (s : Schema) : Document where
  paths := [("/pets", { operations := [(.get, {
    responses := [("200", { content := some [("application/json", { schema := some s })] })] })] })]
  components := some { schemas := some [("Pet", s)] }

theorem showing_alike {R : Schema → Schema → Prop} {s t : Schema} (h : R s t) :
    (showing s).Alike R (showing t) := by
  have hresponse : Content.Alike R (some [("application/json", { schema := some s })])
      (some [("application/json", { schema := some t })]) := .some (.cons ⟨rfl, .some h⟩ .nil)
  have hoperation : Operation.Alike R
      { responses := [("200", { content := some [("application/json", { schema := some s })] })] }
      { responses := [("200", { content := some [("application/json", { schema := some t })] })] } :=
    ⟨rfl, .none, .none, .cons ⟨rfl, hresponse⟩ .nil⟩
  exact ⟨.cons ⟨rfl, .cons ⟨rfl, hoperation⟩ .nil, .none⟩ .nil, .some ⟨.some (.cons ⟨rfl, h⟩ .nil), .none⟩⟩

theorem spellings_interchangeable_tags :
    (declarationOf [] "Pet" listedTags).emit = "export type Pet = \x7b\n\ttags?: string[];\n\x7d;\n" ∧
    declarationOf [] "Pet" flaggedTags = declarationOf [] "Pet" listedTags ∧
    generate true [] (showing flaggedTags) = generate true [] (showing listedTags) :=
  ⟨by decide, (spellings_interchangeable.1 _ _ tags_respelled).1 [] "Pet",
    (spellings_interchangeable.2 _ _ (showing_alike tags_respelled)).2.2.2 true []⟩

end TypedEndpoints.Generation
