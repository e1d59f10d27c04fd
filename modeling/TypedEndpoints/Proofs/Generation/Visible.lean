import TypedEndpoints.Proofs.Generation.StrictReferences
import TypedEndpoints.Proofs.OpenApi.Positions
/-! What permissive generation sees of a document: of an operation its parameters and its JSON bodies, of
the responses `200`, of a schema in use its kind, its reference and the items of an array, of a component
schema its properties too. All else can be taken out of a document without a change to the output. -/
namespace TypedEndpoints.OpenApi

mutual
/-- A schema where it is used: no properties, no nullable flag, and items of an array only. -/
def Schema.visible : Schema → Schema
  | ⟨type, ref, _, items, _⟩ =>
    { type, ref, items :=
        if ref = none ∧ type.bind SchemaType.kind? = some "array" then visibleItems items else none }

def Schema.visibleItems : Option Schema → Option Schema
  | none => none
  | some s => some s.visible
end

/-- A property of a component schema keeps its nullable flag. -/
def Schema.visibleProperty (s : Schema) : Schema := { s.visible with nullable := s.nullable }

/-- A component schema keeps its properties. -/
def Schema.visibleComponent (s : Schema) : Schema :=
  { s.visible with properties := s.properties.map fun ps => ps.map fun p => (p.1, p.2.visibleProperty) }

def Parameter.visible (p : Parameter) : Parameter := { p with schema := p.schema.map Schema.visible }

def MediaType.visible (t : MediaType) : MediaType := { schema := t.schema.map Schema.visible }

def Content.visible (c : Content) : Content :=
  c.map fun m => (m.filter fun p => p.1 == jsonMediaType).map fun p => (p.1, p.2.visible)

def RequestBody.visible (b : RequestBody) : RequestBody := { content := Content.visible b.content }

def Response.visible (r : Response) : Response := { content := Content.visible r.content }

/-- No operation id, and of the responses `200` only. -/
def Operation.visible (o : Operation) : Operation where
  parameters := o.parameters.map fun ps => ps.map Parameter.visible
  requestBody := o.requestBody.map RequestBody.visible
  responses := (o.responses.filter fun p => p.1 == "200").map fun p => (p.1, p.2.visible)

def PathItem.visible (item : PathItem) : PathItem where
  operations := item.operations.map fun q => (q.1, q.2.visible)
  parameters := item.parameters.map fun ps => ps.map Parameter.visible

/-- The parameters listed at a path and at its operations. -/
def PathItem.listed (item : PathItem) : List Parameter :=
  item.parameters.getD [] ++ item.operations.flatMap fun q => q.2.parameters.getD []

/-- The names that parameter references end in. -/
def Document.named (d : Document) : List String :=
  d.paths.flatMap fun p => p.2.listed.filterMap fun x => x.ref.map refName

/-- Component parameters that no reference names are left out, and all of an overridden schema but its
name. -/
def Components.visible (overridden named : String → Bool) (c : Components) : Components where
  schemas := c.schemas.map fun m => m.map fun p =>
    (p.1, if overridden p.1 then {} else p.2.visibleComponent)
  parameters := c.parameters.map fun m => (m.filter fun p => named p.1).map fun p => (p.1, p.2.visible)

def Document.visible (overridden : String → Bool) (d : Document) : Document where
  paths := d.paths.map fun p => (p.1, p.2.visible)
  components := d.components.map (Components.visible overridden fun name => decide (name ∈ d.named))

theorem Schema.visible_eq (s : Schema) : s.visible =
    { type := s.type, ref := s.ref, items :=
        if s.ref = none ∧ s.kind = some "array" then s.items.map Schema.visible else none } := by
  have hitems : ∀ items : Option Schema, Schema.visibleItems items = items.map Schema.visible := by
    intro items
    cases items <;> rw [Schema.visibleItems] <;> rfl
  cases s
  rw [Schema.visible, hitems]
  rfl

@[simp] theorem Content.json?_visible (c : Content) :
    Content.json? (Content.visible c) = (Content.json? c).map Schema.visible := by
  cases c with
  | none => rfl
  | some m =>
      have hget : OrderedMap.get? ((m.filter fun p => p.1 == jsonMediaType).map fun p => (p.1, p.2.visible))
          jsonMediaType = (m.get? jsonMediaType).map MediaType.visible := by
        rw [OrderedMap.get?_map, OrderedMap.get?_filter (· == jsonMediaType) (beq_self_eq_true _)]
      change (OrderedMap.get? _ jsonMediaType).bind _ = ((m.get? jsonMediaType).bind _).map _
      rw [hget]
      cases m.get? jsonMediaType <;> rfl

@[simp] theorem Operation.jsonBody?_visible (o : Operation) :
    o.visible.jsonBody? = o.jsonBody?.map Schema.visible := by
  unfold Operation.jsonBody? Operation.visible
  cases o.requestBody with
  | none => rfl
  | some b => exact Content.json?_visible b.content

@[simp] theorem Operation.jsonOk?_visible (o : Operation) : o.visible.jsonOk? = o.jsonOk?.map Schema.visible := by
  have hget : o.visible.responses.get? "200" =
      (o.responses.get? "200").map Response.visible := by
    change OrderedMap.get? (List.map _ (o.responses.filter fun p => p.1 == "200")) "200" = _
    rw [OrderedMap.get?_map, OrderedMap.get?_filter (· == "200") (beq_self_eq_true _)]
  unfold Operation.jsonOk?
  rw [hget]
  cases o.responses.get? "200" with
  | none => rfl
  | some r => exact Content.json?_visible r.content

namespace Document
variable (overridden : String → Bool) {d : Document}

@[simp] theorem schemas_visible (d : Document) : (d.visible overridden).schemas =
    d.schemas.map fun p => (p.1, if overridden p.1 then {} else p.2.visibleComponent) := by
  unfold Document.schemas Document.visible Components.visible
  cases d.components with
  | none => rfl
  | some c => cases h : c.schemas <;> simp [h]

@[simp] theorem parameters_visible (d : Document) : (d.visible overridden).parameters =
    (d.parameters.filter fun p => decide (p.1 ∈ d.named)).map fun p => (p.1, p.2.visible) := by
  unfold Document.parameters Document.visible Components.visible
  cases d.components with
  | none => rfl
  | some c => cases h : c.parameters <;> simp [h]

/-- Each parameter reference of a list ends in a name that is not left out. -/
def Covers (d : Document) (ps : List Parameter) : Prop :=
  ∀ x ∈ ps, ∀ ref, x.ref = some ref → refName ref ∈ d.named

theorem covers_listed {p : String × PathItem} (hp : p ∈ d.paths) : d.Covers p.2.listed := by
  intro x hx ref href
  apply List.mem_flatMap.mpr
  refine ⟨p, hp, List.mem_filterMap.mpr ⟨x, hx, ?_⟩⟩
  rw [href]
  rfl

theorem resolve?_of_no_ref {x : Parameter} (h : x.ref = none) :
    d.resolve? x = (some x).filter (·.name != "") := by
  rw [resolve?, h]

theorem resolve?_of_ref {x : Parameter} {ref : String} (h : x.ref = some ref) :
    d.resolve? x = ((d.parameters.get? (refName ref)).filter (·.ref.isNone)).filter (·.name != "") := by
  rw [resolve?, h]

theorem resolve?_visible {x : Parameter} (hx : ∀ ref, x.ref = some ref → refName ref ∈ d.named) :
    (d.visible overridden).resolve? x.visible = (d.resolve? x).map Parameter.visible := by
  have hfilter : ∀ (keep : Parameter → Bool), (∀ y, keep y.visible = keep y) → ∀ target : Option Parameter,
      (target.map Parameter.visible).filter keep = (target.filter keep).map Parameter.visible := by
    intro keep hkeep target
    cases target with
    | none => rfl
    | some y => cases h : keep y <;> simp [Option.filter, hkeep, h]
  cases href : x.ref with
  | none =>
      have href' : x.visible.ref = none := href
      rw [resolve?_of_no_ref href, resolve?_of_no_ref href']
      exact hfilter (·.name != "") (fun _ => rfl) (some x)
  | some ref =>
      have href' : x.visible.ref = some ref := href
      have hkept : decide (refName ref ∈ d.named) = true := decide_eq_true (hx ref href)
      have hget : (d.visible overridden).parameters.get? (refName ref) =
          (d.parameters.get? (refName ref)).map Parameter.visible := by
        rw [parameters_visible, OrderedMap.get?_map,
          OrderedMap.get?_filter (fun name => decide (name ∈ d.named)) hkept]
      rw [resolve?_of_ref href, resolve?_of_ref href', hget, hfilter (·.ref.isNone) (fun _ => rfl),
        hfilter (·.name != "") (fun _ => rfl)]

theorem resolveAll_visible {ps : Option (List Parameter)} (hps : d.Covers (ps.getD [])) :
    (d.visible overridden).resolveAll (ps.map fun ps => ps.map Parameter.visible) =
      (d.resolveAll ps).map Parameter.visible := by
  have hlist : (ps.map fun ps => ps.map Parameter.visible).getD [] =
      (ps.getD []).map Parameter.visible := by
    cases ps <;> rfl
  rw [resolveAll, resolveAll, hlist, List.filterMap_map, List.map_filterMap]
  apply List.filterMap_congr
  intro x hx
  exact resolve?_visible overridden (hps x hx)

theorem mergeParameters_visible {shared : Option (List Parameter)} {o : Operation}
    (hshared : d.Covers (shared.getD [])) (hown : d.Covers (o.parameters.getD [])) :
    (d.visible overridden).mergeParameters (shared.map fun ps => ps.map Parameter.visible) o.visible =
      (d.mergeParameters shared o).map Parameter.visible := by
  have hown' : (d.visible overridden).resolveAll o.visible.parameters =
      (d.resolveAll o.parameters).map Parameter.visible := resolveAll_visible overridden hown
  have hplace : ∀ x : Parameter, ((d.resolveAll o.parameters).map Parameter.visible).any
      (samePlace x.visible) = (d.resolveAll o.parameters).any (samePlace x) := by
    intro x
    rw [List.any_map]
    rfl
  rw [mergeParameters, mergeParameters, hown', resolveAll_visible overridden hshared, List.filter_map,
    List.map_append]
  congr 2
  apply List.filter_congr
  intro x _
  simp only [Function.comp_apply, hplace]

end Document
end TypedEndpoints.OpenApi

namespace TypedEndpoints.Generation
open OpenApi TypeScript

theorem typeOf_of_ref {s : Schema} {ref : String} (h : s.ref = some ref) : typeOf s = .ref (refName ref) := by
  obtain ⟨type, _, properties, items, nullable⟩ := s
  cases h
  rw [typeOf]

theorem typeOf_of_no_ref {s : Schema} (h : s.ref = none) :
    typeOf s = if s.kind = some "array" then .array (typeOfItems s.items) else primitiveOf s.kind := by
  obtain ⟨type, _, properties, items, nullable⟩ := s
  cases h
  rw [typeOf]
  split
  · next hkind => exact (if_pos hkind).symm
  · next hkind => exact (if_neg fun h => hkind h).symm

@[simp] theorem typeOf_visible (s : Schema) : typeOf s.visible = typeOf s := by
  induction s using Schema.ind with
  | h s hitems _ =>
      rw [Schema.visible_eq]
      cases href : s.ref with
      | some ref => rw [typeOf_of_ref rfl, typeOf_of_ref href]
      | none =>
          rw [typeOf_of_no_ref rfl, typeOf_of_no_ref href]
          change (if s.kind = some "array" then _ else primitiveOf s.kind) = _
          by_cases hkind : s.kind = some "array"
          · simp only [hkind, if_true, and_self]
            cases h : s.items with
            | none => rfl
            | some i => rw [Option.map_some, typeOfItems, typeOfItems, hitems i h]
          · rw [if_neg hkind, if_neg hkind]

@[simp] theorem typeOrAny_visible (s : Option Schema) : typeOrAny (s.map Schema.visible) = typeOrAny s := by
  cases s with
  | none => rfl
  | some s => exact typeOf_visible s

@[simp] theorem requestType_visible (params : List Parameter) (o : Operation) :
    requestType (params.map Parameter.visible) o.visible = requestType params o := by
  have hmembers : (params.map Parameter.visible).map paramMember = params.map paramMember := by
    rw [List.map_map]
    apply List.map_congr_left
    intro p _
    simp [paramMember, Parameter.visible]
  have hparams : paramsMembers (params.map Parameter.visible) = paramsMembers params := by
    simp only [paramsMembers, hmembers, List.isEmpty_map]
  have hbody : bodyMembers o.visible.jsonBody? = bodyMembers o.jsonBody? := by
    rw [Operation.jsonBody?_visible]
    cases o.jsonBody? with
    | none => rfl
    | some s => simp [bodyMembers]
  unfold requestType
  rw [hparams, hbody]

@[simp] theorem signature_visible (params : List Parameter) (o : Operation) :
    signature (params.map Parameter.visible) o.visible = signature params o := by
  simp [signature]

section
variable (overridden : String → Bool) {d : Document}

theorem pathType_visible {p : String × PathItem} (hp : p ∈ d.paths) :
    pathType (d.visible overridden) p.2.visible = pathType d p.2 := by
  have hlisted := Document.covers_listed hp
  unfold pathType
  congr 1
  change List.map _ (p.2.operations.map fun q => (q.1, q.2.visible)) = _
  rw [List.map_map]
  apply List.map_congr_left
  intro q hq
  have hshared : d.Covers (p.2.parameters.getD []) := fun x hx =>
    hlisted x (List.mem_append_left _ hx)
  have hown : d.Covers (q.2.parameters.getD []) := fun x hx =>
    hlisted x (List.mem_append_right _ (List.mem_flatMap.mpr ⟨q, hq, hx⟩))
  have hmerged := Document.mergeParameters_visible overridden hshared hown
  simp only [Function.comp_apply]
  rw [PathItem.visible, hmerged, signature_visible]

@[simp] theorem endpoints_visible (d : Document) : endpoints (d.visible overridden) = endpoints d := by
  unfold endpoints
  congr 1
  change List.map _ (d.paths.map fun p => (p.1, p.2.visible)) = _
  rw [List.map_map]
  apply List.map_congr_left
  intro p hp
  simp only [Function.comp_apply, pathType_visible overridden hp]

end

theorem typeOf_congr {s t : Schema} (htype : s.type = t.type) (href : s.ref = t.ref)
    (hitems : s.items = t.items) : typeOf s = typeOf t := by
  cases h : s.ref with
  | some ref => rw [typeOf_of_ref h, typeOf_of_ref (href ▸ h)]
  | none =>
      rw [typeOf_of_no_ref h, typeOf_of_no_ref (href ▸ h), hitems, Schema.kind, Schema.kind, htype]

@[simp] theorem memberOf_visible (name : String) (s : Schema) : memberOf name s.visibleProperty = memberOf name s := by
  have htype : typeOf s.visibleProperty = typeOf s := calc
    typeOf s.visibleProperty = typeOf s.visible := typeOf_congr rfl rfl rfl
    _ = typeOf s := typeOf_visible s
  have hnullable : s.visibleProperty.isNullable = s.isNullable := by
    unfold Schema.visibleProperty
    rw [Schema.visible_eq]
    rfl
  simp only [memberOf, htype, hnullable]

@[simp] theorem definitionOf_visible (s : Schema) : definitionOf s.visibleComponent = definitionOf s := by
  have htype : typeOf s.visibleComponent = typeOf s := calc
    typeOf s.visibleComponent = typeOf s.visible := typeOf_congr rfl rfl rfl
    _ = typeOf s := typeOf_visible s
  have hshape : s.visibleComponent.ref = s.ref ∧ s.visibleComponent.kind = s.kind := by
    unfold Schema.visibleComponent
    rw [Schema.visible_eq]
    exact ⟨rfl, rfl⟩
  unfold definitionOf
  rw [htype, hshape.1, hshape.2]
  have hproperties : s.visibleComponent.properties =
      s.properties.map fun ps => ps.map fun p => (p.1, p.2.visibleProperty) := rfl
  rw [hproperties]
  cases s.properties with
  | none => rfl
  | some ps =>
      simp only [Option.map_some, List.map_map]
      congr 1
      apply List.map_congr_left
      intro p _
      exact memberOf_visible p.1 p.2

@[simp] theorem declarations_visible (overrides : Overrides) (d : Document) :
    declarations overrides (d.visible overrides.contains) = declarations overrides d := by
  unfold declarations
  rw [Document.schemas_visible, List.map_map]
  apply List.map_congr_left
  intro p _
  simp only [Function.comp_apply, declarationOf]
  cases h : overrides.get? p.1 with
  | some text => rfl
  | none => simp [OrderedMap.contains, h]

/-- Permissive generation gives the same text for a document and for what is visible of it, and so for
any two documents that do not differ in what is visible. -/
theorem permissive_generation_visible (overrides : Overrides) (d : Document) :
    generate false overrides (d.visible overrides.contains) = generate false overrides d ∧
      ∀ other : Document, other.visible overrides.contains = d.visible overrides.contains →
        generate false overrides other = generate false overrides d := by
  have hvisible : ∀ e : Document,
      generate false overrides (e.visible overrides.contains) = generate false overrides e := by
    intro e
    have houtput : output overrides (e.visible overrides.contains) = output overrides e := by
      unfold output outputChars endpointsChars
      rw [endpoints_visible, declarations_visible]
    simp [houtput]
  constructor
  · exact hvisible d
  · intro other h
    rw [← hvisible other, h, hvisible d]

/-- Pets as they are answered, next to what nothing is generated from. -/
def annotatedPets : Document where
  paths := [("/pets", {
    operations := [(.get, {
      operationId := some "listPets"
      responses := [
        ("200", { content := some [
          ("text/csv", { schema := some { type := some (.single "string") } }),
          ("application/json", { schema := some {
            ref := some "#/components/schemas/Pet"
            items := some {} } })] }),
        ("404", { content := some [("application/json", {})] })] })]
    parameters := some [{ ref := some "#/components/parameters/Size" }] })]
  components := some {
    schemas := some [
      ("Pet", {
        nullable := some true
        properties := some [("tag", {
          properties := some [("id", { ref := some "#/components/schemas/Guid" })]
          nullable := some true })] }),
      ("Guid", { properties := some [("value", { type := some (.single "string") })] })]
    parameters := some [
      ("Size", { name := "size", location := "query" }),
      ("Page", { name := "page", location := "query" })] }

def plainPets : Document where
  paths := [("/pets", {
    operations := [(.get, {
      responses := [("200", { content := some [("application/json", { schema := some {
        ref := some "#/components/schemas/Pet" } })] })] })]
    parameters := some [{ ref := some "#/components/parameters/Size" }] })]
  components := some {
    schemas := some [("Pet", { properties := some [("tag", { nullable := some true })] }), ("Guid", {})]
    parameters := some [("Size", { name := "size", location := "query" })] }

theorem permissive_generation_visible_pets :
    generate false Overrides.defaults annotatedPets = generate false Overrides.defaults plainPets :=
  (permissive_generation_visible Overrides.defaults plainPets).2 annotatedPets rfl

end TypedEndpoints.Generation
