import TypedEndpoints.Proofs.Generation.StrictReferences
import TypedEndpoints.Proofs.OpenApi.DistinctKeys
/-! Member names of generated object types. Distinct keys of a document carry over to the members built
from them. Parameters are merged by name and location but become members by name alone, so only their
objects can repeat a member. -/
namespace TypedEndpoints.Generation
open OpenApi TypeScript

/-- The names of an object's members are distinct. -/
def DistinctMembers (xs : List (Member TypeExpr)) : Prop := (xs.map (·.name)).Nodup

theorem methodName_injective {a b : Method} (h : a.name = b.name) : a = b :=
  Option.some.inj ((Method.ofName?_name a).symm.trans ((congrArg _ h).trans (Method.ofName?_name b)))

theorem endpoints_members {d : Document} (hd : d.DistinctKeys) {xs : List (Member TypeExpr)}
    (h : TypeExpr.object xs = endpoints d) : DistinctMembers xs := by
  cases h
  rw [DistinctMembers, List.map_map]
  exact hd.paths

theorem pathType_members {d : Document} {item : PathItem} (hi : item.DistinctMethods)
    {xs : List (Member TypeExpr)} (h : TypeExpr.object xs = pathType d item) :
    DistinctMembers xs := by
  cases h
  have hnames : ((item.operations.map Prod.fst).map Method.name).Nodup :=
    hi.map fun _ _ => methodName_injective
  rw [List.map_map] at hnames
  rw [DistinctMembers, List.map_map]
  exact hnames

theorem signature_members {params : List Parameter} {o : Operation} {xs : List (Member TypeExpr)}
    (h : TypeExpr.object xs = signature params o) : DistinctMembers xs := by
  cases h
  change ["response", "request"].Nodup
  decide

theorem requestMembers_names (params : List Parameter) (body : Option Schema) :
    ((paramsMembers params ++ bodyMembers body).map (·.name)).Sublist ["params", "body"] := by
  have hparams : ((paramsMembers params).map (·.name)).Sublist ["params"] := by
    unfold paramsMembers
    split
    · exact List.nil_sublist _
    · exact List.Sublist.refl _
  have hbody : ((bodyMembers body).map (·.name)).Sublist ["body"] := by
    unfold bodyMembers
    split
    · exact List.Sublist.refl _
    · exact List.nil_sublist _
  rw [List.map_append]
  exact hparams.append hbody

theorem requestType_members {params : List Parameter} {o : Operation}
    {xs : List (Member TypeExpr)} (h : TypeExpr.object xs = requestType params o) :
    DistinctMembers xs := by
  have hnodup : DistinctMembers (paramsMembers params ++ bodyMembers o.jsonBody?) :=
    (requestMembers_names _ _).nodup (by decide)
  unfold requestType at h
  split at h
  · cases h
  · cases h
    exact hnodup

theorem declaredMembers_distinct {s : Schema} (hs : s.DistinctProperties) :
    DistinctMembers (declaredMembers s) := by
  rw [DistinctMembers, declaredMembers, List.map_map]
  cases h : s.properties with
  | none => exact List.nodup_nil
  | some ps => exact hs ps h

@[simp] theorem paramMember_names (params : List Parameter) :
    (params.map paramMember).map (·.name) = params.map (·.name) := by
  rw [List.map_map]
  rfl

theorem params_within_endpoints {d : Document} {p : String × PathItem} (hp : p ∈ d.paths)
    {q : Method × Operation} (hq : q ∈ p.2.operations)
    (hne : d.mergeParameters p.2.parameters q.2 ≠ []) :
    (TypeExpr.object ((d.mergeParameters p.2.parameters q.2).map paramMember)).Within
      (endpoints d) := by
  let params := d.mergeParameters p.2.parameters q.2
  have hmember : ⟨"params", .object (params.map paramMember), false⟩ ∈
      paramsMembers params ++ bodyMembers q.2.jsonBody? := by
    refine List.mem_append_left _ ?_
    rw [paramsMembers, if_neg (by simpa [params] using hne)]
    exact List.mem_singleton.mpr rfl
  have hrequest : (TypeExpr.object (params.map paramMember)).Within (requestType params q.2) := by
    unfold requestType
    split
    · next h => rw [h] at hmember; cases hmember
    · exact .member hmember .here
  exact .member (List.mem_map.mpr ⟨p, hp, rfl⟩) (.member (List.mem_map.mpr ⟨q, hq, rfl⟩)
    (.member (List.mem_cons_of_mem _ List.mem_cons_self) hrequest))

theorem declarations_members {overrides : Overrides} {d : Document} (hd : d.DistinctKeys)
    {x : Declaration} (hx : x ∈ declarations overrides d) {xs : List (Member TypeExpr)}
    (h : (TypeExpr.object xs).Within x.definition.body) : DistinctMembers xs := by
  rcases within_declarations hx h with ⟨text, h⟩ | ⟨p, hp, h | h | ⟨ps, _, q, _, h⟩⟩
  · cases h
  · cases h
    exact declaredMembers_distinct (hd.properties p hp)
  · exact absurd rfl (no_object_within_typeOf h p.2)
  · exact absurd rfl (no_object_within_typeOf h q.2)

/-- Outside the objects of parameters no member comes twice. -/
theorem within_endpoints_members {d : Document} (hd : d.DistinctKeys)
    {xs : List (Member TypeExpr)} (h : (TypeExpr.object xs).Within (endpoints d)) :
    DistinctMembers xs ∨ ∃ p ∈ d.paths, ∃ q ∈ p.2.operations,
      xs = (d.mergeParameters p.2.parameters q.2).map paramMember := by
  rcases within_endpoints h with h | ⟨p, hp, h | ⟨q, hq, h⟩⟩
  · exact .inl (endpoints_members hd h)
  · exact .inl (pathType_members (hd.methods p hp) h)
  · rcases within_signature h with h | h | h | h | ⟨s, _, h⟩
    · exact .inl (signature_members h)
    · exact .inl (requestType_members h)
    · cases h
      exact .inr ⟨p, hp, q, hq, rfl⟩
    · cases h
    · exact absurd rfl (no_object_within_typeOf h s)

/-- For a parsed document: no declaration has an object type with a repeated member; in the endpoints
only the object of an operation's parameters can have one; and none has one exactly when the parameter
names of every operation are apart. -/
theorem member_names_distinct (overrides : Overrides) {text : String} {d : Document}
    (h : Document.parse text = .ok d) :
    (∀ x ∈ declarations overrides d, ∀ xs, (TypeExpr.object xs).Within x.definition.body →
      DistinctMembers xs) ∧
    (∀ xs, (TypeExpr.object xs).Within (endpoints d) → DistinctMembers xs ∨
      ∃ p ∈ d.paths, ∃ q ∈ p.2.operations,
        xs = (d.mergeParameters p.2.parameters q.2).map paramMember) ∧
    ((∀ xs, (TypeExpr.object xs).Within (endpoints d) → DistinctMembers xs) ↔
      ∀ p ∈ d.paths, ∀ q ∈ p.2.operations, Document.NamesApart d p.2.parameters q.2) := by
  have hd := Document.parse_distinct h
  refine ⟨fun x hx xs => declarations_members hd hx, fun xs => within_endpoints_members hd, ?_⟩
  constructor
  · intro all p hp q hq
    -- Without parameters there is no object to ask, and no name either.
    rw [← Document.nodup_names_merge, ← paramMember_names]
    by_cases hne : d.mergeParameters p.2.parameters q.2 = []
    · rw [hne]
      exact List.nodup_nil
    · exact all _ (params_within_endpoints hp hq hne)
  · intro apart xs hxs
    rcases within_endpoints_members hd hxs with hxs | ⟨p, hp, q, hq, rfl⟩
    · exact hxs
    · rw [DistinctMembers, paramMember_names]
      exact Document.nodup_names_merge.mpr (apart p hp q hq)

def mergedNames (d : Document) : List (List String) :=
  d.paths.flatMap fun p =>
    p.2.operations.map fun q => (d.mergeParameters p.2.parameters q.2).map (·.name)

theorem parse_of_mergedNames (text : String) (names : List (List String))
    (h : (Document.parse text).toOption.map mergedNames = some names) :
    ∃ d, Document.parse text = .ok d ∧ mergedNames d = names :=
  ok_of_view mergedNames h

/-- One path, one operation, an own parameter and a shared one of another name. -/
def twoNames : String :=
  "\x7b\"paths\":\x7b\"/a\":\x7b\"parameters\":[\x7b\"name\":\"x\"\x7d]," ++
    "\"get\":\x7b\"parameters\":[\x7b\"name\":\"y\"\x7d]\x7d\x7d\x7d\x7d"

theorem member_names_distinct_twoNames : ∃ d, Document.parse twoNames = .ok d ∧
    ∀ xs, (TypeExpr.object xs).Within (endpoints d) → DistinctMembers xs := by
  obtain ⟨d, hd, hnames⟩ := parse_of_mergedNames twoNames [["x", "y"]] (by decide +kernel)
  refine ⟨d, hd, (member_names_distinct [] hd).2.2.mpr ?_⟩
  intro p hp q hq
  have hmem : (d.mergeParameters p.2.parameters q.2).map (·.name) ∈ mergedNames d :=
    List.mem_flatMap.mpr ⟨p, hp, List.mem_map.mpr ⟨q, hq, rfl⟩⟩
  rw [hnames, List.mem_singleton] at hmem
  rw [← Document.nodup_names_merge, hmem]
  decide

/-- A path parameter and a query parameter of one name. -/
def oneName : String :=
  "\x7b\"paths\":\x7b\"/a/\x7bid\x7d\":\x7b\"get\":\x7b\"parameters\":[" ++
    "\x7b\"name\":\"id\",\"in\":\"path\"\x7d,\x7b\"name\":\"id\",\"in\":\"query\"\x7d" ++
    "]\x7d\x7d\x7d\x7d"

/-- Both parameters are kept, as two members of one name. -/
theorem repeated_member_across_locations : ¬ ∀ (overrides : Overrides) (text : String) (d : Document),
    Document.parse text = .ok d → ∀ xs, Generated overrides d (.object xs) → DistinctMembers xs := by
  intro all
  obtain ⟨d, hd, hnames⟩ := parse_of_mergedNames oneName [["id", "id"]] (by decide +kernel)
  have hmem : ["id", "id"] ∈ mergedNames d := by
    rw [hnames]
    exact List.mem_singleton.mpr rfl
  obtain ⟨p, hp, hmem⟩ := List.mem_flatMap.mp hmem
  obtain ⟨q, hq, hmem⟩ := List.mem_map.mp hmem
  have hne : d.mergeParameters p.2.parameters q.2 ≠ [] := by
    intro e
    rw [e] at hmem
    cases hmem
  have hdistinct := all [] _ d hd _ (.inl (params_within_endpoints hp hq hne))
  rw [DistinctMembers, paramMember_names, hmem] at hdistinct
  exact absurd hdistinct (by decide)

end TypedEndpoints.Generation
