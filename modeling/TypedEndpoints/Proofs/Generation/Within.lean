import TypedEndpoints.Generation.Output
/-! Where types stand inside generated types. Schemas contribute names, primitives and arrays only, so
every object type belongs to the fixed frame of paths, methods, response, request and parameters. -/
namespace TypedEndpoints.TypeScript

/-- Where a type stands in a type, at any depth. -/
inductive TypeExpr.Within (t : TypeExpr) : TypeExpr → Prop
  | here : Within t t
  | item {s} : Within t s → Within t (.array s)
  | member {x : Member TypeExpr} {xs} : x ∈ xs → Within t x.type → Within t (.object xs)

namespace TypeExpr

theorem within_primitive {t : TypeExpr} {p : Primitive} (h : t.Within (.primitive p)) :
    t = .primitive p := by
  cases h with
  | here => rfl

theorem within_object {t : TypeExpr} {xs : List (Member TypeExpr)} (h : t.Within (.object xs)) :
    t = .object xs ∨ ∃ x ∈ xs, t.Within x.type := by
  cases h with
  | here => exact .inl rfl
  | member hx h => exact .inr ⟨_, hx, h⟩

end TypeExpr

def Definition.body : Definition → TypeExpr
  | .structural xs => .object xs
  | .alias t => t

end TypedEndpoints.TypeScript

namespace TypedEndpoints.Generation
open OpenApi TypeScript

theorem primitiveOf_primitive (kind : Option String) : ∃ p, primitiveOf kind = .primitive p := by
  unfold primitiveOf
  split <;> exact ⟨_, rfl⟩

theorem typeOf_cases (s : Schema) :
    (∃ ref, s.ref = some ref ∧ typeOf s = .ref (refName ref)) ∨
      (∃ p, typeOf s = .primitive p) ∨
      (∃ t, typeOf s = .array t ∧ (t = .any ∨ ∃ i, s.items = some i ∧ t = typeOf i)) := by
  obtain ⟨type, ref, properties, items, nullable⟩ := s
  cases ref with
  | some ref => exact .inl ⟨ref, rfl, by rw [typeOf]⟩
  | none =>
      rw [typeOf]
      split
      · refine .inr (.inr ⟨_, rfl, ?_⟩)
        cases items with
        | none => exact .inl (by rw [typeOfItems])
        | some i => exact .inr ⟨i, rfl, by rw [typeOfItems]⟩
      · exact .inr (.inl (primitiveOf_primitive _))

theorem typeOf_eq_ref {s : Schema} {n : String} (h : typeOf s = .ref n) :
    ∃ ref, s.ref = some ref ∧ refName ref = n := by
  rcases typeOf_cases s with ⟨ref, href, he⟩ | ⟨p, he⟩ | ⟨t, he, _⟩
  · rw [he] at h
    cases h
    exact ⟨ref, href, rfl⟩
  · rw [he] at h
    cases h
  · rw [he] at h
    cases h

theorem typeOf_eq_array {s : Schema} {t : TypeExpr} (h : typeOf s = .array t) :
    t = .any ∨ ∃ i, s.items = some i ∧ t = typeOf i := by
  rcases typeOf_cases s with ⟨ref, _, he⟩ | ⟨p, he⟩ | ⟨u, he, hu⟩
  · rw [he] at h
    cases h
  · rw [he] at h
    cases h
  · rw [he] at h
    cases h
    exact hu

theorem typeOf_ne_object (s : Schema) (xs : List (Member TypeExpr)) : typeOf s ≠ .object xs := by
  intro h
  rcases typeOf_cases s with ⟨ref, _, he⟩ | ⟨p, he⟩ | ⟨t, he, _⟩
  · rw [he] at h
    cases h
  · rw [he] at h
    cases h
  · rw [he] at h
    cases h

/-- Object types never come from the use of a schema. -/
theorem no_object_within_typeOf {xs : List (Member TypeExpr)} {u : TypeExpr}
    (h : (TypeExpr.object xs).Within u) (s : Schema) : typeOf s ≠ u := by
  induction h generalizing s with
  | here => exact typeOf_ne_object s xs
  | member hx h ih => exact typeOf_ne_object s _
  | item h ih =>
      intro hs
      rcases typeOf_eq_array hs with rfl | ⟨i, _, rfl⟩
      · cases TypeExpr.within_primitive h
      · exact ih i rfl

/-- The schemas whose types an operation shows: kept parameters, body, response. -/
def shownSchemas (params : List Parameter) (o : Operation) : List Schema :=
  params.filterMap (·.schema) ++ o.jsonBody?.toList ++ o.jsonOk?.toList

theorem within_typeOrAny {t : TypeExpr} {s : Option Schema} (h : t.Within (typeOrAny s)) :
    t = .any ∨ ∃ u ∈ s, t.Within (typeOf u) := by
  cases s with
  | none => exact .inl (TypeExpr.within_primitive h)
  | some u => exact .inr ⟨u, rfl, h⟩

theorem within_requestType {t : TypeExpr} {params : List Parameter} {o : Operation}
    (h : t.Within (requestType params o)) :
    t = requestType params o ∨ t = .object (params.map paramMember) ∨ t = .any ∨
      ∃ s ∈ params.filterMap (·.schema) ++ o.jsonBody?.toList, t.Within (typeOf s) := by
  unfold requestType at h ⊢
  split at h
  · exact .inl (TypeExpr.within_primitive h)
  · rcases TypeExpr.within_object h with rfl | ⟨x, hx, h⟩
    · exact .inl rfl
    · refine .inr ?_
      rcases List.mem_append.mp hx with hx | hx
      · unfold paramsMembers at hx
        split at hx
        · cases hx
        · cases List.mem_singleton.mp hx
          rcases TypeExpr.within_object h with rfl | ⟨y, hy, h⟩
          · exact .inl rfl
          · obtain ⟨m, hm, rfl⟩ := List.mem_map.mp hy
            rcases within_typeOrAny h with rfl | ⟨s, hs, h⟩
            · exact .inr (.inl rfl)
            · refine .inr (.inr ⟨s, List.mem_append_left _ ?_, h⟩)
              exact List.mem_filterMap.mpr ⟨m, hm, hs⟩
      · unfold bodyMembers at hx
        split at hx
        · next s hs =>
          cases List.mem_singleton.mp hx
          exact .inr (.inr ⟨s, List.mem_append_right _ (by simp [hs]), h⟩)
        · cases hx

theorem within_signature {t : TypeExpr} {params : List Parameter} {o : Operation}
    (h : t.Within (signature params o)) :
    t = signature params o ∨ t = requestType params o ∨ t = .object (params.map paramMember) ∨
      t = .any ∨ ∃ s ∈ shownSchemas params o, t.Within (typeOf s) := by
  rcases TypeExpr.within_object h with rfl | ⟨x, hx, h⟩
  · exact .inl rfl
  · refine .inr ?_
    simp only [List.mem_cons, List.not_mem_nil, or_false] at hx
    rcases hx with rfl | rfl
    · rcases within_typeOrAny h with rfl | ⟨s, hs, h⟩
      · exact .inr (.inr (.inl rfl))
      · refine .inr (.inr (.inr ⟨s, List.mem_append_right _ ?_, h⟩))
        exact Option.mem_toList.mpr hs
    · rcases within_requestType h with h | h | h | ⟨s, hs, h⟩
      · exact .inl h
      · exact .inr (.inl h)
      · exact .inr (.inr (.inl h))
      · exact .inr (.inr (.inr ⟨s, List.mem_append_left _ hs, h⟩))

theorem within_endpoints {t : TypeExpr} {d : Document} (h : t.Within (endpoints d)) :
    t = endpoints d ∨ ∃ p ∈ d.paths, t = pathType d p.2 ∨ ∃ q ∈ p.2.operations,
      t.Within (signature (d.mergeParameters p.2.parameters q.2) q.2) := by
  rcases TypeExpr.within_object h with rfl | ⟨x, hx, h⟩
  · exact .inl rfl
  · obtain ⟨p, hp, rfl⟩ := List.mem_map.mp hx
    refine .inr ⟨p, hp, ?_⟩
    rcases TypeExpr.within_object h with rfl | ⟨y, hy, h⟩
    · exact .inl rfl
    · obtain ⟨q, hq, rfl⟩ := List.mem_map.mp hy
      exact .inr ⟨q, hq, h⟩

/-- The members of a schema that is declared as an object type. -/
def declaredMembers (s : Schema) : List (Member TypeExpr) :=
  (s.properties.getD []).map fun p => memberOf p.1 p.2

theorem within_definitionOf {t : TypeExpr} {s : Schema} (h : t.Within (definitionOf s).body) :
    t = .object (declaredMembers s) ∨ t.Within (typeOf s) ∨
      ∃ ps, s.properties = some ps ∧ ∃ p ∈ ps, t.Within (typeOf p.2) := by
  unfold definitionOf at h
  unfold declaredMembers
  split at h
  · next ps hps =>
    rw [hps]
    rcases TypeExpr.within_object h with h | ⟨x, hx, h⟩
    · exact .inl h
    · obtain ⟨p, hp, rfl⟩ := List.mem_map.mp hx
      exact .inr (.inr ⟨ps, rfl, p, hp, h⟩)
  · next hps =>
    rw [hps]
    split at h
    · rcases TypeExpr.within_object h with h | ⟨x, hx, _⟩
      · exact .inl h
      · cases hx
    · exact .inr (.inl h)

theorem within_declarations {t : TypeExpr} {overrides : Overrides} {d : Document} {x : Declaration}
    (hx : x ∈ declarations overrides d) (h : t.Within x.definition.body) :
    (∃ text, t = .verbatim text) ∨ ∃ p ∈ d.schemas, t = .object (declaredMembers p.2) ∨
      t.Within (typeOf p.2) ∨
      ∃ ps, p.2.properties = some ps ∧ ∃ q ∈ ps, t.Within (typeOf q.2) := by
  obtain ⟨p, hp, rfl⟩ := List.mem_map.mp hx
  unfold declarationOf at h
  split at h
  · cases h with
    | here => exact .inl ⟨_, rfl⟩
  · exact .inr ⟨p, hp, within_definitionOf h⟩

end TypedEndpoints.Generation
