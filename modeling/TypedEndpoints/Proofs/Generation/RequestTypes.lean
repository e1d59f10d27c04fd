import Mathlib.Data.List.Forall2
import TypedEndpoints.Proofs.Generation.MemberNames
import TypedEndpoints.Proofs.OpenApi.Positions
import TypedEndpoints.Proofs.OpenApi.Resolution
/-! Types of requests. A request carries an object with one member for every merged parameter, in order, and
the type of the JSON body; without parameters and body it is `undefined`. -/
namespace TypedEndpoints.TypeScript

theorem TypeExpr.inline_object (xs : List (Member TypeExpr)) :
    ∃ cs, (TypeExpr.object xs).inline = '{' :: cs := by
  cases xs with
  | nil => exact ⟨_, by rw [TypeExpr.inline]⟩
  | cons x xs => exact ⟨_, by rw [TypeExpr.inline, List.cons_append, List.cons_append]⟩

end TypedEndpoints.TypeScript

namespace TypedEndpoints.Generation
open OpenApi TypeScript

/-- A parameter as a member of an object: one that need not be given is optional. -/
structure MemberFor (p : Parameter) (x : Member TypeExpr) : Prop where
  name : x.name = p.name
  type : x.type = typeOrAny p.schema
  optional : x.optional = true ↔ p.location ≠ "path" ∧ p.required = false

/-- The object of a request: the parameters, if there are any, and the body, if it is JSON. -/
structure RequestMembers (params : List Parameter) (o : Operation) (xs : List (Member TypeExpr)) :
    Prop where
  names : (xs.map (·.name)).Sublist ["params", "body"]
  required : ∀ x ∈ xs, x.optional = false
  params_iff : (∃ x ∈ xs, x.name = "params") ↔ params ≠ []
  params : ∀ x ∈ xs, x.name = "params" →
    ∃ ys, x.type = .object ys ∧ List.Forall₂ MemberFor params ys
  body_iff : (∃ x ∈ xs, x.name = "body") ↔ ∃ s, o.JsonBody s
  body : ∀ x ∈ xs, x.name = "body" → ∃ s, o.JsonBody s ∧ x.type = typeOf s

theorem memberFor_paramMember (p : Parameter) : MemberFor p (paramMember p) := by
  refine ⟨rfl, rfl, ?_⟩
  simp [paramMember]

theorem forall₂_memberFor (params : List Parameter) :
    List.Forall₂ MemberFor params (params.map paramMember) :=
  List.forall₂_map_right_iff.mpr (List.forall₂_same.mpr fun p _ => memberFor_paramMember p)

@[simp] theorem mem_paramsMembers {params : List Parameter} {x : Member TypeExpr} :
    x ∈ paramsMembers params ↔
      params ≠ [] ∧ x = { name := "params", type := .object (params.map paramMember) } := by
  cases params <;> simp [paramsMembers]

@[simp] theorem mem_bodyMembers {body : Option Schema} {x : Member TypeExpr} :
    x ∈ bodyMembers body ↔ ∃ s, body = some s ∧ x = { name := "body", type := typeOf s } := by
  cases body <;> simp [bodyMembers]

theorem requestMembers (params : List Parameter) (o : Operation) :
    RequestMembers params o (paramsMembers params ++ bodyMembers o.jsonBody?) := by
  have hcases : ∀ x, x ∈ paramsMembers params ++ bodyMembers o.jsonBody? ↔
      (params ≠ [] ∧ x = { name := "params", type := .object (params.map paramMember) }) ∨
        ∃ s, o.JsonBody s ∧ x = { name := "body", type := typeOf s } := by
    intro x
    simp
  have apart : "params" ≠ "body" := by decide
  refine ⟨requestMembers_names _ _, ?_, ?_, ?_, ?_, ?_⟩
  · intro x hx
    rcases (hcases x).mp hx with ⟨-, rfl⟩ | ⟨s, -, rfl⟩ <;> rfl
  · constructor
    · rintro ⟨x, hx, hname⟩
      rcases (hcases x).mp hx with ⟨hne, -⟩ | ⟨s, -, rfl⟩
      · exact hne
      · exact absurd hname apart.symm
    · intro hne
      exact ⟨_, (hcases _).mpr (.inl ⟨hne, rfl⟩), rfl⟩
  · intro x hx hname
    rcases (hcases x).mp hx with ⟨-, rfl⟩ | ⟨s, -, rfl⟩
    · exact ⟨_, rfl, forall₂_memberFor params⟩
    · exact absurd hname apart.symm
  · constructor
    · rintro ⟨x, hx, hname⟩
      rcases (hcases x).mp hx with ⟨-, rfl⟩ | ⟨s, hs, -⟩
      · exact absurd hname apart
      · exact ⟨s, hs⟩
    · rintro ⟨s, hs⟩
      exact ⟨_, (hcases _).mpr (.inr ⟨s, hs, rfl⟩), rfl⟩
  · intro x hx hname
    rcases (hcases x).mp hx with ⟨-, rfl⟩ | ⟨s, hs, rfl⟩
    · exact absurd hname apart
    · exact ⟨s, hs, rfl⟩

theorem requestMembers_eq_nil_iff {params : List Parameter} {o : Operation} :
    paramsMembers params ++ bodyMembers o.jsonBody? = [] ↔ params = [] ∧ ¬ ∃ s, o.JsonBody s := by
  rw [List.append_eq_nil_iff, ← Operation.jsonBody?_eq_none_iff]
  refine and_congr ?_ ?_
  · cases params <;> simp [paramsMembers]
  · cases o.jsonBody? <;> simp [bodyMembers]

theorem requestType_of_members {params : List Parameter} {o : Operation}
    (h : ¬ (params = [] ∧ ¬ ∃ s, o.JsonBody s)) :
    requestType params o = .object (paramsMembers params ++ bodyMembers o.jsonBody?) := by
  have hne := mt requestMembers_eq_nil_iff.mp h
  unfold requestType
  split
  · next hnil => exact absurd hnil hne
  · rfl

theorem emit_requestType_iff {params : List Parameter} {o : Operation} :
    (requestType params o).emit = "undefined" ↔ params = [] ∧ ¬ ∃ s, o.JsonBody s := by
  constructor
  · intro h
    by_contra hne
    obtain ⟨cs, hcs⟩ := TypeExpr.inline_object (paramsMembers params ++ bodyMembers o.jsonBody?)
    have hchars := congrArg String.toList h
    rw [requestType_of_members hne, TypeExpr.emit, String.toList_ofList, hcs] at hchars
    cases hchars
  · intro h
    rw [requestType, requestMembers_eq_nil_iff.mpr h]
    rfl

/-- The request type that stands in a type under a path and a method. -/
def RequestAt (t : TypeExpr) (path method : String) (request : TypeExpr) : Prop :=
  ∃ paths methods parts, t = .object paths ∧ ⟨path, .object methods, false⟩ ∈ paths ∧
    ⟨method, .object parts, false⟩ ∈ methods ∧ ⟨"request", request, false⟩ ∈ parts

theorem requestAt_endpoints {d : Document} {path method : String} {t : TypeExpr} :
    RequestAt (endpoints d) path method t ↔
      ∃ p ∈ d.paths, ∃ q ∈ p.2.operations, p.1 = path ∧ q.1.name = method ∧
        t = requestType (d.mergeParameters p.2.parameters q.2) q.2 := by
  constructor
  · rintro ⟨paths, methods, parts, hpaths, hpath, hmethod, hrequest⟩
    cases hpaths
    obtain ⟨p, hp, he⟩ := List.mem_map.mp hpath
    cases he
    obtain ⟨q, hq, he⟩ := List.mem_map.mp hmethod
    cases he
    refine ⟨p, hp, q, hq, rfl, rfl, ?_⟩
    simpa using hrequest
  · rintro ⟨p, hp, q, hq, rfl, rfl, rfl⟩
    exact ⟨_, _, _, rfl, List.mem_map.mpr ⟨p, hp, rfl⟩, List.mem_map.mpr ⟨q, hq, rfl⟩,
      List.mem_cons_of_mem _ List.mem_cons_self⟩

/-- The requests of a document are those of its operations. The parameters of each are what those of its
path and its own stand for, the own ones hiding the others at their places; the request is `undefined` when
it has neither parameters nor a JSON body, and an object of the two otherwise. -/
theorem request_types (d : Document) :
    (∀ path method t, RequestAt (endpoints d) path method t ↔
      ∃ p ∈ d.paths, ∃ q ∈ p.2.operations, p.1 = path ∧ q.1.name = method ∧
        t = requestType (d.mergeParameters p.2.parameters q.2) q.2) ∧
    ∀ (item : PathItem) (o : Operation), ∃ shared own merged,
      Resolves d (item.parameters.getD []) shared ∧ Resolves d (o.parameters.getD []) own ∧
      d.mergeParameters item.parameters o = merged ∧ Merges shared own merged ∧
      (∀ m ∈ merged, m.ref = none ∧ m.name ≠ "") ∧
      ((requestType merged o).emit = "undefined" ↔ merged = [] ∧ ¬ ∃ s, o.JsonBody s) ∧
      (¬ (merged = [] ∧ ¬ ∃ s, o.JsonBody s) →
        ∃ xs, requestType merged o = .object xs ∧ RequestMembers merged o xs) := by
  refine ⟨fun _ _ _ => requestAt_endpoints, ?_⟩
  intro item o
  have hmerged := d.mergeParameters_eq_hide item.parameters o
  refine ⟨_, _, _, resolves_iff.mpr rfl, resolves_iff.mpr rfl, hmerged, merges_hide _ _, ?_,
    emit_requestType_iff, ?_⟩
  · intro m hm
    exact merge_final (hmerged ▸ hm)
  · intro h
    exact ⟨_, requestType_of_members h, requestMembers _ o⟩

/-- A component parameter, and one that refers to itself. -/
def limitAndLoop : Document where
  components := some { parameters := some [
    ("Limit", { name := "limit", location := "query" }),
    ("Loop", { ref := some "#/components/parameters/Loop" })] }

example : (requestType (limitAndLoop.mergeParameters
    (some [{ name := "id", location := "path" }, { name := "limit", location := "query", required := true }])
    { parameters := some [{ ref := some "#/components/parameters/Loop" },
        { ref := some "#/components/parameters/Limit" }] }) {}).emit =
    "\x7b params: \x7b id: any; limit?: any \x7d \x7d" := by decide +kernel

end TypedEndpoints.Generation
