import TypedEndpoints.OpenApi.Document
import TypedEndpoints.Proofs.Enumeration
/-! Where schemas and references stand in a document. A schema is a tree of items and properties; a
document holds schemas among its components and at its operations, there in the bodies of media type
`application/json`. Positions are addresses in this tree; nothing here says how a document is searched. -/
namespace TypedEndpoints.OpenApi

theorem Schema.sizeOf_items {s i : Schema} (h : s.items = some i) : sizeOf i < sizeOf s := by
  cases s
  cases h
  simp only [Schema.mk.sizeOf_spec, Option.some.sizeOf_spec]
  omega

theorem Schema.sizeOf_property {s : Schema} {ps : List (String × Schema)}
    (h : s.properties = some ps) {p : String × Schema} (hp : p ∈ ps) : sizeOf p.2 < sizeOf s := by
  have hlist := List.sizeOf_lt_of_mem hp
  cases s
  cases h
  cases p
  simp only [Schema.mk.sizeOf_spec, Option.some.sizeOf_spec, Prod.mk.sizeOf_spec] at hlist ⊢
  omega

/-- Induction over schemas: from the items and the properties to the whole. -/
theorem Schema.ind {motive : Schema → Prop}
    (h : ∀ s : Schema, (∀ i, s.items = some i → motive i) →
      (∀ ps, s.properties = some ps → ∀ p ∈ ps, motive p.2) → motive s) (s : Schema) : motive s :=
  h s (fun i _hi => ind h i) (fun ps _hps p _hp => ind h p.2)
termination_by sizeOf s
decreasing_by
  · exact Schema.sizeOf_items _hi
  · exact Schema.sizeOf_property _hps _hp

/-- A schema refers to `target` at an address, below properties of these names. A schema stands before
its items, and these before its properties. -/
inductive Schema.Refers : Schema → Address → List String → String → Prop
  | own {s : Schema} {target} : s.ref = some target → Refers s [] [] target
  | item {s i : Schema} {a names target} :
      s.items = some i → Refers i a names target → Refers s (0 :: a) names target
  | property {s q : Schema} {ps k name a names target} :
      s.properties = some ps → ps[k]? = some (name, q) → Refers q a names target →
      Refers s (1 :: k :: a) (name :: names) target

@[simp] theorem Content.json?_eq_some_iff {c : Content} {s : Schema} :
    c.json? = some s ↔ ∃ content media, c = some content ∧
      OrderedMap.get? content "application/json" = some media ∧ media.schema = some s := by
  cases c with
  | none => simp [json?]
  | some content => simp [json?, jsonMediaType, Option.bind_eq_some_iff]

namespace Operation
variable {o : Operation} {s : Schema}

def JsonBody (o : Operation) (s : Schema) : Prop :=
  ∃ body content media, o.requestBody = some body ∧ body.content = some content ∧
    OrderedMap.get? content "application/json" = some media ∧ media.schema = some s

def JsonOk (o : Operation) (s : Schema) : Prop :=
  ∃ response content media, OrderedMap.get? o.responses "200" = some response ∧
    response.content = some content ∧
    OrderedMap.get? content "application/json" = some media ∧ media.schema = some s

@[simp] theorem jsonBody?_eq_some_iff : o.jsonBody? = some s ↔ o.JsonBody s := by
  simp [jsonBody?, JsonBody, Option.bind_eq_some_iff]

@[simp] theorem jsonBody?_eq_none_iff : o.jsonBody? = none ↔ ¬ ∃ s, o.JsonBody s := by
  simp [Option.eq_none_iff_forall_ne_some]

@[simp] theorem jsonOk?_eq_some_iff : o.jsonOk? = some s ↔ o.JsonOk s := by
  simp [jsonOk?, JsonOk, Option.bind_eq_some_iff]

end Operation
end TypedEndpoints.OpenApi
