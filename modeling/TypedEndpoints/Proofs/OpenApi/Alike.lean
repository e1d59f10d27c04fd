import TypedEndpoints.OpenApi.Document
import Mathlib.Data.List.Forall2
/-! Documents that are alike but for their schemas, and these related place by place. Resolution and merging
never look into a schema, so what they make of alike documents is alike. -/
namespace TypedEndpoints.OpenApi

/-- Entries with the same keys in the same order, and related values. -/
def Entries {κ α β : Type} (R : α → β → Prop) : List (κ × α) → List (κ × β) → Prop :=
  List.Forall₂ fun x y => x.1 = y.1 ∧ R x.2 y.2

section
variable {κ α β γ : Type} {R : α → β → Prop}

theorem rel_isSome {x : Option α} {y : Option β} (h : Option.Rel R x y) : x.isSome = y.isSome := by
  cases h <;> rfl

theorem Entries.get? {m : OrderedMap α} {n : OrderedMap β} (h : Entries R m n) (key : String) :
    Option.Rel R (m.get? key) (n.get? key) := by
  induction h with
  | nil => exact .none
  | @cons x y _ _ hxy _ ih =>
      obtain ⟨k, v⟩ := x
      obtain ⟨l, w⟩ := y
      obtain ⟨rfl, hvalue⟩ : k = l ∧ R v w := hxy
      rw [OrderedMap.get?, OrderedMap.get?]
      split
      · exact .some hvalue
      · exact ih

theorem Entries.contains {m : OrderedMap α} {n : OrderedMap β} (h : Entries R m n) (key : String) :
    m.contains key = n.contains key := rel_isSome (h.get? key)

theorem map_eq_map {f : α → γ} {g : β → γ} {xs : List α} {ys : List β} (h : List.Forall₂ R xs ys)
    (hfg : ∀ x y, R x y → f x = g y) : xs.map f = ys.map g := by
  induction h with
  | nil => rfl
  | cons hxy _ ih => rw [List.map_cons, List.map_cons, hfg _ _ hxy, ih]

theorem any_eq_any {f : α → Bool} {g : β → Bool} {xs : List α} {ys : List β} (h : List.Forall₂ R xs ys)
    (hfg : ∀ x y, R x y → f x = g y) : xs.any f = ys.any g := by
  induction h with
  | nil => rfl
  | cons hxy _ ih => rw [List.any_cons, List.any_cons, hfg _ _ hxy, ih]

theorem Entries.map_eq {f : κ × α → γ} {g : κ × β → γ} {xs : List (κ × α)} {ys : List (κ × β)}
    (h : Entries R xs ys) (hfg : ∀ k x y, R x y → f (k, x) = g (k, y)) : xs.map f = ys.map g := by
  refine map_eq_map h ?_
  rintro ⟨k, x⟩ ⟨_, y⟩ ⟨rfl, hxy⟩
  exact hfg k x y hxy

theorem Entries.flatMap_eq {f : κ × α → List γ} {g : κ × β → List γ} {xs : List (κ × α)}
    {ys : List (κ × β)} (h : Entries R xs ys) (hfg : ∀ k x y, R x y → f (k, x) = g (k, y)) :
    xs.flatMap f = ys.flatMap g := by
  rw [List.flatMap_def, List.flatMap_def, h.map_eq hfg]

theorem rel_filter {keep : α → Bool} {keep' : β → Bool} {x : Option α} {y : Option β}
    (h : Option.Rel R x y) (hkeep : ∀ a b, R a b → keep a = keep' b) :
    Option.Rel R (x.filter keep) (y.filter keep') := by
  cases h with
  | none => exact .none
  | @some a b hab =>
      rw [Option.filter_some, Option.filter_some, hkeep a b hab]
      split
      · exact .some hab
      · exact .none

theorem rel_bind {α' β' : Type} {S : α' → β' → Prop} {x : Option α} {y : Option β}
    {f : α → Option α'} {g : β → Option β'} (h : Option.Rel R x y)
    (hfg : ∀ a b, R a b → Option.Rel S (f a) (g b)) : Option.Rel S (x.bind f) (y.bind g) := by
  cases h with
  | none => exact .none
  | some hab => exact hfg _ _ hab

theorem rel_getD {xs : Option (List α)} {ys : Option (List β)}
    (h : Option.Rel (List.Forall₂ R) xs ys) : List.Forall₂ R (xs.getD []) (ys.getD []) := by
  cases h with
  | none => exact .nil
  | some h => exact h

end

section
variable (R : Schema → Schema → Prop)

structure Parameter.Alike (p q : Parameter) : Prop where
  name : p.name = q.name
  location : p.location = q.location
  required : p.required = q.required
  schema : Option.Rel R p.schema q.schema
  ref : p.ref = q.ref

/-- Schemas of any media type may differ. -/
def Content.Alike (c c' : Content) : Prop :=
  Option.Rel (Entries fun t t' : MediaType => Option.Rel R t.schema t'.schema) c c'

structure Operation.Alike (o o' : Operation) : Prop where
  operationId : o.operationId = o'.operationId
  parameters : Option.Rel (List.Forall₂ (Parameter.Alike R)) o.parameters o'.parameters
  requestBody : Option.Rel (fun b b' : RequestBody => Content.Alike R b.content b'.content)
    o.requestBody o'.requestBody
  responses : Entries (fun r r' : Response => Content.Alike R r.content r'.content) o.responses o'.responses

structure PathItem.Alike (x y : PathItem) : Prop where
  operations : Entries (Operation.Alike R) x.operations y.operations
  parameters : Option.Rel (List.Forall₂ (Parameter.Alike R)) x.parameters y.parameters

structure Components.Alike (c c' : Components) : Prop where
  schemas : Option.Rel (Entries R) c.schemas c'.schemas
  parameters : Option.Rel (Entries (Parameter.Alike R)) c.parameters c'.parameters

/-- The same document, with a related schema in the place of each schema. -/
structure Document.Alike (d e : Document) : Prop where
  paths : Entries (PathItem.Alike R) d.paths e.paths
  components : Option.Rel (Components.Alike R) d.components e.components

end

variable {R : Schema → Schema → Prop}

theorem Content.Alike.json? {c c' : Content} (h : Content.Alike R c c') :
    Option.Rel R (Content.json? c) (Content.json? c') := by
  cases h with
  | none => exact .none
  | some h => exact rel_bind (h.get? jsonMediaType) fun _ _ h => h

namespace Operation.Alike
variable {o o' : Operation} (h : o.Alike R o')
include h

theorem jsonBody? : Option.Rel R o.jsonBody? o'.jsonBody? :=
  rel_bind h.requestBody fun _ _ h => Content.Alike.json? h

theorem jsonOk? : Option.Rel R o.jsonOk? o'.jsonOk? :=
  rel_bind (h.responses.get? "200") fun _ _ h => Content.Alike.json? h

end Operation.Alike

namespace Document.Alike
variable {d e : Document} (h : d.Alike R e)
include h

theorem schemas : Entries R d.schemas e.schemas :=
  rel_getD (rel_bind h.components fun _ _ hc => hc.schemas)

theorem parameters : Entries (Parameter.Alike R) d.parameters e.parameters :=
  rel_getD (rel_bind h.components fun _ _ hc => hc.parameters)

theorem hasSchema (name : String) : d.hasSchema name = e.hasSchema name := h.schemas.contains name

theorem resolve? {p q : Parameter} (hpq : p.Alike R q) :
    Option.Rel (Parameter.Alike R) (d.resolve? p) (e.resolve? q) := by
  have hname : ∀ a b : Parameter, a.Alike R b → (a.name != "") = (b.name != "") := by
    intro a b hab
    rw [hab.name]
  unfold Document.resolve?
  rw [← hpq.ref]
  cases p.ref with
  | none => exact rel_filter (.some hpq) hname
  | some ref =>
      refine rel_filter (rel_filter (h.parameters.get? (refName ref)) fun a b hab => ?_) hname
      rw [hab.ref]

theorem resolveAll {ps qs : Option (List Parameter)}
    (hpq : Option.Rel (List.Forall₂ (Parameter.Alike R)) ps qs) :
    List.Forall₂ (Parameter.Alike R) (d.resolveAll ps) (e.resolveAll qs) :=
  List.rel_filterMap (fun _ _ hab => h.resolve? hab) (rel_getD hpq)

theorem mergeParameters {ps qs : Option (List Parameter)} {o o' : Operation}
    (hpq : Option.Rel (List.Forall₂ (Parameter.Alike R)) ps qs) (ho : o.Alike R o') :
    List.Forall₂ (Parameter.Alike R) (d.mergeParameters ps o) (e.mergeParameters qs o') := by
  have hown := h.resolveAll ho.parameters
  refine List.rel_append (List.rel_filter ?_ (h.resolveAll hpq)) hown
  intro a b hab
  have hplace : (d.resolveAll o.parameters).any (samePlace a) =
      (e.resolveAll o'.parameters).any (samePlace b) := any_eq_any hown fun x y hxy => by
    rw [samePlace, samePlace, hab.name, hab.location, hxy.name, hxy.location]
  simp only [hplace]

end Document.Alike
end TypedEndpoints.OpenApi
