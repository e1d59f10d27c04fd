import TypedEndpoints.Proofs.Source.JsonRecords
/-! Readings that agree. A record is read the same, up to its values, when a key that it does not know comes or
goes, and when the value of a key is replaced; what is then read of a field depends on its value only. -/
namespace TypedEndpoints.Source
open Node

/-- The same fault, or related results. -/
inductive Agree {α β : Type} (R : α → β → Prop) : Except Fault α → Except Fault β → Prop
  | fault (f) : Agree R (.error f) (.error f)
  | ok {a b} : R a b → Agree R (.ok a) (.ok b)

section
variable {α β γ δ : Type} {R : α → β → Prop} {S : γ → δ → Prop}

theorem Agree.refl {R : α → α → Prop} (hR : ∀ a, R a a) (x : Except Fault α) : Agree R x x := by
  cases x with
  | error f => exact .fault f
  | ok a => exact .ok (hR a)

theorem Agree.bind {x : Except Fault α} {y : Except Fault β} (h : Agree R x y)
    {f : α → Except Fault γ} {g : β → Except Fault δ} (hfg : ∀ a b, R a b → Agree S (f a) (g b)) :
    Agree S (x >>= f) (y >>= g) := by
  cases h with
  | fault e => exact .fault e
  | ok hab => exact hfg _ _ hab

theorem Agree.bind_eq {x : Except Fault α} {y : Except Fault β} (h : Agree R x y)
    {f : α → Except Fault γ} {g : β → Except Fault γ} (hfg : ∀ a b, R a b → f a = g b) :
    x >>= f = y >>= g := by
  cases h with
  | fault e => rfl
  | ok hab => exact hfg _ _ hab

theorem mapM_replace {f : α → Except Fault γ} {x y : α} (h : f x = f y) (before after : List α) :
    (before ++ x :: after).mapM f = (before ++ y :: after).mapM f := by
  rw [List.mapM_append, List.mapM_append, List.mapM_cons, List.mapM_cons, h]

theorem forall₂_replace {R : α → α → Prop} (hR : ∀ a, R a a) {x y : α} (hxy : R x y) (before after : List α) :
    List.Forall₂ R (before ++ x :: after) (before ++ y :: after) :=
  List.rel_append (List.forall₂_same.mpr fun a _ => hR a) (.cons hxy (List.forall₂_same.mpr fun a _ => hR a))

end

section
variable {V : String → Node Empty → Node Empty → Prop}

/-- Fields of the same names in the same order, with related values. -/
def FieldsAlike (V : String → Node Empty → Node Empty → Prop) : Fields Empty → Fields Empty → Prop :=
  List.Forall₂ fun x y => x.1 = y.1 ∧ V x.1 x.2 y.2

/-- Entries under the same keys in the same order, with related values where the key is a text. -/
def EntriesAlike (V : String → Node Empty → Node Empty → Prop) :
    List (Node Empty × Node Empty) → List (Node Empty × Node Empty) → Prop :=
  List.Forall₂ fun x y => x.1 = y.1 ∧ ∀ key, text (m := Except Fault) x.1 = .ok key → V key x.2 y.2

theorem FieldsAlike.lookup {fs fs' : Fields Empty} (h : FieldsAlike V fs fs') (name : String) :
    Option.Rel (V name) (fs.lookup name) (fs'.lookup name) := by
  induction h with
  | nil => exact .none
  | @cons x y _ _ hxy _ ih =>
      obtain ⟨k, n⟩ := x
      obtain ⟨k', n'⟩ := y
      obtain ⟨rfl, hn⟩ := hxy
      rw [List.lookup_cons, List.lookup_cons]
      by_cases hk : name = k
      · subst hk
        rw [beq_self_eq_true]
        exact .some hn
      · rw [beq_false_of_ne hk]
        exact ih

theorem FieldsAlike.any_name {fs fs' : Fields Empty} (h : FieldsAlike V fs fs') (key : String) :
    fs.any (·.1 == key) = fs'.any (·.1 == key) := by
  induction h with
  | nil => rfl
  | cons hxy _ ih => rw [List.any_cons, List.any_cons, hxy.1, ih]

theorem knownFields_alike {known : List Field} {es es' : List (Node Empty × Node Empty)}
    {acc acc' : Fields Empty} (h : EntriesAlike V es es') (hacc : FieldsAlike V acc acc') :
    Agree (FieldsAlike V) (knownFields known es acc) (knownFields known es' acc') := by
  induction h generalizing acc acc' with
  | nil => exact .ok (List.rel_reverse hacc)
  | @cons x y _ _ hxy _ ih =>
      obtain ⟨k, v⟩ := x
      obtain ⟨k', v'⟩ := y
      obtain ⟨rfl, hv⟩ := hxy
      rw [knownFields, knownFields]
      cases hkey : text (m := Except Fault) k with
      | error f => exact .fault f
      | ok key =>
          change Agree _ (if _ then _ else _) (if _ then _ else _)
          rw [← hacc.any_name key]
          split
          · split
            · exact .fault _
            · exact ih (.cons ⟨rfl, hv key hkey⟩ hacc)
          · exact ih hacc

theorem knownFields_skip {known : List Field} {key : String} (hkey : known.any (·.name == key) = false)
    (v : Node Empty) (before after : List (Node Empty × Node Empty)) (acc : Fields Empty) :
    knownFields (m := Except Fault) known (before ++ (.scalar (.ofText key), v) :: after) acc =
      knownFields known (before ++ after) acc := by
  induction before generalizing acc with
  | nil =>
      change (if known.any (·.name == key) = true then _ else _) = _
      rw [if_neg (by rw [hkey]; exact Bool.false_ne_true)]
      rfl
  | cons x before ih => simp only [List.cons_append, knownFields, ih]

theorem positionalFields_replace {surplus : Bool} {known : List Field} {n n' : Node Empty}
    (hV : ∀ name n, V name n n) (before after : List (Node Empty))
    (h : ∀ f, known[before.length]? = some f → V f.name n n') :
    Agree (FieldsAlike V) (positionalFields surplus known (before ++ n :: after))
      (positionalFields surplus known (before ++ n' :: after)) := by
  have same : ∀ x, Agree (FieldsAlike V) x x :=
    Agree.refl fun fs => List.forall₂_same.mpr fun x _ => ⟨rfl, hV x.1 x.2⟩
  induction known generalizing before with
  | nil => cases before <;> exact same _
  | cons f known ih =>
      cases before with
      | nil => exact (same _).bind fun _ _ hfs => .ok (.cons ⟨rfl, h f rfl⟩ hfs)
      | cons x before => exact (ih before h).bind fun _ _ hfs => .ok (.cons ⟨rfl, hV f.name x⟩ hfs)

end

/-- A node that cannot say that there is nothing. -/
inductive IsCollection : Node Empty → Prop
  | map (es) : IsCollection (.map es)
  | list (role ns) : IsCollection (.list role ns)

theorem optional_of_collection {α : Type} {n : Node Empty} (h : IsCollection n)
    (read : Node Empty → Except Fault α) : optional read n = some <$> read n := by
  cases h <;> rfl

theorem ofJsonMembers_eq (ms : List (Option String × Json.Tree)) :
    ofJsonMembers ms = ms.map fun p => (.scalar (.ofText? p.1), ofJson p.2) := by
  induction ms with
  | nil => rfl
  | cons p ms ih => rw [ofJsonMembers, ih, List.map_cons]

end TypedEndpoints.Source
