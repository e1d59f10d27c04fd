import Mathlib.Data.List.Forall2
import TypedEndpoints.Proofs.Source.Outcomes
/-! What readers take from the entries of a map and from the items of a list, whatever format they were
written in: a record is read off its entries by name, or off a list by place. -/
namespace TypedEndpoints.Source
open Outcomes

theorem lookup_map {α β : Type} (f : α → β) (name : String) (xs : List (String × α)) :
    (xs.map fun x => (x.1, f x.2)).lookup name = (xs.lookup name).map f := by
  induction xs with
  | nil => rfl
  | cons x xs ih =>
      obtain ⟨k, v⟩ := x
      rw [List.map_cons, List.lookup_cons, List.lookup_cons, ih]
      cases name == k <;> rfl

theorem lookup_filter {α : Type} (keep : String × α → Bool) {name : String}
    (hname : ∀ x, keep (name, x) = true) (xs : List (String × α)) :
    (xs.filter keep).lookup name = xs.lookup name := by
  induction xs with
  | nil => rfl
  | cons x xs ih =>
      obtain ⟨k, v⟩ := x
      rw [List.filter_cons, List.lookup_cons]
      by_cases hk : name = k
      · subst hk
        rw [if_pos (hname v), List.lookup_cons]
        simp only [beq_self_eq_true]
      · rw [beq_false_of_ne hk]
        split
        · rw [List.lookup_cons, beq_false_of_ne hk]
          exact ih
        · exact ih

theorem lookup_zip {α : Type} {names : List String} (hnames : names.Nodup) {i : Nat} {name : String}
    (hi : names[i]? = some name) (xs : List α) : (names.zip xs).lookup name = xs[i]? := by
  induction names generalizing i xs with
  | nil => cases hi
  | cons n names ih =>
      obtain ⟨hn, hnames⟩ := List.nodup_cons.mp hnames
      cases xs with
      | nil => rfl
      | cons x xs =>
          cases i with
          | zero =>
              cases hi
              exact List.lookup_cons_self
          | succ i =>
              have hmem : name ∈ names := List.mem_of_getElem? hi
              have hne : (name == n) = false := beq_eq_false_iff_ne.mpr fun e => hn (e ▸ hmem)
              rw [List.zip_cons_cons, List.lookup_cons, hne]
              exact ih hnames hi xs

theorem any_key_iff {α : Type} (key : α → String) {xs : List α} {name : String} :
    xs.any (fun x => key x == name) = true ↔ name ∈ xs.map key := by
  simp only [List.any_eq_true, beq_iff_eq, List.mem_map]

def Named (es : List (Node Empty × Node Empty)) (named : List (String × Node Empty)) : Prop :=
  List.Forall₂ (fun e x => text (m := Except Fault) e.1 = .ok x.1 ∧ e.2 = x.2) es named

def isKnown {α : Type} (known : List Field) (x : String × α) : Bool := known.any (·.name == x.1)

/-- Every key is looked at, so each of them is a text. -/
theorem knownFields_named {known : List Field} {es : List (Node Empty × Node Empty)} {acc fs : Fields Empty}
    (h : Returns (m := Except Fault) (knownFields known es acc) fs) :
    ∃ named, Named es named ∧ fs = acc.reverse ++ named.filter (isKnown known) := by
  induction es generalizing acc with
  | nil =>
      rw [of_pure h]
      exact ⟨[], .nil, (List.append_nil _).symm⟩
  | cons e es ih =>
      obtain ⟨k, v⟩ := e
      obtain ⟨key, hkey, h⟩ := of_bind h
      split at h
      · next hknown =>
        split at h
        · exact absurd h not_throw
        · obtain ⟨named, hnamed, rfl⟩ := ih h
          refine ⟨(key, v) :: named, .cons ⟨hkey, rfl⟩ hnamed, ?_⟩
          rw [List.filter_cons_of_pos (p := isKnown known) (a := (key, v)) hknown, List.reverse_cons,
            List.append_assoc, List.singleton_append]
      · next hunknown =>
        obtain ⟨named, hnamed, rfl⟩ := ih h
        refine ⟨(key, v) :: named, .cons ⟨hkey, rfl⟩ hnamed, ?_⟩
        rw [List.filter_cons_of_neg (p := isKnown known) (a := (key, v)) hunknown]

theorem positionalFields_eq {surplus : Bool} {known : List Field} {ns : List (Node Empty)}
    {fs : Fields Empty} (h : Returns (m := Except Fault) (positionalFields surplus known ns) fs) :
    fs = (known.map Field.name).zip ns := by
  induction known generalizing ns fs with
  | nil =>
      cases ns with
      | nil =>
          cases h
          rfl
      | cons n ns =>
          rw [positionalFields] at h
          split at h
          · cases h
            rfl
          · cases h
  | cons f known ih =>
      cases ns with
      | nil =>
          rw [positionalFields] at h
          split at h
          · rw [ih h, List.zip_nil_right, List.zip_nil_right]
          · cases h
      | cons n ns =>
          obtain ⟨rest, hrest, h⟩ := of_bind h
          cases h
          rw [ih hrest]
          rfl

section
variable {known : List Field} {fs : Fields Empty} {i : Nat} {name : String}

theorem knownFields_lookup {es : List (Node Empty × Node Empty)}
    (h : Returns (m := Except Fault) (knownFields known es []) fs)
    (hi : (known.map Field.name)[i]? = some name) :
    ∃ named, Named es named ∧ fs.lookup name = named.lookup name := by
  have hknown : known.any (·.name == name) = true :=
    (any_key_iff Field.name).mpr (List.mem_of_getElem? hi)
  obtain ⟨named, hnamed, rfl⟩ := knownFields_named h
  refine ⟨named, hnamed, ?_⟩
  rw [List.reverse_nil, List.nil_append]
  exact lookup_filter (isKnown known) (fun _ => hknown) named

theorem positionalFields_lookup {surplus : Bool} {ns : List (Node Empty)}
    (h : Returns (m := Except Fault) (positionalFields surplus known ns) fs)
    (hnames : (known.map Field.name).Nodup) (hi : (known.map Field.name)[i]? = some name) :
    fs.lookup name = ns[i]? := by
  rw [positionalFields_eq h]
  exact lookup_zip hnames hi ns

theorem record_map {depth d : Nat} {es : List (Node Empty × Node Empty)}
    (h : Returns (m := Except Fault) (record known depth (.map es)) (d, fs)) :
    Returns (m := Except Fault) (knownFields known es []) fs := by
  obtain ⟨n, hn, h⟩ := of_bind h
  cases of_pure hn
  obtain ⟨d', -, h⟩ := of_bind h
  obtain ⟨fs', hfs, h⟩ := of_bind h
  cases of_pure h
  exact hfs

theorem record_list {depth d : Nat} {role : ListRole} {ns : List (Node Empty)}
    (h : Returns (m := Except Fault) (record known depth (.list role ns)) (d, fs)) :
    Returns (m := Except Fault) (positionalFields role.surplus known ns) fs := by
  obtain ⟨n, hn, h⟩ := of_bind h
  cases of_pure hn
  obtain ⟨asRecord, surplus, kinds⟩ := role
  cases asRecord with
  | false => cases h
  | true =>
      obtain ⟨d', -, h⟩ := of_bind h
      obtain ⟨fs', hfs, h⟩ := of_bind h
      cases of_pure h
      exact hfs

end

section
variable {α β : Type} {xs : List α}

theorem mapM_ok_iff {f : α → Except Fault β} {ys : List β} :
    xs.mapM f = .ok ys ↔ List.Forall₂ (fun x y => f x = .ok y) xs ys := by
  induction xs generalizing ys with
  | nil =>
      rw [List.mapM_nil, List.forall₂_nil_left_iff]
      exact ⟨fun h => of_pure (m := Except Fault) h, fun h => h ▸ rfl⟩
  | cons x xs ih =>
      rw [List.mapM_cons, List.forall₂_cons_left_iff]
      constructor
      · intro h
        obtain ⟨y, hy, h⟩ := of_bind (m := Except Fault) h
        obtain ⟨rest, hrest, h⟩ := of_bind (m := Except Fault) h
        exact ⟨y, rest, hy, ih.mp hrest, of_pure (m := Except Fault) h⟩
      · rintro ⟨y, rest, hy, hrest, rfl⟩
        rw [hy, ih.mpr hrest]
        rfl

/-- A list is read, to results that are as they should be, when each of its items is. -/
theorem exists_forall₂_iff {R : α → β → Prop} {P : β → Prop} :
    (∃ ys, List.Forall₂ R xs ys ∧ ∀ y ∈ ys, P y) ↔ ∀ x ∈ xs, ∃ y, R x y ∧ P y := by
  induction xs with
  | nil => simp
  | cons x xs ih =>
      rw [List.forall_mem_cons, ← ih]
      constructor
      · rintro ⟨ys, hys, hall⟩
        obtain ⟨y, rest, hy, hrest, rfl⟩ := List.forall₂_cons_left_iff.mp hys
        obtain ⟨hP, hall⟩ := List.forall_mem_cons.mp hall
        exact ⟨⟨y, hy, hP⟩, rest, hrest, hall⟩
      · rintro ⟨⟨y, hy, hP⟩, rest, hrest, hall⟩
        exact ⟨y :: rest, .cons hy hrest, List.forall_mem_cons.mpr ⟨hP, hall⟩⟩

end

/-- The pairs of a map are its entries, with their values read. -/
theorem mapM_named {α : Type} {read : Node Empty → Except Fault α} {es : List (Node Empty × Node Empty)}
    {pairs : List (String × α)}
    (h : Returns (m := Except Fault) (es.mapM fun e => do
      let key ← text e.1
      let value ← read e.2
      pure (key, value)) pairs) :
    ∃ named, Named es named ∧ List.Forall₂ (fun x p => x.1 = p.1 ∧ Returns (read x.2) p.2) named pairs := by
  have hall := mapM_ok_iff.mp h
  clear h
  induction hall with
  | nil => exact ⟨[], .nil, .nil⟩
  | @cons e _ _ _ hp _ ih =>
      obtain ⟨key, hkey, hp⟩ := of_bind (m := Except Fault) hp
      obtain ⟨v, hv, hp⟩ := of_bind (m := Except Fault) hp
      obtain ⟨named, hnamed, hpairs⟩ := ih
      rw [of_pure (m := Except Fault) hp]
      exact ⟨(key, e.2) :: named, .cons ⟨hkey, rfl⟩ hnamed, .cons ⟨rfl, hv⟩ hpairs⟩

end TypedEndpoints.Source
