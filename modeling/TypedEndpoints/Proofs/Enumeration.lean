import Mathlib.Data.List.Basic
/-! Lists as walks over an ordered tree. A place is the list of ways taken to it from the root; a walk
meets a place before what lies below it and takes the ways of a place in turn, which is the
lexicographic order. A list that holds the things at some places in this order has the first one as its
head. -/
namespace TypedEndpoints

/-- The ways from the root down, by number. -/
abbrev Address := List Nat

/-- The order in which a walk meets places. -/
def Address.Before (a b : Address) : Prop := List.Lex (· < ·) a b

theorem Address.Before.irrefl (a : Address) : ¬ a.Before a := List.lex_irrefl Nat.lt_irrefl a

theorem Address.Before.trans {a b c : Address} (h : a.Before b) (h' : b.Before c) : a.Before c :=
  List.lex_trans Nat.lt_trans h h'

/-- The list holds what `P` places somewhere, in the order of the places. -/
def Enumerates {β : Type} (xs : List β) (P : Address → β → Prop) : Prop :=
  ∃ ys : List (Address × β), ys.map Prod.snd = xs ∧ ys.Pairwise (fun x y => x.1.Before y.1) ∧
    ∀ a b, (a, b) ∈ ys ↔ P a b

/-- What `P` places, seen from one level up along way `n`. -/
def Along {β : Type} (n : Nat) (P : Address → β → Prop) (a : Address) (b : β) : Prop :=
  ∃ rest, a = n :: rest ∧ P rest b

/-- What the members of a list place, each along the way of its index. -/
def AlongEach {α β : Type} (l : List α) (P : α → Address → β → Prop) (a : Address) (b : β) : Prop :=
  ∃ i x, l[i]? = some x ∧ Along i (P x) a b

theorem Along.before {β : Type} {m n : Nat} (h : m < n) {P Q : Address → β → Prop} {a c : Address}
    {b e : β} (ha : Along m P a b) (hc : Along n Q c e) : a.Before c := by
  obtain ⟨rest, rfl, -⟩ := ha
  obtain ⟨rest', rfl, -⟩ := hc
  exact .rel h

namespace Enumerates
variable {α β γ : Type} {xs ys : List β} {P Q : Address → β → Prop}

theorem congr (h : Enumerates xs P) (hPQ : ∀ a b, P a b ↔ Q a b) : Enumerates xs Q := by
  obtain ⟨zs, hzs, hsorted, hmem⟩ := h
  exact ⟨zs, hzs, hsorted, fun a b => (hmem a b).trans (hPQ a b)⟩

theorem nil : Enumerates ([] : List β) fun _ _ => False :=
  ⟨[], rfl, .nil, fun a b => by simp⟩

theorem option (o : Option β) : Enumerates o.toList fun a b => a = [] ∧ o = some b := by
  cases o with
  | none => exact nil.congr fun a b => by simp
  | some c =>
      refine ⟨[([], c)], rfl, List.pairwise_singleton _ _, fun a b => ?_⟩
      simp [eq_comm]

theorem elim {o : Option α} {f : α → List β} {R : α → Address → β → Prop}
    (h : ∀ x, o = some x → Enumerates (f x) (R x)) :
    Enumerates (o.elim [] f) fun a b => ∃ x, o = some x ∧ R x a b := by
  cases o with
  | none => exact nil.congr fun a b => by simp
  | some x => exact (h x rfl).congr fun a b => by simp

theorem along (h : Enumerates xs P) (n : Nat) : Enumerates xs (Along n P) := by
  obtain ⟨zs, hzs, hsorted, hmem⟩ := h
  refine ⟨zs.map fun z => (n :: z.1, z.2), ?_, ?_, ?_⟩
  · rw [List.map_map]
    exact hzs
  · rw [List.pairwise_map]
    exact hsorted.imp fun hxy => .cons hxy
  · intro a b
    rw [List.mem_map]
    constructor
    · rintro ⟨⟨rest, c⟩, hz, he⟩
      cases he
      exact ⟨rest, rfl, (hmem rest c).mp hz⟩
    · rintro ⟨rest, rfl, hP⟩
      exact ⟨(rest, b), (hmem rest b).mpr hP, rfl⟩

theorem append (hx : Enumerates xs P) (hy : Enumerates ys Q)
    (hbefore : ∀ a b, P a b → ∀ c e, Q c e → a.Before c) :
    Enumerates (xs ++ ys) fun a b => P a b ∨ Q a b := by
  obtain ⟨us, hus, husorted, humem⟩ := hx
  obtain ⟨vs, hvs, hvsorted, hvmem⟩ := hy
  refine ⟨us ++ vs, by rw [List.map_append, hus, hvs], ?_, ?_⟩
  · refine List.pairwise_append.mpr ⟨husorted, hvsorted, ?_⟩
    rintro ⟨a, b⟩ hu ⟨c, e⟩ hv
    exact hbefore a b ((humem a b).mp hu) c e ((hvmem c e).mp hv)
  · intro a b
    rw [List.mem_append, humem, hvmem]

theorem filter (h : Enumerates xs P) (keep : β → Bool) :
    Enumerates (xs.filter keep) fun a b => P a b ∧ keep b = true := by
  obtain ⟨zs, rfl, hsorted, hmem⟩ := h
  refine ⟨zs.filter fun z => keep z.2, ?_, hsorted.filter _, ?_⟩
  · rw [List.filter_map]
    rfl
  · intro a b
    rw [List.mem_filter, hmem]

theorem map (h : Enumerates xs P) (f : β → γ) :
    Enumerates (xs.map f) fun a c => ∃ b, P a b ∧ f b = c := by
  obtain ⟨zs, rfl, hsorted, hmem⟩ := h
  refine ⟨zs.map fun z => (z.1, f z.2), ?_, ?_, ?_⟩
  · rw [List.map_map, List.map_map]
    rfl
  · rw [List.pairwise_map]
    exact hsorted
  · intro a c
    rw [List.mem_map]
    constructor
    · rintro ⟨⟨a, b⟩, hz, he⟩
      cases he
      exact ⟨b, (hmem a b).mp hz, rfl⟩
    · rintro ⟨b, hP, rfl⟩
      exact ⟨(a, b), (hmem a b).mpr hP, rfl⟩

/-- Members of a list are placed by their index, from a given one on. -/
theorem flatMapFrom (n : Nat) {l : List α} {f : α → List β} {R : α → Address → β → Prop}
    (h : ∀ x ∈ l, Enumerates (f x) (R x)) :
    Enumerates (l.flatMap f) fun a b => ∃ i x, l[i]? = some x ∧ Along (n + i) (R x) a b := by
  -- the way of a member is its index in the whole list, so the tail is placed from `n + 1` on
  induction l generalizing n with
  | nil => exact nil.congr fun a b => by simp
  | cons x l ih =>
      have hx := (h x List.mem_cons_self).along n
      have hl := ih (n + 1) fun y hy => h y (List.mem_cons_of_mem x hy)
      refine (hx.append hl ?_).congr fun a b => ?_
      · rintro a b ha c e ⟨i, y, -, hc⟩
        exact ha.before (by omega) hc
      · constructor
        · rintro (ha | ⟨i, y, hy, ha⟩)
          · exact ⟨0, x, rfl, ha⟩
          · refine ⟨i + 1, y, hy, ?_⟩
            rwa [Nat.add_right_comm] at ha
        · rintro ⟨i, y, hy, ha⟩
          cases i with
          | zero =>
              cases hy
              exact .inl ha
          | succ i =>
              refine .inr ⟨i, y, hy, ?_⟩
              rwa [Nat.add_right_comm]

theorem flatMap {l : List α} {f : α → List β} {R : α → Address → β → Prop}
    (h : ∀ x ∈ l, Enumerates (f x) (R x)) : Enumerates (l.flatMap f) (AlongEach l R) := by
  refine (flatMapFrom 0 h).congr fun a b => ?_
  simp only [Nat.zero_add, AlongEach]

theorem filterMap (l : List α) (f : α → Option β) :
    Enumerates (l.filterMap f) (AlongEach l fun x a b => a = [] ∧ f x = some b) := by
  rw [List.filterMap_eq_flatMap_toList]
  exact flatMap fun x _ => option (f x)

/-- The head is what is placed before all else. -/
theorem head? (h : Enumerates xs P) {b : β} :
    xs.head? = some b ↔ ∃ a, P a b ∧ ∀ c e, P c e → c = a ∨ a.Before c := by
  obtain ⟨zs, rfl, hsorted, hmem⟩ := h
  cases zs with
  | nil => simp [← hmem]
  | cons z zs =>
      obtain ⟨hz, -⟩ := List.pairwise_cons.mp hsorted
      have hfirst : ∀ c e, P c e → (c, e) = z ∨ z.1.Before c := by
        intro c e hce
        rcases List.mem_cons.mp ((hmem c e).mpr hce) with rfl | hin
        · exact .inl rfl
        · exact .inr (hz _ hin)
      simp only [List.map_cons, List.head?_cons, Option.some.injEq]
      constructor
      · rintro rfl
        refine ⟨z.1, (hmem z.1 z.2).mp List.mem_cons_self, ?_⟩
        intro c e hce
        exact (hfirst c e hce).imp_left fun he => congrArg Prod.fst he
      · rintro ⟨a, hab, hleast⟩
        rcases hfirst a b hab with he | hbefore
        · exact congrArg Prod.snd he.symm
        · rcases hleast z.1 z.2 ((hmem z.1 z.2).mp List.mem_cons_self) with he | hafter
          · exact absurd (he ▸ hbefore) (Address.Before.irrefl a)
          · exact absurd (hbefore.trans hafter) (Address.Before.irrefl z.1)

theorem mem (h : Enumerates xs P) {b : β} : b ∈ xs ↔ ∃ a, P a b := by
  obtain ⟨zs, rfl, -, hmem⟩ := h
  simp only [List.mem_map, ← hmem, Prod.exists, exists_eq_right]

end Enumerates
end TypedEndpoints
