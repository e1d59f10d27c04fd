import TypedEndpoints.Proofs.Json.Grammar
/-! The first character of a JSON text, blanks apart. A list starts with a bracket and an object with a brace. -/
namespace TypedEndpoints.Json

/-- The character that a list or an object starts with. -/
def Tree.opening? : Tree → Option Char
  | .list _ => some '['
  | .object _ => some '{'
  | _ => none

namespace Reader
variable {fuel : Nat} {cs rest : List Char} {t : Tree}

theorem items?_opening {acc : List Tree} (h : items? fuel acc cs = some (t, rest)) : t.opening? = some '[' := by
  induction fuel generalizing acc cs with
  | zero => cases h
  | succ fuel ih =>
      rw [items?] at h
      split at h
      · cases h
      · split at h
        · exact ih h
        · cases h
          rfl
        · cases h

theorem members?_opening {acc : List (Option String × Tree)} (h : members? fuel acc cs = some (t, rest)) :
    t.opening? = some '{' := by
  induction fuel generalizing acc cs with
  | zero => cases h
  | succ fuel ih =>
      rw [members?] at h
      split at h
      · split at h
        · cases h
        · split at h
          · split at h
            · cases h
            · split at h
              · exact ih h
              · cases h
                rfl
              · cases h
          · cases h
      · cases h

theorem tree?_opening {c : Char} (h : tree? fuel cs = some (t, rest)) (ht : t.opening? = some c) :
    ∃ r, skipBlanks cs = c :: r := by
  cases fuel with
  | zero => cases h
  | succ fuel =>
      rw [tree?] at h
      split at h
      · obtain ⟨p, _, he⟩ := Option.map_eq_some_iff.mp h
        cases he
        cases ht
      · next r hskip =>
        have hlist : t.opening? = some '[' := by
          split at h
          · cases h
            rfl
          · exact items?_opening h
        cases hlist.symm.trans ht
        exact ⟨r, hskip⟩
      · next r hskip =>
        have hobject : t.opening? = some '{' := by
          split at h
          · cases h
            rfl
          · exact members?_opening h
        cases hobject.symm.trans ht
        exact ⟨r, hskip⟩
      · cases h
        cases ht
      · cases h
        cases ht
      · cases h
        cases ht
      · obtain ⟨p, _, he⟩ := Option.map_eq_some_iff.mp h
        cases he
        cases ht

end Reader

theorem Tree.parse?_opening {cs : List Char} {t : Tree} {c : Char} (h : Tree.parse? cs = some t)
    (ht : t.opening? = some c) : ∃ bs rest, Blanks bs ∧ cs = bs ++ c :: rest := by
  unfold Tree.parse? at h
  split at h
  · next t' r htree =>
    split at h
    · cases h
      obtain ⟨bs, hbs, hcs⟩ := Reader.exists_blanks cs
      obtain ⟨rest, hskip⟩ := Reader.tree?_opening htree ht
      exact ⟨bs, rest, hbs, by rw [← hskip, ← hcs]⟩
    · cases h
  · cases h

theorem Blanks.all {bs : List Char} (hbs : Blanks bs) {p : Char → Bool} (hp : [' ', '\t', '\n', '\r'].all p = true) :
    ∀ c ∈ bs, p c = true := fun c hc => List.all_eq_true.mp hp c (hbs c hc)

end TypedEndpoints.Json
