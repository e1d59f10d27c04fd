import TypedEndpoints.Proofs.Yaml.LeadingBracket
/-! The node of a text that starts with an opening bracket: a sequence, or a mapping that has a collection among its
keys. -/
namespace TypedEndpoints.Yaml.Node

variable {hs : Handles} {fuel : Nat} {block indentless : Bool} {rest ts r : List Token} {n : Node}
  {acc es : List (Node × Node)}

inductive IsCollection : Node → Prop
  | sequence (p xs) : IsCollection (.sequence p xs)
  | mapping (p es) : IsCollection (.mapping p es)

/-- Nothing whose entries all have names. -/
inductive NoRecord : Node → Prop
  | sequence (p xs) : NoRecord (.sequence p xs)
  | mapping {p es e} : e ∈ es → IsCollection e.1 → NoRecord (.mapping p es)

/-! ### Nodes of single tokens -/

theorem not_indentless {t : Token} (ht : [Token.blockEntry].contains t = false) :
    ¬ (indentless && next [.blockEntry] (t :: ts)) = true := by
  rw [next, ht, Bool.and_false]
  exact Bool.false_ne_true

theorem ofTokens_openSequence (h : ofTokens hs fuel block indentless (.openSequence :: rest) = .ok (n, r)) :
    ∃ p xs, n = .sequence p xs := by
  cases fuel with
  | zero => cases h
  | succ fuel =>
      rw [ofTokens] at h
      · obtain ⟨⟨p, r'⟩, hprops, h⟩ := ok_of_bind h
        cases hprops
        dsimp only at h
        rw [if_neg (not_indentless rfl)] at h
        obtain ⟨⟨xs, r'⟩, _, h⟩ := ok_of_bind h
        cases h
        exact ⟨_, xs, rfl⟩
      · exact nofun

theorem ofTokens_blockMapping (h : ofTokens hs fuel true indentless (.blockMapping :: rest) = .ok (n, r)) :
    ∃ p es r' fuel', n = .mapping p es ∧ blockEntries hs fuel' [] rest = .ok (es, r') := by
  cases fuel with
  | zero => cases h
  | succ fuel =>
      rw [ofTokens] at h
      · obtain ⟨⟨p, r'⟩, hprops, h⟩ := ok_of_bind h
        cases hprops
        dsimp only at h
        rw [if_neg (not_indentless rfl)] at h
        obtain ⟨⟨es, r'⟩, hes, h⟩ := ok_of_bind h
        cases h
        exact ⟨_, es, _, fuel, rfl, hes⟩
      · exact nofun

/-- No node starts with the mark of a key. -/
theorem ofTokens_key : ofTokens hs fuel block false (.key :: rest) ≠ .ok (n, r) := by
  intro h
  cases fuel with
  | zero => cases h
  | succ fuel =>
      rw [ofTokens] at h
      · cases block <;> cases h
      · exact nofun

theorem nodeUnless_next {stops : List Token} (hnext : next stops ts = true)
    (h : nodeUnless hs fuel stops block indentless ts = .ok (n, r)) : n = empty ∧ r = ts := by
  cases fuel with
  | zero => cases h
  | succ fuel =>
      rw [nodeUnless, if_pos hnext] at h
      cases h
      exact ⟨rfl, rfl⟩

theorem nodeUnless_ofTokens {stops : List Token} (hnext : next stops ts = false)
    (h : nodeUnless hs fuel stops block indentless ts = .ok (n, r)) :
    ∃ fuel, ofTokens hs fuel block indentless ts = .ok (n, r) := by
  cases fuel with
  | zero => cases h
  | succ fuel =>
      rw [nodeUnless, if_neg (Bool.eq_false_iff.mp hnext)] at h
      exact ⟨fuel, h⟩

/-! ### Entries -/

/-- One entry. The value is empty if no mark of a value follows the key. -/
theorem blockEntries_key (h : blockEntries hs (fuel + 1) acc (.key :: ts) = .ok (es, r)) : ∃ k v r₁ r₂,
    nodeUnless hs fuel [.key, .value, .blockEnd] true true ts = .ok (k, r₁) ∧
      (next [.value] r₁ = false → r₂ = r₁) ∧ blockEntries hs fuel ((k, v) :: acc) r₂ = .ok (es, r) := by
  obtain ⟨⟨k, r₁⟩, hk, h⟩ := ok_of_bind h
  dsimp only at h
  split at h
  · obtain ⟨⟨v, r₂⟩, _, h⟩ := ok_of_bind h
    exact ⟨k, v, _, r₂, hk, nofun, h⟩
  · obtain ⟨⟨v, r₂⟩, hv, h⟩ := ok_of_bind h
    cases hv
    exact ⟨k, empty, _, _, hk, fun _ => rfl, h⟩

theorem mem_blockEntries {e : Node × Node} (he : e ∈ acc) (h : blockEntries hs fuel acc ts = .ok (es, r)) :
    e ∈ es := by
  induction fuel generalizing acc ts with
  | zero => cases h
  | succ fuel ih =>
      have hrun := h
      unfold blockEntries at h
      split at h
      · obtain ⟨_, _, _, _, _, _, hrun⟩ := blockEntries_key hrun
        exact ih (List.mem_cons_of_mem _ he) hrun
      · cases h
        exact List.mem_reverse.mpr he
      · cases h

/-- Keys without a name may come first; the bracket is in the first key that has one. -/
theorem blockEntries_listFirst {marks : List Token} (hmarks : ∀ t ∈ marks, IsKeyMark t)
    (h : blockEntries hs fuel acc (marks ++ .openSequence :: rest) = .ok (es, r)) :
    ∃ e ∈ es, IsCollection e.1 := by
  induction fuel generalizing acc marks with
  | zero => cases h
  | succ fuel ih =>
      cases marks with
      | nil => cases h
      | cons m marks =>
          obtain ⟨hm, hrest⟩ := List.forall_mem_cons.mp hmarks
          cases hm with
          | blockMapping => cases h
          | key =>
              obtain ⟨k, v, r₁, r₂, hk, hempty, h⟩ := blockEntries_key h
              have hfound : IsCollection k → ∃ e ∈ es, IsCollection e.1 := fun hkey =>
                ⟨(k, v), mem_blockEntries List.mem_cons_self h, hkey⟩
              cases marks with
              | nil =>
                  obtain ⟨_, hk⟩ := nodeUnless_ofTokens rfl hk
                  obtain ⟨p, xs, rfl⟩ := ofTokens_openSequence hk
                  exact hfound (.sequence p xs)
              | cons m marks =>
                  have hnext := (List.forall_mem_cons.mp hrest).1
                  cases hnext with
                  | blockMapping =>
                      obtain ⟨_, hk⟩ := nodeUnless_ofTokens rfl hk
                      obtain ⟨p, entries, _, _, rfl, _⟩ := ofTokens_blockMapping hk
                      exact hfound (.mapping p entries)
                  | key =>
                      -- nothing is taken for this key, so the marks that are left go on
                      obtain ⟨rfl, rfl⟩ := nodeUnless_next rfl hk
                      rw [hempty rfl] at h
                      exact ih hrest h

/-! ### Documents -/

theorem ofTokens_listFirst (hts : ListFirst ts) (h : ofTokens hs fuel true false ts = .ok (n, r)) : NoRecord n := by
  obtain ⟨marks, rest, rfl, hmarks⟩ := hts
  cases marks with
  | nil =>
      obtain ⟨p, xs, rfl⟩ := ofTokens_openSequence h
      exact .sequence p xs
  | cons m marks =>
      obtain ⟨hm, hrest⟩ := List.forall_mem_cons.mp hmarks
      cases hm with
      | key => exact absurd h ofTokens_key
      | blockMapping =>
          obtain ⟨p, es, _, _, rfl, hes⟩ := ofTokens_blockMapping h
          obtain ⟨e, he, hkey⟩ := blockEntries_listFirst hrest hes
          exact .mapping he hkey

theorem startsDocument_listFirst (hts : ListFirst ts) : startsDocument ts = false := by
  obtain ⟨marks, rest, rfl, hmarks⟩ := hts
  cases marks with
  | nil => rfl
  | cons m marks =>
      have hm := (List.forall_mem_cons.mp hmarks).1
      cases hm <;> rfl

theorem firstDocument_listFirst (hts : ListFirst ts) (h : firstDocument ts = .ok (n, r)) : NoRecord n := by
  unfold firstDocument at h
  rw [startsDocument_listFirst hts] at h
  exact ofTokens_listFirst hts h

theorem parse_bracket {cs rest : List Char} (hcs : BracketText rest cs) {o : Option Node}
    (h : parse cs = .ok o) : ∃ n, o = some n ∧ NoRecord n := by
  obtain ⟨ts, hts, h⟩ := ok_of_bind h
  have hlist := scan_bracket hcs hts
  split at h
  · next hempty =>
    obtain ⟨marks, rest, rfl, _⟩ := hlist
    simp at hempty
  · obtain ⟨⟨n, r⟩, hn, h⟩ := ok_of_bind h
    rcases ite_eq_iff.mp h with ⟨_, h⟩ | ⟨_, h⟩
    · cases h
      exact ⟨n, rfl, firstDocument_listFirst hlist hn⟩
    · cases h

end TypedEndpoints.Yaml.Node
