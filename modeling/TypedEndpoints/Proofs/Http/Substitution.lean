import TypedEndpoints.Proofs.Http.Splitting
import TypedEndpoints.Proofs.OrderedMap
/-! Filling a template substitutes at all its placeholders at once: the values stand between the literal
parts of the one splitting, and the two lists of names report the splitting's placeholders. -/
namespace TypedEndpoints.Template

/-- `l` lists those of `ks` that have a property: each once, ordered by where it first comes in `ks`. -/
structure ListsFirsts (l ks : List String) (P : String → Prop) : Prop where
  mem : ∀ k, k ∈ l ↔ k ∈ ks ∧ P k
  nodup : l.Nodup
  order : l.Pairwise fun a b => ks.idxOf a < ks.idxOf b

@[simp] theorem mem_firsts {k : String} {ks : List String} : k ∈ firsts ks ↔ k ∈ ks := by
  induction ks with
  | nil => rfl
  | cons x ks ih =>
      rw [firsts, List.mem_cons, List.mem_cons, List.mem_filter, ih, bne_iff_ne]
      by_cases hx : k = x
      · simp only [hx, true_or]
      · simp only [hx, false_or, ne_eq, not_false_eq_true, and_true]

theorem firsts_order (ks : List String) :
    (firsts ks).Pairwise fun a b => ks.idxOf a < ks.idxOf b := by
  induction ks with
  | nil => exact List.Pairwise.nil
  | cons x ks ih =>
      have hother : ∀ y ∈ (firsts ks).filter (· != x), (x :: ks).idxOf y = ks.idxOf y + 1 := by
        intro y hy
        have hne : y ≠ x := bne_iff_ne.mp (List.mem_filter.mp hy).2
        exact List.idxOf_cons_ne ks hne.symm
      refine List.pairwise_cons.mpr ⟨?_, ?_⟩
      · intro y hy
        rw [hother y hy, List.idxOf_cons_self]
        exact Nat.succ_pos _
      · refine List.Pairwise.imp_of_mem ?_ (ih.sublist List.filter_sublist)
        intro a b ha hb hab
        rw [hother a ha, hother b hb]
        exact Nat.succ_lt_succ hab

@[simp] theorem firsts_filter (p : String → Bool) (ks : List String) :
    firsts (ks.filter p) = (firsts ks).filter p := by
  induction ks with
  | nil => rfl
  | cons x ks ih =>
      cases hx : p x with
      | true =>
          rw [List.filter_cons_of_pos hx, firsts, firsts, ih, List.filter_cons_of_pos hx,
            List.filter_filter, List.filter_filter]
          simp only [Bool.and_comm]
      | false =>
          rw [List.filter_cons_of_neg (by rw [hx]; decide), firsts, ih,
            List.filter_cons_of_neg (by rw [hx]; decide), List.filter_filter]
          refine List.filter_congr fun y _ => ?_
          cases hy : p y with
          | false => rfl
          | true =>
              have hne : y ≠ x := by
                rintro rfl
                rw [hx] at hy
                cases hy
              rw [Bool.true_and, bne_iff_ne.mpr hne]

theorem listsFirsts_filter (p : String → Bool) (ks : List String) :
    ListsFirsts (firsts (ks.filter p)) ks (fun k => p k = true) := by
  have horder := (firsts_order ks).sublist (List.filter_sublist (p := p))
  rw [← firsts_filter] at horder
  refine ⟨?_, ?_, horder⟩
  · intro k
    simp
  · refine horder.imp ?_
    rintro a b hab rfl
    exact Nat.lt_irrefl _ hab

def valueText (params : Params) (key : String) : Option String :=
  (params.get? key).map ParamValue.display

theorem resolve_value {template : String} {s : Splitting} (hs : s.Splits template.toList)
    (params : Params) :
    (resolve template params).value = String.ofList (s.fill (valueText params)) := by
  rw [hs.eq_ofPieces, resolve]
  exact congrArg String.ofList (Splitting.ofPieces_fill _ params).symm

theorem resolve_replaced {template : String} {s : Splitting} (hs : s.Splits template.toList)
    (params : Params) : ListsFirsts (resolve template params).replaced s.keys
      (· ∈ OrderedMap.keys params) := by
  rw [hs.eq_ofPieces, Splitting.ofPieces_keys]
  have hlist := listsFirsts_filter params.contains (holeNames (pieces template.toList))
  simp only [OrderedMap.contains_iff] at hlist
  exact hlist

theorem resolve_unreplaced {template : String} {s : Splitting} (hs : s.Splits template.toList)
    (params : Params) : ListsFirsts (resolve template params).unreplaced s.keys
      (· ∉ OrderedMap.keys params) := by
  rw [hs.eq_ofPieces, Splitting.ofPieces_keys]
  have hlist := listsFirsts_filter (fun k => !params.contains k) (holeNames (pieces template.toList))
  simp only [Bool.not_eq_true', Bool.eq_false_iff, ne_eq, OrderedMap.contains_iff] at hlist
  exact hlist

/-- One splitting of the template at its placeholders, filled part by part; every placeholder is
reported in the list of the replaced names or in that of the others, and in one of them only. -/
theorem resolve_substitutes (template : String) (params : Params) :
    ∃ s : Splitting, s.Splits template.toList ∧
      (∀ s' : Splitting, s'.Splits template.toList → s' = s) ∧
      (resolve template params).value = String.ofList (s.fill (valueText params)) ∧
      ListsFirsts (resolve template params).replaced s.keys (· ∈ OrderedMap.keys params) ∧
      ListsFirsts (resolve template params).unreplaced s.keys (· ∉ OrderedMap.keys params) ∧
      (resolve template params).replaced.Disjoint (resolve template params).unreplaced ∧
      ∀ k, (k ∈ (resolve template params).replaced ∨ k ∈ (resolve template params).unreplaced) ↔
        ∃ place, PlaceholderAt template.toList place k := by
  have hs := Splitting.splits_pieces template.toList
  have hreplaced := resolve_replaced hs params
  have hunreplaced := resolve_unreplaced hs params
  refine ⟨_, hs, fun s' => hs.unique, resolve_value hs params, hreplaced, hunreplaced, ?_, ?_⟩
  · intro k hk hk'
    exact ((hunreplaced.mem k).mp hk').2 ((hreplaced.mem k).mp hk).2
  · intro k
    rw [hreplaced.mem, hunreplaced.mem, ← and_or_left, and_iff_left (Classical.em _), hs.mem_keys]

/-- A filled-in text that looks like a placeholder is left alone. -/
example : (resolve "/\x7ba\x7d" [("a", .text "\x7bb\x7d"), ("b", .text "c")]).value = "/\x7bb\x7d" := by
  decide

end TypedEndpoints.Template
