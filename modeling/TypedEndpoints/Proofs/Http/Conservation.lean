import TypedEndpoints.Http.Url
import TypedEndpoints.Proofs.Http.Substitution
/-! Where the parameters of an address go: each one into its placeholders or, if it has none, into the
query as one item. What stands before the query does not depend on the order of the parameters. -/
namespace TypedEndpoints.Url
open Template

/-- The address before anything is filled in. -/
inductive Joined (base template : String) : String → Prop
  | absolute (http : "http".toList <+: template.toList) : Joined base template template
  | path (http : ¬ "http".toList <+: template.toList) (slash : "/".toList <+: template.toList) :
      Joined base template (base ++ template)
  | bare (http : ¬ "http".toList <+: template.toList) (slash : ¬ "/".toList <+: template.toList) :
      Joined base template (base ++ "/" ++ template)

def item (b : String × ParamValue) : String := b.1 ++ "=" ++ b.2.display

/-- Nothing for no bindings; else a question mark and the items in order. -/
def IsQuery (left : Params) (tail : String) : Prop :=
  (left = [] → tail = "") ∧ (left ≠ [] → tail = "?" ++ "&".intercalate (left.map item))

/-- Every binding of `p` is used in one way: its text is the value of the placeholders of its key in
`u`, or it is left over, once. -/
structure UsedOnce (u : String) (value : String → Option String) (p left : Params) : Prop where
  order : left.Sublist p
  filled : ∀ k v, (k, v) ∈ p → (∃ place, PlaceholderAt u.toList place k) →
    value k = some v.display ∧ k ∉ OrderedMap.keys left
  leftOver : ∀ k v, (k, v) ∈ p → (¬ ∃ place, PlaceholderAt u.toList place k) →
    left.filter (fun b => b.1 = k) = [(k, v)]
  unbound : ∀ k, k ∉ OrderedMap.keys p → value k = none

@[simp] theorem startsWith_iff {start s : String} :
    Text.startsWith start s = true ↔ start.toList <+: s.toList := List.isPrefixOf_iff_prefix

theorem joined_join (base template : String) : Joined base template (join base template) := by
  unfold join
  split
  · next http => exact .absolute (startsWith_iff.mp http)
  · next http =>
    rw [startsWith_iff] at http
    split
    · next slash => exact .path http (startsWith_iff.mp slash)
    · next slash =>
      rw [startsWith_iff] at slash
      exact .bare http slash

theorem queryItem_eq (b : String × ParamValue) : queryItem b = (item b).toList := by
  simp only [queryItem, item, ParamValue.display, String.toList_append, String.toList_ofList,
    List.append_assoc]
  rfl

theorem isQuery_query (left : Params) : IsQuery left (String.ofList (query left)) := by
  refine ⟨?_, ?_⟩
  · rintro rfl
    rfl
  · intro hne
    have hitems : left.map queryItem = (left.map item).map String.toList := by
      rw [List.map_map]
      exact List.map_congr_left fun b _ => queryItem_eq b
    have hempty : left.isEmpty = false := List.isEmpty_eq_false_iff.mpr hne
    apply String.toList_injective
    rw [query, hempty, Text.joinWith_eq, hitems, String.toList_ofList, String.toList_append,
      String.toList_intercalate]
    rfl

/-- What is left over are the bindings whose key is no placeholder. -/
theorem leftover_resolve {u : String} {s : Splitting} (hs : s.Splits u.toList) (p : Params) :
    leftover (resolve u p) p = p.filter fun b => b.1 ∉ s.keys := by
  refine List.filter_congr fun b hb => ?_
  have hkey : b.1 ∈ OrderedMap.keys p := List.mem_map_of_mem hb
  have hreplaced := (resolve_replaced hs p).mem b.1
  rw [and_iff_left hkey] at hreplaced
  rw [Bool.eq_iff_iff, Bool.not_eq_true', List.contains_eq_mem, decide_eq_false_iff_not,
    decide_eq_true_eq, hreplaced]

theorem filter_key {p : Params} (hp : (OrderedMap.keys p).Nodup) {k : String} {v : ParamValue}
    (h : (k, v) ∈ p) : p.filter (fun b => b.1 = k) = [(k, v)] := by
  induction p with
  | nil => cases h
  | cons b p ih =>
      obtain ⟨hb, hp⟩ := List.nodup_cons.mp hp
      rcases List.mem_cons.mp h with rfl | h
      · have hother : p.filter (fun b => b.1 = k) = [] := by
          refine List.filter_eq_nil_iff.mpr fun c hc => ?_
          rw [decide_eq_true_eq]
          rintro rfl
          exact hb (List.mem_map.mpr ⟨c, hc, rfl⟩)
        rw [List.filter_cons_of_pos (by simp), hother]
      · have hne : ¬ b.1 = k := by
          rintro rfl
          exact hb (List.mem_map.mpr ⟨_, h, rfl⟩)
        rw [List.filter_cons_of_neg (by simpa using hne), ih hp h]

theorem usedOnce_filter {u : String} {s : Splitting} (hs : s.Splits u.toList) {p : Params}
    (hp : (OrderedMap.keys p).Nodup) :
    UsedOnce u (valueText p) p (p.filter fun b => b.1 ∉ s.keys) := by
  refine ⟨List.filter_sublist, ?_, ?_, ?_⟩
  · intro k v h hat
    have hvalue : valueText p k = some v.display := by
      rw [valueText, OrderedMap.get?_of_mem hp h, Option.map_some]
    refine ⟨hvalue, ?_⟩
    intro hleft
    obtain ⟨b, hb, rfl⟩ := List.mem_map.mp hleft
    have hnot := of_decide_eq_true (List.mem_filter.mp hb).2
    exact hnot (hs.mem_keys.mpr hat)
  · intro k v h hat
    have hnot : k ∉ s.keys := fun hk => hat (hs.mem_keys.mp hk)
    rw [List.filter_filter, ← filter_key hp h]
    refine List.filter_congr fun b _ => ?_
    by_cases hb : b.1 = k
    · simp [hb, hnot]
    · simp [hb]
  · intro k hk
    have hnone : p.get? k = none := by
      cases e : p.get? k with
      | none => rfl
      | some v => exact absurd (List.mem_map.mpr ⟨_, OrderedMap.mem_of_get? e, rfl⟩) hk
    rw [valueText, hnone, Option.map_none]

theorem build_some {base template : String} {s : Splitting}
    (hs : s.Splits (join base template).toList) (p : Params) :
    build base template (some p) = String.ofList (s.fill (valueText p)) ++
      String.ofList (query (p.filter fun b => b.1 ∉ s.keys)) := by
  rw [← leftover_resolve hs, ← resolve_value hs]
  rfl

@[simp] theorem build_empty (base template : String) :
    build base template (some []) = build base template none := by
  have hs := Splitting.splits_pieces (join base template).toList
  have hvalue : ∀ k, valueText [] k = none := fun _ => rfl
  rw [build_some hs, Splitting.fill_none hvalue, hs.text, String.ofList_toList]
  exact String.append_empty

/-- The same text, whatever the order of the bindings, and then the query of the bindings left over;
without parameters, the address is that of no bindings. -/
theorem build_conserves (base template : String) {p : Params} (hp : (OrderedMap.keys p).Nodup) :
    ∃ (u : String) (s : Splitting) (value : String → Option String),
      Joined base template u ∧ s.Splits u.toList ∧
      (∀ q : Params, q.Perm p → ∃ left tail, UsedOnce u value q left ∧ IsQuery left tail ∧
        build base template (some q) = String.ofList (s.fill value) ++ tail) ∧
      build base template none = build base template (some []) := by
  have hs := Splitting.splits_pieces (join base template).toList
  refine ⟨_, _, valueText p, joined_join base template, hs, ?_, (build_empty base template).symm⟩
  intro q hperm
  have hq : (OrderedMap.keys q).Nodup := (hperm.map Prod.fst).nodup_iff.mpr hp
  have hvalue : valueText q = valueText p := by
    funext k
    rw [valueText, valueText, OrderedMap.get?_perm hq hperm]
  have hused := usedOnce_filter hs hq
  rw [hvalue] at hused
  refine ⟨_, _, hused, isQuery_query _, ?_⟩
  rw [build_some hs, hvalue]

/-- A binding for the path and one for the query. -/
def idAndPage : Params := [("id", .integer 7), ("page", .text "2")]

theorem build_conserves_idAndPage : (OrderedMap.keys idAndPage).Nodup ∧
    ∃ (u : String) (s : Splitting) (value : String → Option String),
      Joined "https://h" "/users/\x7bid\x7d" u ∧ s.Splits u.toList ∧
      (∀ q : Params, q.Perm idAndPage → ∃ left tail, UsedOnce u value q left ∧ IsQuery left tail ∧
        build "https://h" "/users/\x7bid\x7d" (some q) = String.ofList (s.fill value) ++ tail) ∧
      build "https://h" "/users/\x7bid\x7d" none =
        build "https://h" "/users/\x7bid\x7d" (some []) :=
  have hkeys : (OrderedMap.keys idAndPage).Nodup := by decide
  ⟨hkeys, build_conserves "https://h" "/users/\x7bid\x7d" hkeys⟩

end TypedEndpoints.Url
