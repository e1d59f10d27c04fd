import TypedEndpoints.Proofs.Http.Conservation
import TypedEndpoints.Proofs.Text.Cut
/-! Addresses read back. Nothing in a query is encoded, so an address gives back the bindings of its query only as
far as none of them holds a separator that ends it early: no question mark before the query, no equals sign in a
key, no ampersand anywhere. An equals sign or a question mark in a value does no harm. -/
namespace TypedEndpoints.Url
open Template

/-- Of the bindings `p`, those whose key stands in no placeholder of `u` are left over, in their order. -/
inductive LeftOver (u : String) : Params → Params → Prop
  | nil : LeftOver u [] []
  | kept {b : String × ParamValue} {p left : Params} (h : ¬ ∃ place, PlaceholderAt u.toList place b.1) :
      LeftOver u p left → LeftOver u (b :: p) (b :: left)
  | used {b : String × ParamValue} {p left : Params} (h : ∃ place, PlaceholderAt u.toList place b.1) :
      LeftOver u p left → LeftOver u (b :: p) left

/-- No separator ends the text before the query, a key or a value before its end. -/
structure Unbroken (before : String) (left : Params) : Prop where
  before : '?' ∉ before.toList
  keys : ∀ b ∈ left, '=' ∉ b.1.toList ∧ '&' ∉ b.1.toList
  values : ∀ b ∈ left, '&' ∉ b.2.display.toList

/-- An item cut at its first equals sign. -/
def readItem (i : List Char) : Option (String × String) :=
  (Text.cutFirst '=' i).map fun p => (String.ofList p.1, String.ofList p.2)

/-- An address cut at its first question mark, what follows at every ampersand, and each item at its first
equals sign. -/
def read? (url : String) : Option (String × List (String × String)) :=
  match Text.cutFirst '?' url.toList with
  | none => some (url, [])
  | some (before, rest) =>
    ((Text.pieces '&' rest).mapM readItem).map fun pairs => (String.ofList before, pairs)

def pairTexts (left : Params) : List (String × String) := left.map fun b => (b.1, b.2.display)

theorem LeftOver.eq_filter {u : String} {p left : Params} (h : LeftOver u p left) {s : Splitting}
    (hs : s.Splits u.toList) : left = p.filter fun b => b.1 ∉ s.keys := by
  induction h with
  | nil => rfl
  | kept hfree _ ih =>
      rw [← hs.mem_keys] at hfree
      rw [List.filter_cons_of_pos (by simpa using hfree), ← ih]
  | used hat _ ih =>
      rw [← hs.mem_keys] at hat
      rw [List.filter_cons_of_neg (by simpa using hat), ← ih]

theorem leftOver_filter {u : String} {s : Splitting} (hs : s.Splits u.toList) (p : Params) :
    LeftOver u p (p.filter fun b => b.1 ∉ s.keys) := by
  induction p with
  | nil => exact .nil
  | cons b p ih =>
      by_cases hb : b.1 ∈ s.keys
      · rw [List.filter_cons_of_neg (by simpa using hb)]
        exact ih.used (hs.mem_keys.mp hb)
      · rw [List.filter_cons_of_pos (by simpa using hb)]
        exact ih.kept (mt hs.mem_keys.mpr hb)

theorem leftOver_leftover (u : String) (p : Params) : LeftOver u p (leftover (resolve u p) p) := by
  have hs := Splitting.splits_pieces u.toList
  rw [leftover_resolve hs]
  exact leftOver_filter hs p

theorem build_leftOver {base template : String} {p left : Params}
    (h : LeftOver (join base template) p left) :
    build base template (some p) =
      (resolve (join base template) p).value ++ String.ofList (query left) := by
  have hs := Splitting.splits_pieces (join base template).toList
  rw [h.eq_filter hs, ← leftover_resolve hs]
  rfl

theorem readItem_queryItem {b : String × ParamValue} (h : '=' ∉ b.1.toList) :
    readItem (queryItem b) = some (b.1, b.2.display) := by
  rw [readItem, queryItem, Text.cutFirst_append h, Option.map_some, String.ofList_toList]
  rfl

theorem mapM_readItem {left : Params} (h : ∀ b ∈ left, '=' ∉ b.1.toList) :
    (left.map queryItem).mapM readItem = some (pairTexts left) := by
  induction left with
  | nil => rfl
  | cons b left ih =>
      have hb := readItem_queryItem (h b List.mem_cons_self)
      have hrest := ih fun c hc => h c (List.mem_cons_of_mem b hc)
      rw [List.map_cons, List.mapM_cons, hb, hrest]
      rfl

theorem Unbroken.items {before : String} {left : Params} (h : Unbroken before left) :
    ∀ i ∈ left.map queryItem, '&' ∉ i := by
  intro i hi
  obtain ⟨b, hb, rfl⟩ := List.mem_map.mp hi
  have hkey := (h.keys b hb).2
  have hvalue := h.values b hb
  rw [ParamValue.display, String.toList_ofList] at hvalue
  simp [queryItem, hkey, hvalue]

theorem query_of_ne_nil {left : Params} (h : left ≠ []) :
    query left = '?' :: ['&'].intercalate (left.map queryItem) := by
  rw [query, List.isEmpty_eq_false_iff.mpr h, Text.joinWith_eq]
  rfl

theorem read?_query {before : String} {left : Params} (h : Unbroken before left) :
    read? (before ++ String.ofList (query left)) = some (before, pairTexts left) := by
  by_cases hleft : left = []
  · subst hleft
    have htext : before ++ String.ofList (query []) = before := String.append_empty
    rw [htext, read?, Text.cutFirst_of_notMem h.before]
    rfl
  · have hitems : left.map queryItem ≠ [] := by simpa using hleft
    have hpairs := mapM_readItem fun b hb => (h.keys b hb).1
    rw [query_of_ne_nil hleft, read?, String.toList_append, String.toList_ofList,
      Text.cutFirst_append h.before]
    simp only [Text.pieces_intercalate hitems h.items, hpairs, Option.map_some, String.ofList_toList]

/-- An address whose parts hold no separator of their own is read back to what it was built from: the filled
template and the bindings left over, with no query if there are none. So what is left over can be told from the
address. -/
theorem appended_query_reads_back {base template : String} {p left : Params}
    (hleft : LeftOver (join base template) p left)
    (h : Unbroken (resolve (join base template) p).value left) :
    read? (build base template (some p)) =
      some ((resolve (join base template) p).value, pairTexts left) ∧
    (left = [] → build base template (some p) = (resolve (join base template) p).value) ∧
    ∀ (base' template' : String) (p' left' : Params), LeftOver (join base' template') p' left' →
      Unbroken (resolve (join base' template') p').value left' → pairTexts left' ≠ pairTexts left →
      build base' template' (some p') ≠ build base template (some p) := by
  have hread : read? (build base template (some p)) =
      some ((resolve (join base template) p).value, pairTexts left) := by
    rw [build_leftOver hleft]
    exact read?_query h
  refine ⟨hread, ?_, ?_⟩
  · rintro rfl
    rw [build_leftOver hleft]
    exact String.append_empty
  · intro base' template' p' left' hleft' h' hne hsame
    have hread' := read?_query h'
    rw [← build_leftOver hleft', hsame, hread, Option.some_inj, Prod.mk.injEq] at hread'
    exact hne hread'.2.symm

/-- An empty key with an empty value, and a value that looks like a query. -/
def oddBindings : Params := [("", .text ""), ("id", .integer 7), ("q", .text "a=1?b=2")]

theorem appended_query_reads_back_odd :
    LeftOver (join "https://h" "/u/\x7bid\x7d") oddBindings [("", .text ""), ("q", .text "a=1?b=2")] ∧
      Unbroken (resolve (join "https://h" "/u/\x7bid\x7d") oddBindings).value
        [("", .text ""), ("q", .text "a=1?b=2")] ∧
      read? (build "https://h" "/u/\x7bid\x7d" (some oddBindings)) =
        some ("https://h/u/7", [("", ""), ("q", "a=1?b=2")]) := by
  have hleft : LeftOver (join "https://h" "/u/\x7bid\x7d") oddBindings
      [("", .text ""), ("q", .text "a=1?b=2")] := leftOver_leftover _ _
  have hvalue : (resolve (join "https://h" "/u/\x7bid\x7d") oddBindings).value = "https://h/u/7" := by
    decide
  have h : Unbroken (resolve (join "https://h" "/u/\x7bid\x7d") oddBindings).value
      [("", .text ""), ("q", .text "a=1?b=2")] := by
    rw [hvalue]
    exact ⟨by decide, by decide, by decide⟩
  refine ⟨hleft, h, ?_⟩
  rw [(appended_query_reads_back hleft h).1, hvalue]
  rfl

end TypedEndpoints.Url
