import TypedEndpoints.Proofs.Http.Joining
import TypedEndpoints.Proofs.Text.Cut
/-! Templates that carry a query of their own. Bindings that are left over get a question mark of their own, so
they continue a query only if there is nothing to continue. -/
namespace TypedEndpoints.Template

@[simp] theorem pieces_text (t : List Char) : (pieces t).flatMap (Piece.fill []) = t := by
  have hs := Splitting.splits_pieces t
  have hvalue : ∀ k, valueText [] k = none := fun _ => rfl
  calc (pieces t).flatMap (Piece.fill [])
      = (Splitting.ofPieces (pieces t)).fill (valueText []) := (Splitting.ofPieces_fill _ _).symm
    _ = (Splitting.ofPieces (pieces t)).text := Splitting.fill_none hvalue
    _ = t := hs.text

/-- A filled template holds the characters of the template and of the values, and no others. -/
theorem notMem_resolve {c : Char} {t : String} {p : Params} (ht : c ∉ t.toList)
    (hp : ∀ b ∈ p, c ∉ b.2.display.toList) : c ∉ (resolve t p).value.toList := by
  intro hc
  change c ∈ (String.ofList ((pieces t.toList).flatMap (Piece.fill p))).toList at hc
  rw [String.toList_ofList] at hc
  obtain ⟨x, hx, hc⟩ := List.mem_flatMap.mp hc
  have hunfilled : c ∉ x.fill [] := by
    intro hmem
    rw [← pieces_text t.toList] at ht
    exact ht (List.mem_flatMap.mpr ⟨x, hx, hmem⟩)
  cases x with
  | char d => exact hunfilled hc
  | hole name =>
      rw [Piece.fill] at hc
      cases hv : p.get? (String.ofList name) with
      | none =>
          rw [hv] at hc
          exact hunfilled hc
      | some v =>
          rw [hv] at hc
          have hdisplay := hp _ (OrderedMap.mem_of_get? hv)
          rw [ParamValue.display, String.toList_ofList] at hdisplay
          exact hdisplay hc

end TypedEndpoints.Template

namespace TypedEndpoints.Url
open Template

/-- Items of a query behind its question mark; no items, no question mark. -/
def queryText (items : List String) : String :=
  if items = [] then "" else "?" ++ "&".intercalate items

@[simp] theorem queryText_nil : queryText [] = "" := rfl

theorem queryText_of_ne_nil {items : List String} (h : items ≠ []) :
    queryText items = "?" ++ "&".intercalate items :=
  if_neg h

/-- A template: its path, and the items of its own query. -/
structure OwnQuery (template path : String) (own : List String) : Prop where
  text : template = path ++ queryText own
  path : '?' ∉ path.toList
  items : ∀ i ∈ own, '?' ∉ i.toList ∧ '&' ∉ i.toList

def filledItems (own : List String) (p : Params) : List String := own.map fun i => (resolve i p).value

/-- The items make up the only query of an address. -/
structure OneQuery (url before : String) (items : List String) : Prop where
  text : url = before ++ queryText items
  marks : url.toList.count '?' ≤ 1

theorem exists_ownQuery {template : String} (h : template.toList.count '?' ≤ 1) :
    ∃ path own, OwnQuery template path own := by
  by_cases hmark : '?' ∈ template.toList
  · obtain ⟨a, b, hcut, ha⟩ := List.eq_append_cons_of_mem hmark
    have hb : '?' ∉ b := by
      intro hb
      have hpos := List.count_pos_iff.mpr hb
      rw [hcut, List.count_append, List.count_cons_self] at h
      omega
    obtain ⟨own, hne, htext, hitems⟩ := Text.exists_items '&' (String.ofList b)
    have htemplate : template = String.ofList a ++ ("?" ++ String.ofList b) :=
      calc template = String.ofList template.toList := String.ofList_toList.symm
        _ = String.ofList (a ++ ('?' :: b)) := congrArg String.ofList hcut
        _ = String.ofList a ++ String.ofList (['?'] ++ b) := String.ofList_append
        _ = String.ofList a ++ ("?" ++ String.ofList b) := congrArg (_ ++ ·) String.ofList_append
    refine ⟨String.ofList a, own, ?_, ?_, ?_⟩
    · rw [queryText_of_ne_nil hne, htemplate, htext]
      rfl
    · rw [String.toList_ofList]
      exact ha
    · intro i hi
      obtain ⟨hsep, hsub⟩ := hitems i hi
      rw [String.toList_ofList] at hsub
      exact ⟨fun hmem => hb (hsub _ hmem), hsep⟩
  · exact ⟨template, [], String.append_empty.symm, hmark, fun i hi => absurd hi List.not_mem_nil⟩

theorem count_queryText {items : List String} (h : ∀ i ∈ items, '?' ∉ i.toList) :
    (queryText items).toList.count '?' = if items = [] then 0 else 1 := by
  unfold queryText
  split
  · rfl
  · have hitems : '?' ∉ ("&".intercalate items).toList := by
      rw [String.toList_intercalate]
      intro hmem
      obtain ⟨q, hq, hmem⟩ := (Text.mem_intercalate (by decide)).mp hmem
      obtain ⟨i, hi, rfl⟩ := List.mem_map.mp hq
      exact h i hi hmem
    rw [String.toList_append, List.count_append, List.count_eq_zero.mpr hitems]
    rfl

theorem resolve_items (items : List String) (p : Params) :
    (resolve ("&".intercalate items) p).value = "&".intercalate (filledItems items p) := by
  have hsep : Separator '&' := by decide
  induction items with
  | nil => rfl
  | cons i items ih =>
      cases items with
      | nil => simp only [filledItems, String.intercalate_singleton, List.map_cons, List.map_nil]
      | cons j items =>
          simp only [filledItems, List.map_cons] at ih ⊢
          rw [String.intercalate_cons_cons, String.intercalate_cons_cons, ← ih]
          exact resolve_cut hsep i _ p

theorem resolve_queryText (path : String) (own : List String) (p : Params) :
    (resolve (path ++ queryText own) p).value =
      (resolve path p).value ++ queryText (filledItems own p) := by
  have hsep : Separator '?' := by decide
  by_cases hown : own = []
  · subst hown
    rw [queryText_nil, String.append_empty]
    exact String.append_empty.symm
  · have hfilled : filledItems own p ≠ [] := by simpa [filledItems] using hown
    rw [queryText_of_ne_nil hown, queryText_of_ne_nil hfilled, ← resolve_items, ← String.append_assoc,
      ← String.append_assoc]
    exact resolve_cut hsep path _ p

theorem prefix_before {start a b : List Char} {c : Char} (hc : c ∉ start) :
    start <+: a ++ c :: b ↔ start <+: a := by
  refine ⟨?_, fun h => h.trans (List.prefix_append a _)⟩
  induction start generalizing a with
  | nil => exact fun _ => List.nil_prefix
  | cons x start ih =>
      intro h
      obtain ⟨hx, hstart⟩ := not_or.mp (mt List.mem_cons.mpr hc)
      cases a with
      | nil => exact absurd (List.cons_prefix_cons.mp h).1.symm hx
      | cons y a =>
          obtain ⟨rfl, hrest⟩ := List.cons_prefix_cons.mp h
          exact List.cons_prefix_cons.mpr ⟨rfl, ih hstart hrest⟩

/-- A query behind a path does not change where the path goes. -/
theorem join_query (base path : String) (own : List String) :
    join base (path ++ queryText own) = join base path ++ queryText own := by
  by_cases hown : own = []
  · subst hown
    rw [queryText_nil, String.append_empty, String.append_empty]
  · -- neither a scheme nor a slash holds a question mark, so the path alone decides where it goes
    have hstarts : ∀ start : String, '?' ∉ start.toList →
        Text.startsWith start (path ++ queryText own) = Text.startsWith start path := by
      intro start hstart
      rw [Bool.eq_iff_iff, startsWith_iff, startsWith_iff, queryText_of_ne_nil hown, String.toList_append,
        String.toList_append]
      exact prefix_before hstart
    rw [join, join, hstarts "http" (by decide), hstarts "/" (by decide)]
    split
    · rfl
    · split
      · rw [String.append_assoc]
      · simp only [String.append_assoc]

theorem isQuery_eq {left : Params} {tail : String} (h : IsQuery left tail) :
    tail = queryText (left.map item) := by
  by_cases hleft : left = []
  · rw [h.1 hleft, hleft]
    rfl
  · have hitems : left.map item ≠ [] := by simpa using hleft
    rw [h.2 hleft, queryText_of_ne_nil hitems]

theorem Joined.no_mark {base path start : String} (h : Joined base path start) (hbase : '?' ∉ base.toList)
    (hpath : '?' ∉ path.toList) : '?' ∉ start.toList := by
  cases h with
  | absolute http => exact hpath
  | path http slash => simp [hbase, hpath]
  | bare http slash => simp [hbase, hpath]

theorem item_no_mark {b : String × ParamValue} (hkey : '?' ∉ b.1.toList)
    (hvalue : '?' ∉ b.2.display.toList) : '?' ∉ (item b).toList := by
  simp [item, hkey, hvalue]

theorem count_marks {start : String} {own : List String} {p left : Params} (hstart : '?' ∉ start.toList)
    (hown : ∀ i ∈ own, '?' ∉ i.toList) (hleft : left.Sublist p)
    (hmarks : ∀ b ∈ p, '?' ∉ b.1.toList ∧ '?' ∉ b.2.display.toList) :
    ((resolve start p).value ++ queryText (filledItems own p) ++ queryText (left.map item)).toList.count '?' =
      (if own = [] then 0 else 1) + if left = [] then 0 else 1 := by
  have hvalues : ∀ b ∈ p, '?' ∉ b.2.display.toList := fun b hb => (hmarks b hb).2
  have hfilled : ∀ i ∈ filledItems own p, '?' ∉ i.toList := by
    intro i hi
    obtain ⟨j, hj, rfl⟩ := List.mem_map.mp hi
    exact notMem_resolve (hown j hj) hvalues
  have hitems : ∀ i ∈ left.map item, '?' ∉ i.toList := by
    intro i hi
    obtain ⟨b, hb, rfl⟩ := List.mem_map.mp hi
    obtain ⟨hkey, hvalue⟩ := hmarks b (hleft.subset hb)
    exact item_no_mark hkey hvalue
  rw [String.toList_append, String.toList_append, List.count_append, List.count_append,
    List.count_eq_zero.mpr (notMem_resolve hstart hvalues), count_queryText hfilled, count_queryText hitems,
    Nat.zero_add]
  simp only [filledItems, List.map_eq_nil_iff]

/-- What is left over stands in a query of its own behind the template's. The two are one query, with the
template's items first, exactly when one of them has no items. -/
theorem leftover_continues_query {base template : String} (hbase : '?' ∉ base.toList)
    (htemplate : template.toList.count '?' ≤ 1) {p : Params} (hp : (OrderedMap.keys p).Nodup)
    (hmarks : ∀ b ∈ p, '?' ∉ b.1.toList ∧ '?' ∉ b.2.display.toList) :
    ∃ path own start left, OwnQuery template path own ∧ Joined base path start ∧
      Joined base template (start ++ queryText own) ∧
      UsedOnce (start ++ queryText own) (valueText p) p left ∧
      build base template (some p) = (resolve start p).value ++ queryText (filledItems own p) ++
        queryText (left.map item) ∧
      (OneQuery (build base template (some p)) (resolve start p).value
        (filledItems own p ++ left.map item) ↔ own = [] ∨ left = []) := by
  obtain ⟨path, own, hown⟩ := exists_ownQuery htemplate
  have hjoin : join base template = join base path ++ queryText own := by rw [hown.text, join_query]
  have hstart := joined_join base path
  have hjoined := joined_join base template
  have hs := Splitting.splits_pieces (join base template).toList
  have hused := usedOnce_filter hs hp
  have hbuild := build_some hs p
  rw [← resolve_value hs, isQuery_eq (isQuery_query _), hjoin, resolve_queryText] at hbuild
  rw [hjoin] at hjoined hused
  generalize join base path = start at hstart hjoined hused hbuild
  generalize p.filter _ = left at hused hbuild
  refine ⟨path, own, start, left, hown, hstart, hjoined, hused, hbuild, ?_⟩
  have hmark := hstart.no_mark hbase hown.path
  have hcount := count_marks hmark (fun i hi => (hown.items i hi).1) hused.order hmarks
  rw [← hbuild] at hcount
  constructor
  · -- items on both sides bring a question mark each
    rintro ⟨-, hone⟩
    by_contra hboth
    obtain ⟨hne, hleft⟩ := not_or.mp hboth
    rw [hcount, if_neg hne, if_neg hleft] at hone
    omega
  · intro hnone
    refine ⟨?_, ?_⟩
    · rcases hnone with rfl | rfl
      · simp [hbuild, filledItems]
      · simp [hbuild]
    · rw [hcount]
      rcases hnone with rfl | rfl
      · rw [if_pos rfl]
        split <;> decide
      · rw [if_pos rfl]
        split <;> decide

/-- A search whose own query has a placeholder. -/
def searchTemplate : String := "/search?lang=\x7blang\x7d&sort=asc"

def inEnglish : Params := [("lang", .text "en")]

theorem leftover_continues_query_search :
    '?' ∉ "https://h".toList ∧ searchTemplate.toList.count '?' ≤ 1 ∧ (OrderedMap.keys inEnglish).Nodup ∧
      (∀ b ∈ inEnglish, '?' ∉ b.1.toList ∧ '?' ∉ b.2.display.toList) ∧
      ∃ path own start left, OwnQuery searchTemplate path own ∧ Joined "https://h" path start ∧
        UsedOnce (start ++ queryText own) (valueText inEnglish) inEnglish left ∧
        (OneQuery (build "https://h" searchTemplate (some inEnglish)) (resolve start inEnglish).value
          (filledItems own inEnglish ++ left.map item) ↔ own = [] ∨ left = []) := by
  have hbase : '?' ∉ "https://h".toList := by decide
  have htemplate : searchTemplate.toList.count '?' ≤ 1 := by decide
  have hkeys : (OrderedMap.keys inEnglish).Nodup := by decide
  have hmarks : ∀ b ∈ inEnglish, '?' ∉ b.1.toList ∧ '?' ∉ b.2.display.toList := by decide
  obtain ⟨path, own, start, left, hown, hstart, -, hused, -, hone⟩ :=
    leftover_continues_query hbase htemplate hkeys hmarks
  exact ⟨hbase, htemplate, hkeys, hmarks, path, own, start, left, hown, hstart, hused, hone⟩

/-- A page behind a search in one language: `page` ends up in the value of `lang`. -/
theorem second_question_mark : ¬ ∀ (base template : String) (p : Params), '?' ∉ base.toList →
    template.toList.count '?' ≤ 1 → (OrderedMap.keys p).Nodup →
    (∀ b ∈ p, '?' ∉ b.1.toList ∧ '?' ∉ b.2.display.toList) →
    (build base template (some p)).toList.count '?' ≤ 1 := by
  intro all
  have hone := all "https://h" "/search?lang=en" [("page", .integer 2)] (by decide) (by decide) (by decide)
    (by decide)
  exact absurd hone (by decide)

end TypedEndpoints.Url
