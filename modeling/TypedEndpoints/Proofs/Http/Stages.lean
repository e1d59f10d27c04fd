import TypedEndpoints.Proofs.Http.Braces
import TypedEndpoints.Proofs.Http.FixedBase
/-! Filling in stages. Where every brace of a template belongs to a placeholder and no value has a brace, the
filled text is scanned to the pieces that filling left: values neither make nor break a placeholder. So a template
may be filled with some parameters now and with the others later, in either order. -/
namespace TypedEndpoints.Template

/-- No text of a value has a brace. -/
def BraceFree (p : Params) : Prop :=
  ∀ b ∈ p, '{' ∉ b.2.display.toList ∧ '}' ∉ b.2.display.toList

/-- The bindings of two maps in one. -/
structure IsUnion (p q u : Params) : Prop where
  distinct : (OrderedMap.keys u).Nodup
  mem : ∀ b, b ∈ u ↔ b ∈ p ∨ b ∈ q

/-- Filling with `p` and then with `q` does what filling with `u` does at once: the same text, the same names
replaced, though in another order, and the same ones left. -/
structure StagesAgree (t : String) (p q u : Params) : Prop where
  value : (resolve (resolve t p).value q).value = (resolve t u).value
  replaced : ((resolve t p).replaced ++ (resolve (resolve t p).value q).replaced).Perm
    (resolve t u).replaced
  once : ((resolve t p).replaced ++ (resolve (resolve t p).value q).replaced).Nodup
  unreplaced : (resolve (resolve t p).value q).unreplaced = (resolve t u).unreplaced

/-! What filling leaves of a piece. -/

/-- The pieces of a value's text, or the placeholder where there is none. -/
def Piece.settle (p : Params) : Piece → List Piece
  | .char c => [.char c]
  | .hole name =>
    match p.get? (String.ofList name) with
    | some v => v.chars.map .char
    | none => [.hole name]

/-- One stage behind the other: the second finds what the first has left. -/
theorem settle_fill {p q u : Params} (hu : ∀ k, u.get? k = (p.get? k).or (q.get? k)) (x : Piece) :
    (x.settle p).flatMap (Piece.fill q) = x.fill u := by
  cases x with
  | char c => rfl
  | hole name =>
      rw [Piece.settle, Piece.fill, hu]
      cases p.get? (String.ofList name) with
      | some v => exact fill_chars q v.chars
      | none => exact List.flatMap_singleton _ _

theorem settle_tidy {p : Params} (hp : BraceFree p) {x : Piece} (hx : x.Tidy) :
    ∀ y ∈ x.settle p, y.Tidy := by
  intro y hy
  cases x with
  | char c =>
      rw [List.mem_singleton.mp hy]
      exact hx
  | hole name =>
      rw [Piece.settle] at hy
      cases hv : p.get? (String.ofList name) with
      | none =>
          rw [hv] at hy
          rw [List.mem_singleton.mp hy]
          exact hx
      | some v =>
          rw [hv] at hy
          obtain ⟨c, hc, rfl⟩ := List.mem_map.mp hy
          obtain ⟨hopen, hclose⟩ := hp _ (OrderedMap.mem_of_get? hv)
          rw [ParamValue.display, String.toList_ofList] at hopen hclose
          exact ⟨fun e => hopen (e ▸ hc), fun e => hclose (e ▸ hc)⟩

@[simp] theorem holeNames_settle (p : Params) (ps : List Piece) :
    holeNames (ps.flatMap (Piece.settle p)) = (holeNames ps).filter fun k => !p.contains k := by
  induction ps with
  | nil => rfl
  | cons x ps ih =>
      rw [List.flatMap_cons]
      cases x with
      | char c => exact ih
      | hole name =>
          have hnames : holeNames (.hole name :: ps) = String.ofList name :: holeNames ps := rfl
          rw [Piece.settle, hnames, List.filter_cons, OrderedMap.contains]
          cases p.get? (String.ofList name) with
          | some v => exact (holeNames_chars v.chars _).trans ih
          | none => exact congrArg _ ih

/-- The second scan finds what the first stage has left. -/
theorem pieces_resolve {t : String} (ht : BracesPaired t.toList) {p : Params} (hp : BraceFree p) :
    pieces (resolve t p).value.toList = (pieces t.toList).flatMap (Piece.settle p) := by
  have htidy : ∀ y ∈ (pieces t.toList).flatMap (Piece.settle p), y.Tidy := by
    intro y hy
    obtain ⟨x, hx, hy⟩ := List.mem_flatMap.mp hy
    exact settle_tidy hp (tidy_pieces ht x hx) y hy
  have hempty : ∀ k, p.get? k = (p.get? k).or (OrderedMap.get? [] k) := fun k => (Option.or_none).symm
  have hvalue : (resolve t p).value.toList =
      ((pieces t.toList).flatMap (Piece.settle p)).flatMap (Piece.fill []) := by
    simp only [List.flatMap_assoc, settle_fill hempty]
    exact String.toList_ofList
  rw [hvalue, pieces_of_tidy htidy]

/-! Two maps and their union. -/

theorem IsUnion.symm {p q u : Params} (h : IsUnion p q u) : IsUnion q p u :=
  ⟨h.distinct, fun b => (h.mem b).trans or_comm⟩

theorem isUnion_append {p q : Params} (hp : (OrderedMap.keys p).Nodup) (hq : (OrderedMap.keys q).Nodup)
    (hdisjoint : (OrderedMap.keys p).Disjoint (OrderedMap.keys q)) : IsUnion p q (p ++ q) := by
  refine ⟨?_, fun b => List.mem_append⟩
  rw [OrderedMap.keys, List.map_append]
  exact hp.append hq hdisjoint

theorem IsUnion.get? {p q u : Params} (hp : (OrderedMap.keys p).Nodup) (hq : (OrderedMap.keys q).Nodup)
    (hdisjoint : (OrderedMap.keys p).Disjoint (OrderedMap.keys q)) (h : IsUnion p q u) (k : String) :
    u.get? k = (p.get? k).or (q.get? k) := by
  have hmem : ∀ {v}, u.get? k = some v ↔ (k, v) ∈ p ∨ (k, v) ∈ q := fun {v} =>
    ⟨fun hv => (h.mem _).mp (OrderedMap.mem_of_get? hv),
      fun hv => OrderedMap.get?_of_mem h.distinct ((h.mem _).mpr hv)⟩
  apply Option.ext
  intro v
  rw [hmem, Option.or_eq_some_iff]
  constructor
  · rintro (hv | hv)
    · exact .inl (OrderedMap.get?_of_mem hp hv)
    · refine .inr ⟨?_, OrderedMap.get?_of_mem hq hv⟩
      have hkey : k ∈ OrderedMap.keys q := List.mem_map_of_mem hv
      rw [← Option.not_isSome_iff_eq_none]
      exact fun hk => hdisjoint (OrderedMap.contains_iff.mp hk) hkey
  · rintro (hv | ⟨-, hv⟩)
    · exact .inl (OrderedMap.mem_of_get? hv)
    · exact .inr (OrderedMap.mem_of_get? hv)

theorem value_eq (t : String) (p : Params) :
    (resolve t p).value = String.ofList ((pieces t.toList).flatMap (Piece.fill p)) := rfl

theorem replaced_eq (t : String) (p : Params) :
    (resolve t p).replaced = (firsts (holeNames (pieces t.toList))).filter p.contains :=
  firsts_filter _ _

theorem unreplaced_eq (t : String) (p : Params) :
    (resolve t p).unreplaced = (firsts (holeNames (pieces t.toList))).filter fun k => !p.contains k :=
  firsts_filter _ _

section
variable {t : String} {p q u : Params} (ht : BracesPaired t.toList) (hp : BraceFree p)
  (hu : ∀ k, u.get? k = (p.get? k).or (q.get? k))
include ht hp

theorem firsts_second : firsts (holeNames (pieces (resolve t p).value.toList)) =
    (firsts (holeNames (pieces t.toList))).filter fun k => !p.contains k := by
  simp [pieces_resolve ht hp]

include hu

theorem value_stages : (resolve (resolve t p).value q).value = (resolve t u).value := by
  rw [value_eq, pieces_resolve ht hp, List.flatMap_assoc, value_eq]
  simp only [settle_fill hu]

theorem replaced_stages :
    ((resolve t p).replaced ++ (resolve (resolve t p).value q).replaced).Perm (resolve t u).replaced := by
  have hcontains : ∀ k, u.contains k = (p.contains k || q.contains k) := by
    intro k
    rw [OrderedMap.contains, hu, Option.isSome_or]
    rfl
  -- the first stage replaces of all the names those of `p`, and the second those that are left
  have hfirst : (resolve t p).replaced = (resolve t u).replaced.filter p.contains := by
    rw [replaced_eq, replaced_eq, List.filter_filter]
    refine List.filter_congr fun k _ => ?_
    rw [hcontains]
    cases p.contains k <;> rfl
  have hsecond : (resolve (resolve t p).value q).replaced =
      (resolve t u).replaced.filter fun k => !p.contains k := by
    rw [replaced_eq, firsts_second ht hp, replaced_eq, List.filter_filter, List.filter_filter]
    refine List.filter_congr fun k _ => ?_
    rw [hcontains]
    cases p.contains k <;> cases q.contains k <;> rfl
  rw [hfirst, hsecond]
  exact List.filter_append_perm _ _

theorem unreplaced_stages :
    (resolve (resolve t p).value q).unreplaced = (resolve t u).unreplaced := by
  rw [unreplaced_eq, firsts_second ht hp, unreplaced_eq, List.filter_filter]
  refine List.filter_congr fun k _ => ?_
  simp only [OrderedMap.contains, hu, Option.isSome_or, Bool.not_or]
  exact Bool.and_comm _ _

end

/-- Parameters may be filled in one part after the other, in either order: the values put in neither make nor break
a placeholder, so the text and the names left over are those of filling with all of them at once, and each name
that is replaced then is replaced in one of the two stages. -/
theorem resolve_in_stages {t : String} (ht : BracesPaired t.toList) {p q u : Params}
    (hp : (OrderedMap.keys p).Nodup) (hq : (OrderedMap.keys q).Nodup)
    (hdisjoint : (OrderedMap.keys p).Disjoint (OrderedMap.keys q)) (hu : IsUnion p q u)
    (hfree : BraceFree p) (hfree' : BraceFree q) : StagesAgree t p q u ∧ StagesAgree t q p u := by
  have honce := (resolve_replaced (Splitting.splits_pieces t.toList) u).nodup
  have hthen := hu.get? hp hq hdisjoint
  have hbefore := hu.symm.get? hq hp hdisjoint.symm
  constructor
  · have hreplaced := replaced_stages ht hfree hthen
    exact ⟨value_stages ht hfree hthen, hreplaced, hreplaced.nodup_iff.mpr honce,
      unreplaced_stages ht hfree hthen⟩
  · have hreplaced := replaced_stages ht hfree' hbefore
    exact ⟨value_stages ht hfree' hbefore, hreplaced, hreplaced.nodup_iff.mpr honce,
      unreplaced_stages ht hfree' hbefore⟩

/-- A name that comes twice, one without a value, and a value that leaves nothing of its placeholder. -/
def pageTemplate : String := "/\x7bp\x7d\x7bid\x7d?\x7bid\x7d\x7bs\x7d"

theorem resolve_in_stages_page :
    BracesPaired pageTemplate.toList ∧
      StagesAgree pageTemplate [("id", .integer 7)] [("p", .text ""), ("x", .bool true)]
        [("id", .integer 7), ("p", .text ""), ("x", .bool true)] ∧
      (resolve pageTemplate [("id", .integer 7), ("p", .text ""), ("x", .bool true)]).value =
        "/7?7\x7bs\x7d" := by
  have ht : BracesPaired pageTemplate.toList := by decide
  have hp : (OrderedMap.keys [("id", ParamValue.integer 7)]).Nodup := by decide
  have hq : (OrderedMap.keys [("p", ParamValue.text ""), ("x", .bool true)]).Nodup := by decide
  have hdisjoint : (OrderedMap.keys [("id", ParamValue.integer 7)]).Disjoint
      (OrderedMap.keys [("p", ParamValue.text ""), ("x", .bool true)]) :=
    List.singleton_disjoint.mpr (by decide)
  have hfree : BraceFree [("id", .integer 7)] := by
    unfold BraceFree
    decide
  have hfree' : BraceFree [("p", .text ""), ("x", .bool true)] := by
    unfold BraceFree
    decide
  exact ⟨ht, (resolve_in_stages ht hp hq hdisjoint (isUnion_append hp hq hdisjoint) hfree hfree').1,
    by decide⟩

end TypedEndpoints.Template
