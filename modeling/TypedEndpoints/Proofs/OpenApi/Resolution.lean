import TypedEndpoints.Proofs.OpenApi.Parameters
import TypedEndpoints.Proofs.Text.Cut
/-! What parameters stand for, and what becomes of two lists of them. A reference is followed once, by its
last segment, and what it leads to must neither be a reference nor lack a name; everything else vanishes.
Then at each place the own parameters hide the shared ones. -/
namespace TypedEndpoints.OpenApi

/-- What follows the last slash, or all of a text without one. -/
def LastSegment (text segment : String) : Prop :=
  '/' ∉ segment.toList ∧ (text = segment ∨ ∃ before, text = before ++ "/" ++ segment)

theorem refName_eq_iff {ref name : String} : refName ref = name ↔ LastSegment ref name := by
  rw [refName, LastSegment, ← String.toList_inj, String.toList_ofList, Text.afterLast_eq_iff,
    String.toList_inj]
  refine and_congr_right fun _ => or_congr_right ⟨?_, ?_⟩
  · rintro ⟨before, h⟩
    refine ⟨String.ofList before, String.toList_inj.mp ?_⟩
    simpa using h
  · rintro ⟨before, rfl⟩
    exact ⟨before.toList, by simp⟩

/-- A parameter with a name stands for itself, and a reference for the component it names. -/
inductive StandsFor (d : Document) : Parameter → Parameter → Prop
  | itself {p : Parameter} (href : p.ref = none) (hname : p.name ≠ "") : StandsFor d p p
  | component {p t : Parameter} {ref key : String} (href : p.ref = some ref) (hkey : LastSegment ref key)
      (ht : d.parameters.get? key = some t) (hend : t.ref = none) (hname : t.name ≠ "") : StandsFor d p t

variable {d : Document}

@[simp] theorem resolve?_eq_some_iff {p t : Parameter} : d.resolve? p = some t ↔ StandsFor d p t := by
  constructor
  · intro h
    obtain ⟨htarget, hname⟩ := Option.filter_eq_some_iff.mp h
    rw [bne_iff_ne] at hname
    split at htarget
    · next href =>
      cases htarget
      exact .itself href hname
    · next ref href =>
      obtain ⟨ht, hend⟩ := Option.filter_eq_some_iff.mp htarget
      exact .component href (refName_eq_iff.mp rfl) ht (Option.isNone_iff_eq_none.mp hend) hname
  · intro h
    cases h with
    | itself href hname => simp [Document.resolve?, href, hname]
    | component href hkey ht hend hname =>
        simp [Document.resolve?, href, refName_eq_iff.mpr hkey, ht, hend, hname]

@[simp] theorem resolve?_eq_none_iff {p : Parameter} : d.resolve? p = none ↔ ∀ t, ¬ StandsFor d p t := by
  simp [Option.eq_none_iff_forall_ne_some]

/-- The parameters of a list, each replaced by what it stands for; those that stand for nothing vanish. -/
inductive Resolves (d : Document) : List Parameter → List Parameter → Prop
  | nil : Resolves d [] []
  | kept {p t : Parameter} {ps ts : List Parameter} (h : StandsFor d p t) (hs : Resolves d ps ts) :
      Resolves d (p :: ps) (t :: ts)
  | dropped {p : Parameter} {ps ts : List Parameter} (h : ∀ t, ¬ StandsFor d p t)
      (hs : Resolves d ps ts) : Resolves d (p :: ps) ts

theorem Resolves.eq_filterMap {ps ts : List Parameter} (h : Resolves d ps ts) :
    ps.filterMap d.resolve? = ts := by
  induction h with
  | nil => rfl
  | kept h _ ih => rw [List.filterMap_cons_some (resolve?_eq_some_iff.mpr h), ih]
  | dropped h _ ih => rw [List.filterMap_cons_none (resolve?_eq_none_iff.mpr h), ih]

theorem resolves_filterMap (d : Document) (ps : List Parameter) :
    Resolves d ps (ps.filterMap d.resolve?) := by
  induction ps with
  | nil => exact .nil
  | cons p ps ih =>
      cases h : d.resolve? p with
      | none =>
          rw [List.filterMap_cons_none h]
          exact .dropped (resolve?_eq_none_iff.mp h) ih
      | some t =>
          rw [List.filterMap_cons_some h]
          exact .kept (resolve?_eq_some_iff.mp h) ih

theorem resolves_iff {ps ts : List Parameter} : Resolves d ps ts ↔ ps.filterMap d.resolve? = ts :=
  ⟨Resolves.eq_filterMap, fun h => h ▸ resolves_filterMap d ps⟩

theorem StandsFor.final {p t : Parameter} (h : StandsFor d p t) : t.ref = none ∧ t.name ≠ "" := by
  cases h with
  | itself href hname => exact ⟨href, hname⟩
  | component _ _ _ hend hname => exact ⟨hend, hname⟩

theorem Resolves.final {ps ts : List Parameter} (h : Resolves d ps ts) {t : Parameter} (ht : t ∈ ts) :
    t.ref = none ∧ t.name ≠ "" := by
  induction h with
  | nil => cases ht
  | kept h _ ih =>
      rcases List.mem_cons.mp ht with rfl | ht
      · exact h.final
      · exact ih ht
  | dropped _ _ ih => exact ih ht

theorem merge_final {shared : Option (List Parameter)} {o : Operation} {m : Parameter}
    (hm : m ∈ d.mergeParameters shared o) : m.ref = none ∧ m.name ≠ "" := by
  rcases Document.mem_merge.mp hm with hown | ⟨hshared, -⟩
  · exact (resolves_iff.mpr rfl).final hown
  · exact (resolves_iff.mpr rfl).final hshared

/-- The parameters of an operation: what its own stand for and, at the places that leaves, what those of
its path stand for. -/
def Operation.Carries (d : Document) (shared : Option (List Parameter)) (o : Operation)
    (ts : List Parameter) : Prop :=
  ∃ inherited own, Resolves d (shared.getD []) inherited ∧ Resolves d (o.parameters.getD []) own ∧
    ts = hide own inherited

theorem carries_iff {shared : Option (List Parameter)} {o : Operation} {ts : List Parameter} :
    o.Carries d shared ts ↔ d.mergeParameters shared o = ts := by
  rw [Document.mergeParameters_eq_hide]
  constructor
  · rintro ⟨inherited, own, hinherited, hown, rfl⟩
    rw [← hinherited.eq_filterMap, ← hown.eq_filterMap]
    rfl
  · rintro rfl
    exact ⟨_, _, resolves_filterMap d _, resolves_filterMap d _, rfl⟩

def atPlace (name location : String) (ps : List Parameter) : List Parameter :=
  ps.filter fun p => p.name = name ∧ p.location = location

/-- At every place stand the own parameters, and the shared ones only where there is no own one. -/
theorem atPlace_hide (own shared : List Parameter) (name location : String) :
    atPlace name location (hide own shared) =
      if atPlace name location own = [] then atPlace name location shared
      else atPlace name location own := by
  unfold atPlace hide
  rw [List.filter_append, List.filter_filter]
  split
  · next hnone =>
    rw [hnone, List.append_nil]
    refine List.filter_congr fun s _ => ?_
    have hfree := List.filter_eq_nil_iff.mp hnone
    rw [Bool.eq_iff_iff, Bool.and_eq_true, decide_eq_true_iff, decide_eq_true_iff, and_iff_left_iff_imp]
    rintro ⟨rfl, rfl⟩ p hp ⟨hname, hlocation⟩
    exact hfree p hp (decide_eq_true ⟨hname.symm, hlocation.symm⟩)
  · next hsome =>
    -- the own parameter that stands here has kept every shared one of this place away
    refine List.append_left_eq_self.mpr (List.filter_eq_nil_iff.mpr ?_)
    intro s _ hs
    obtain ⟨hplace, hfree⟩ := Bool.and_eq_true_iff.mp hs
    obtain ⟨hname, hlocation⟩ := of_decide_eq_true hplace
    refine hsome (List.filter_eq_nil_iff.mpr fun p hp hp' => ?_)
    obtain ⟨hname', hlocation'⟩ := of_decide_eq_true hp'
    exact of_decide_eq_true hfree p hp ⟨hname.trans hname'.symm, hlocation.trans hlocation'.symm⟩

/-- Two lists become one: nothing is lost but what is hidden, and nothing changes its order. -/
structure Merges (shared own merged : List Parameter) : Prop where
  order : merged = hide own shared
  covers : ∀ t, t ∈ shared ∨ t ∈ own → ∃ m ∈ merged, m.name = t.name ∧ m.location = t.location
  place : ∀ name location, atPlace name location merged =
    if atPlace name location own = [] then atPlace name location shared else atPlace name location own

theorem merges_hide (shared own : List Parameter) : Merges shared own (hide own shared) := by
  refine ⟨rfl, ?_, atPlace_hide own shared⟩
  rintro t (ht | ht)
  · exact hide_covers ht
  · exact ⟨t, mem_hide.mpr (.inl ht), rfl, rfl⟩

end TypedEndpoints.OpenApi
