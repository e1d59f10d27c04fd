import TypedEndpoints.OpenApi.Document
import Mathlib.Data.List.Nodup
/-! Merged parameters. A shared parameter gives way to an own one of the same name and location; nothing
else is dropped, so a name can still come up twice. -/
namespace TypedEndpoints.OpenApi

/-- The shared parameters whose places hold no own one, and then the own ones. -/
def hide (own shared : List Parameter) : List Parameter :=
  shared.filter (fun s => ∀ p ∈ own, ¬ (s.name = p.name ∧ s.location = p.location)) ++ own

@[simp] theorem mem_hide {own shared : List Parameter} {m : Parameter} :
    m ∈ hide own shared ↔ m ∈ own ∨
      m ∈ shared ∧ ∀ p ∈ own, ¬ (m.name = p.name ∧ m.location = p.location) := by
  rw [hide, List.mem_append, List.mem_filter, decide_eq_true_iff]
  exact Or.comm

/-- A shared parameter is kept, or hidden at its name and location. -/
theorem hide_covers {own shared : List Parameter} {t : Parameter} (h : t ∈ shared) :
    ∃ m ∈ hide own shared, m.name = t.name ∧ m.location = t.location := by
  by_cases hidden : ∃ p ∈ own, t.name = p.name ∧ t.location = p.location
  · obtain ⟨p, hp, hname, hlocation⟩ := hidden
    exact ⟨p, mem_hide.mpr (.inl hp), hname.symm, hlocation.symm⟩
  · exact ⟨t, mem_hide.mpr (.inr ⟨h, fun p hp e => hidden ⟨p, hp, e⟩⟩), rfl, rfl⟩

namespace Document
variable {d : Document} {shared : Option (List Parameter)} {o : Operation}

@[simp] theorem samePlace_iff {p q : Parameter} :
    samePlace p q = true ↔ p.name = q.name ∧ p.location = q.location := by
  simp only [samePlace, Bool.and_eq_true, beq_iff_eq]

@[simp] theorem mem_resolveAll {ps : Option (List Parameter)} {t : Parameter} :
    t ∈ d.resolveAll ps ↔ ∃ x ∈ ps.getD [], d.resolve? x = some t := List.mem_filterMap

theorem mergeParameters_eq_hide (d : Document) (shared : Option (List Parameter)) (o : Operation) :
    d.mergeParameters shared o = hide (d.resolveAll o.parameters) (d.resolveAll shared) := by
  rw [mergeParameters, hide]
  refine congrArg (· ++ _) (List.filter_congr fun s _ => ?_)
  rw [Bool.eq_iff_iff, Bool.not_eq_true', List.any_eq_false, decide_eq_true_iff]
  simp

@[simp] theorem mem_merge {t : Parameter} :
    t ∈ d.mergeParameters shared o ↔ t ∈ d.resolveAll o.parameters ∨
      t ∈ d.resolveAll shared ∧ ∀ p ∈ d.resolveAll o.parameters,
        ¬ (t.name = p.name ∧ t.location = p.location) := by
  rw [mergeParameters_eq_hide, mem_hide]

/-- What a shared parameter stands for is kept, or replaced at its name and location. -/
theorem merge_covers_shared {t : Parameter} (h : t ∈ d.resolveAll shared) :
    ∃ m ∈ d.mergeParameters shared o, m.name = t.name ∧ m.location = t.location := by
  rw [mergeParameters_eq_hide]
  exact hide_covers h

/-- Every name is declared at most once: in the own list, among the shared parameters whose name is
not an own one, and across the lists only where the location agrees as well. -/
structure NamesApart (d : Document) (shared : Option (List Parameter)) (o : Operation) : Prop where
  ownNames : ((d.resolveAll o.parameters).map (·.name)).Nodup
  sharedNames : (((d.resolveAll shared).filter fun s =>
    !(d.resolveAll o.parameters).any (s.name == ·.name)).map (·.name)).Nodup
  across : ∀ s ∈ d.resolveAll shared, ∀ p ∈ d.resolveAll o.parameters,
    s.name = p.name → s.location = p.location

/-- If equal names have equal locations, replacing by place is replacing by name. -/
theorem filter_place_eq_filter_name
    (across : ∀ s ∈ d.resolveAll shared, ∀ p ∈ d.resolveAll o.parameters,
      s.name = p.name → s.location = p.location) :
    ((d.resolveAll shared).filter fun s => !(d.resolveAll o.parameters).any (samePlace s)) =
      (d.resolveAll shared).filter fun s => !(d.resolveAll o.parameters).any (s.name == ·.name) := by
  refine List.filter_congr fun s hs => congrArg _ ?_
  rw [Bool.eq_iff_iff, List.any_eq_true, List.any_eq_true]
  constructor
  · rintro ⟨p, hp, h⟩
    exact ⟨p, hp, beq_iff_eq.mpr (samePlace_iff.mp h).1⟩
  · rintro ⟨p, hp, h⟩
    have hname := beq_iff_eq.mp h
    exact ⟨p, hp, samePlace_iff.mpr ⟨hname, across s hs p hp hname⟩⟩

/-- Exactly when the merged parameters have distinct names. -/
theorem nodup_names_merge :
    ((d.mergeParameters shared o).map (·.name)).Nodup ↔ NamesApart d shared o := by
  rw [mergeParameters, List.map_append, List.nodup_append]
  constructor
  · rintro ⟨hshared, hown, hdisjoint⟩
    have across : ∀ s ∈ d.resolveAll shared, ∀ p ∈ d.resolveAll o.parameters,
        s.name = p.name → s.location = p.location := by
      intro s hs p hp hname
      by_cases kept : (d.resolveAll o.parameters).any (samePlace s) = true
      · obtain ⟨p', hp', h⟩ := List.any_eq_true.mp kept
        obtain ⟨hname', hlocation⟩ := samePlace_iff.mp h
        have same : p' = p :=
          List.inj_on_of_nodup_map hown hp' hp (hname'.symm.trans hname)
        exact same ▸ hlocation
      · have hs' : s.name ∈ ((d.resolveAll shared).filter fun s =>
            !(d.resolveAll o.parameters).any (samePlace s)).map (·.name) := by
          refine List.mem_map_of_mem (List.mem_filter.mpr ⟨hs, ?_⟩)
          rw [Bool.eq_false_iff.mpr kept, Bool.not_false]
        exact absurd hname (hdisjoint _ hs' _ (List.mem_map_of_mem hp))
    exact ⟨hown, filter_place_eq_filter_name across ▸ hshared, across⟩
  · intro h
    rw [filter_place_eq_filter_name h.across]
    refine ⟨h.sharedNames, h.ownNames, ?_⟩
    intro a ha b hb e
    obtain ⟨s, hs, rfl⟩ := List.mem_map.mp ha
    obtain ⟨p, hp, rfl⟩ := List.mem_map.mp hb
    have free := (List.mem_filter.mp hs).2
    rw [Bool.not_eq_true', List.any_eq_false] at free
    exact free p hp (beq_iff_eq.mpr e)

end Document
end TypedEndpoints.OpenApi
