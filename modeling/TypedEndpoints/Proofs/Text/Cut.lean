import TypedEndpoints.Text.Cut
/-! Texts cut at every separator or after the last one: the parts hold no separator, and joined with it they
are the text. -/
namespace TypedEndpoints.Text

theorem pieces_eq_splitOn (sep : Char) (cs : List Char) : pieces sep cs = cs.splitOn sep := by
  induction cs with
  | nil => rfl
  | cons c cs ih =>
      rw [pieces, ih, List.splitOn_cons_eq_if_modifyHead]
      by_cases hc : c = sep
      · simp [hc]
      · have hne : (c == sep) = false := beq_false_of_ne hc
        simp only [hc, hne, if_false, Bool.false_eq_true]
        cases h : cs.splitOn sep with
        | nil => exact absurd h (List.splitOn_ne_nil _ _)
        | cons p ps => rfl

theorem pieces_ne_nil (sep : Char) (cs : List Char) : pieces sep cs ≠ [] := by
  rw [pieces_eq_splitOn]
  exact List.splitOn_ne_nil _ _

@[simp] theorem intercalate_pieces (sep : Char) (cs : List Char) : [sep].intercalate (pieces sep cs) = cs := by
  rw [pieces_eq_splitOn]
  exact List.intercalate_splitOn sep

theorem notMem_of_mem_pieces {sep : Char} {cs p : List Char} (h : p ∈ pieces sep cs) : sep ∉ p := by
  induction cs generalizing p with
  | nil =>
      rw [List.mem_singleton.mp h]
      exact List.not_mem_nil
  | cons c cs ih =>
      rw [pieces] at h
      split at h
      · rcases List.mem_cons.mp h with rfl | h
        · exact List.not_mem_nil
        · exact ih h
      · next hc =>
        split at h
        · next hnil => exact absurd hnil (pieces_ne_nil sep cs)
        · next q qs hpieces =>
          rcases List.mem_cons.mp h with rfl | h
          · have hq : sep ∉ q := ih (hpieces ▸ List.mem_cons_self)
            exact List.not_mem_cons_of_ne_of_not_mem (fun e => hc e.symm) hq
          · exact ih (hpieces ▸ List.mem_cons_of_mem q h)

/-- Parts without separators come back when what they are joined to is cut. -/
theorem pieces_intercalate {sep : Char} {parts : List (List Char)} (hne : parts ≠ [])
    (h : ∀ p ∈ parts, sep ∉ p) : pieces sep ([sep].intercalate parts) = parts := by
  rw [pieces_eq_splitOn]
  exact List.splitOn_intercalate sep h hne

theorem cutFirst_of_notMem {sep : Char} {cs : List Char} (h : sep ∉ cs) : cutFirst sep cs = none := by
  induction cs with
  | nil => rfl
  | cons c cs ih =>
      obtain ⟨hc, hcs⟩ := not_or.mp (mt List.mem_cons.mpr h)
      rw [cutFirst, if_neg (Ne.symm hc), ih hcs, Option.map_none]

/-- The first separator is the one with none before it. -/
theorem cutFirst_append {sep : Char} {a : List Char} (h : sep ∉ a) (b : List Char) :
    cutFirst sep (a ++ sep :: b) = some (a, b) := by
  induction a with
  | nil => rw [List.nil_append, cutFirst, if_pos rfl]
  | cons c a ih =>
      obtain ⟨hc, ha⟩ := not_or.mp (mt List.mem_cons.mpr h)
      rw [List.cons_append, cutFirst, if_neg (Ne.symm hc), ih ha, Option.map_some]

theorem mem_intercalate {c sep : Char} (h : c ≠ sep) {parts : List (List Char)} :
    c ∈ [sep].intercalate parts ↔ ∃ p ∈ parts, c ∈ p := by
  induction parts with
  | nil => simp
  | cons p ps ih =>
      cases ps with
      | nil => simp
      | cons q ps =>
          rw [List.intercalate_cons_cons, List.mem_append, List.mem_append, ih]
          simp [h]

/-- Every text is the items between its separators. -/
theorem exists_items (sep : Char) (t : String) : ∃ items : List String, items ≠ [] ∧
    t = (String.singleton sep).intercalate items ∧
    ∀ i ∈ items, sep ∉ i.toList ∧ ∀ c ∈ i.toList, c ∈ t.toList := by
  let parts := pieces sep t.toList
  have htext : [sep].intercalate parts = t.toList := intercalate_pieces sep t.toList
  have hlists : (parts.map String.ofList).map String.toList = parts := by
    rw [List.map_map]
    exact List.map_id'' (fun _ => String.toList_ofList) _
  refine ⟨parts.map String.ofList, by simpa using pieces_ne_nil sep t.toList, ?_, ?_⟩
  · apply String.toList_injective
    rw [String.toList_intercalate, hlists, String.toList_singleton, htext]
  · intro i hi
    obtain ⟨p, hp, rfl⟩ := List.mem_map.mp hi
    rw [String.toList_ofList]
    have hsep : sep ∉ p := notMem_of_mem_pieces hp
    refine ⟨hsep, fun c hc => ?_⟩
    have hne : c ≠ sep := fun e => hsep (e ▸ hc)
    rw [← htext]
    exact (mem_intercalate hne).mpr ⟨p, hp, hc⟩

theorem notMem_beforeFirst (sep : Char) (cs : List Char) : sep ∉ beforeFirst sep cs := by
  intro h
  have hall := List.all_takeWhile (p := (· != sep)) (l := cs)
  have hne : (sep != sep) = true := List.all_eq_true.mp hall sep h
  rw [bne_self_eq_false] at hne
  cases hne

/-- What stands before the first separator ends at one or at the end of the text. -/
theorem exists_behind (sep : Char) (cs : List Char) : ∃ rest, cs = beforeFirst sep cs ++ rest ∧
    (rest = [] ∨ ∃ after, rest = sep :: after) := by
  refine ⟨cs.dropWhile (· != sep), List.takeWhile_append_dropWhile.symm, ?_⟩
  cases h : cs.dropWhile (· != sep) with
  | nil => exact .inl rfl
  | cons c after =>
      have hnot := List.head?_dropWhile_not (· != sep) cs
      rw [h] at hnot
      exact .inr ⟨after, by rw [bne_eq_false_iff_eq.mp hnot]⟩

theorem beforeFirst_append {sep : Char} {a rest : List Char} (h : sep ∉ a)
    (hrest : rest = [] ∨ ∃ after, rest = sep :: after) : beforeFirst sep (a ++ rest) = a := by
  have hall : ∀ c ∈ a, (c != sep) = true := fun c hc => bne_iff_ne.mpr fun e => h (e ▸ hc)
  rw [beforeFirst, List.takeWhile_append_of_pos hall]
  rcases hrest with rfl | ⟨after, rfl⟩
  · exact List.append_nil a
  · rw [List.takeWhile_cons_of_neg (by simp), List.append_nil]

theorem afterLast_append {sep : Char} {segment : List Char} (h : sep ∉ segment) (before : List Char) :
    afterLast sep (before ++ segment) = afterLast sep before ++ segment := by
  have hall : ∀ c ∈ segment.reverse, (c != sep) = true := by
    intro c hc
    exact bne_iff_ne.mpr fun e => h (e ▸ List.mem_reverse.mp hc)
  rw [afterLast, List.reverse_append, List.takeWhile_append_of_pos hall, List.reverse_append,
    List.reverse_reverse, afterLast]

theorem afterLast_cut {sep : Char} {segment : List Char} (h : sep ∉ segment) (before : List Char) :
    afterLast sep (before ++ sep :: segment) = segment := by
  rw [List.append_cons, afterLast_append h, afterLast, List.reverse_concat]
  simp

theorem afterLast_of_notMem {sep : Char} {cs : List Char} (h : sep ∉ cs) : afterLast sep cs = cs :=
  afterLast_append h []

theorem afterLast_eq_iff {sep : Char} {cs segment : List Char} :
    afterLast sep cs = segment ↔ sep ∉ segment ∧ (cs = segment ∨ ∃ before, cs = before ++ sep :: segment) := by
  constructor
  · rintro rfl
    by_cases hcs : sep ∈ cs
    · obtain ⟨last, before, hcut, hlast⟩ := List.eq_append_cons_of_mem (List.mem_reverse.mpr hcs)
      have hback : cs = before.reverse ++ sep :: last.reverse := by
        rw [← List.reverse_reverse cs, hcut]
        simp
      have hfree : sep ∉ last.reverse := fun h => hlast (List.mem_reverse.mp h)
      rw [hback, afterLast_cut hfree]
      exact ⟨hfree, .inr ⟨_, rfl⟩⟩
    · rw [afterLast_of_notMem hcs]
      exact ⟨hcs, .inl rfl⟩
  · rintro ⟨h, rfl | ⟨before, rfl⟩⟩
    · exact afterLast_of_notMem h
    · exact afterLast_cut h before

end TypedEndpoints.Text
