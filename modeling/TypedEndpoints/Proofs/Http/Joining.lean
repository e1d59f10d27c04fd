import TypedEndpoints.Proofs.Http.Conservation
/-! Templates in parts. A character that stands in no placeholder cuts a template in two, and the parts are
filled apart; so are a base and the path behind it. -/
namespace TypedEndpoints.Template

/-- A character that stands in no placeholder. -/
def Separator (c : Char) : Prop := ¬ InName c ∧ c ≠ '{' ∧ c ≠ '}'

instance (c : Char) : Decidable (InName c) := inferInstanceAs (Decidable (_ ∨ _ ∨ _ ∨ _))

instance (c : Char) : Decidable (Separator c) := inferInstanceAs (Decidable (_ ∧ _ ∧ _))

/-- A character that no placeholder can hold cuts a template in two. -/
theorem piecesFrom_append {c : Char} (hname : ¬ InName c) (hclose : c ≠ '}')
    (pending : Option (List Char)) (before after : List Char) :
    piecesFrom pending (before ++ c :: after) = piecesFrom pending before ++ pieces (c :: after) := by
  have hnot : ¬ isNameChar c = true := fun h => hname (isNameChar_iff.mp h)
  induction before generalizing pending with
  | nil =>
      cases pending with
      | none => rfl
      | some name =>
          have hend : piecesFrom (some name) [] = ('{' :: name).map .char := rfl
          rw [List.nil_append, hend, piecesFrom, if_neg (fun h => hclose h.1), if_neg hnot]
          split
          · next hopen =>
            subst hopen
            rfl
          · next hopen => rw [pieces, piecesFrom, if_neg hopen]
  | cons x before ih =>
      cases pending with
      | none =>
          simp only [List.cons_append, piecesFrom]
          split
          · exact ih _
          · rw [ih, List.cons_append]
      | some name =>
          simp only [List.cons_append, piecesFrom]
          split
          · rw [ih, List.cons_append]
          · split
            · exact ih _
            · split
              · rw [ih, List.append_assoc]
              · rw [ih, List.append_assoc, List.cons_append]

theorem pieces_append {c : Char} (hname : ¬ InName c) (hclose : c ≠ '}') (before after : List Char) :
    pieces (before ++ c :: after) = pieces before ++ pieces (c :: after) :=
  piecesFrom_append hname hclose none before after

theorem pieces_cut {c : Char} (hc : Separator c) (before after : List Char) :
    pieces (before ++ c :: after) = pieces before ++ .char c :: pieces after := by
  obtain ⟨hname, hopen, hclose⟩ := hc
  have hhead : pieces (c :: after) = .char c :: pieces after := by
    rw [pieces, piecesFrom, if_neg hopen, pieces]
  rw [pieces_append hname hclose, hhead]

theorem resolve_cut {c : Char} (hc : Separator c) (before after : String) (params : Params) :
    (resolve (before ++ String.singleton c ++ after) params).value =
      (resolve before params).value ++ String.singleton c ++ (resolve after params).value := by
  have hcut : pieces (before ++ String.singleton c ++ after).toList =
      pieces before.toList ++ .char c :: pieces after.toList := by
    rw [String.toList_append, String.toList_append, String.toList_singleton, List.append_assoc]
    exact pieces_cut hc _ _
  have hsingle : String.ofList [c] = String.singleton c := rfl
  simp only [resolve, hcut, List.flatMap_append, List.flatMap_cons, Piece.fill, String.ofList_append]
  rw [hsingle, String.append_assoc]

theorem resolve_slash (base path : String) (params : Params) :
    (resolve (base ++ "/" ++ path) params).value =
      (resolve (base ++ "/") params).value ++ (resolve path params).value := by
  have hslash : Separator '/' := by decide
  have hbase : (resolve (base ++ "/" ++ "") params).value = (resolve base params).value ++ "/" ++ "" :=
    resolve_cut hslash base "" params
  rw [String.append_empty, String.append_empty] at hbase
  rw [hbase]
  exact resolve_cut hslash base path params

theorem exists_behind_slash {path : String} (h : "/".toList <+: path.toList) :
    ∃ rest, path = "/" ++ rest := by
  obtain ⟨rest, hrest⟩ := h
  refine ⟨String.ofList rest, ?_⟩
  calc path = String.ofList path.toList := String.ofList_toList.symm
    _ = String.ofList ("/".toList ++ rest) := congrArg String.ofList hrest.symm
    _ = "/" ++ String.ofList rest := String.ofList_append

theorem resolve_path {base path : String} (h : "/".toList <+: path.toList) (params : Params) :
    (resolve (base ++ path) params).value =
      (resolve base params).value ++ (resolve path params).value := by
  have hslash : Separator '/' := by decide
  obtain ⟨rest, rfl⟩ := exists_behind_slash h
  have hpath : (resolve ("" ++ "/" ++ rest) params).value = "" ++ "/" ++ (resolve rest params).value :=
    resolve_cut hslash "" rest params
  rw [String.empty_append] at hpath
  rw [hpath, ← String.append_assoc, ← String.append_assoc]
  exact resolve_cut hslash base rest params

/-- A text without placeholders is only characters. -/
theorem pieces_plain {cs : List Char} (h : ∀ place key, ¬ PlaceholderAt cs place key) :
    pieces cs = cs.map .char := by
  induction cs with
  | nil => rfl
  | cons c cs ih =>
      have hrest : ∀ place key, ¬ PlaceholderAt cs place key :=
        fun place key hat => h (place + 1) key (placeholderAt_succ.mpr hat)
      rw [pieces_char (h 0), ih hrest, List.map_cons]

end TypedEndpoints.Template

namespace TypedEndpoints.Url
open Template

/-- No placeholder reaches over the end of the base, so base and path are filled apart. -/
theorem join_parts (base path : String) : ∃ start, join base path = start ++ path ∧
    ∀ params, (resolve (start ++ path) params).value =
      (resolve start params).value ++ (resolve path params).value := by
  have h := joined_join base path
  generalize join base path = joined at h
  cases h with
  | absolute http =>
      refine ⟨"", String.empty_append.symm, fun params => ?_⟩
      rw [String.empty_append]
      exact String.empty_append.symm
  | path http slash => exact ⟨base, rfl, resolve_path slash⟩
  | bare http slash => exact ⟨base ++ "/", rfl, resolve_slash base path⟩

/-- Behind a base stands a slash, and what follows it does not depend on the base. -/
theorem join_behind {template : String} (h : ¬ "http".toList <+: template.toList) :
    ∃ rest, ∀ base, join base template = base ++ "/" ++ rest := by
  by_cases hslash : "/".toList <+: template.toList
  · obtain ⟨rest, rfl⟩ := exists_behind_slash hslash
    refine ⟨rest, fun base => ?_⟩
    rw [join, if_neg (mt startsWith_iff.mp h), if_pos (startsWith_iff.mpr hslash), String.append_assoc]
  · refine ⟨template, fun base => ?_⟩
    rw [join, if_neg (mt startsWith_iff.mp h), if_neg (mt startsWith_iff.mp hslash)]

end TypedEndpoints.Url
