import TypedEndpoints.Proofs.Http.OwnQuery
/-! Braces of a template. A scan takes a text apart into placeholders and characters, and all braces of the text
belong to placeholders exactly when no character it leaves is a brace; then the text and its pieces determine each
other. -/
namespace TypedEndpoints.Template

/-- Each brace of a text opens or closes a placeholder. -/
structure BracesPaired (t : List Char) : Prop where
  opens : ∀ place, t[place]? = some '{' → ∃ key, PlaceholderAt t place key
  closes : ∀ place, t[place]? = some '}' →
    ∃ start key, PlaceholderAt t start key ∧ place = start + key.toList.length + 1

/-- A brace is only found around a name. -/
def Piece.Tidy : Piece → Prop
  | .char c => c ≠ '{' ∧ c ≠ '}'
  | .hole name => IsName name

-- The bounded quantifier is named: the search would run through all characters.
instance (name : List Char) : Decidable (IsName name) :=
  have : Decidable (∀ c ∈ name, InName c) := List.decidableBAll InName name
  inferInstanceAs (Decidable (_ ∧ _))

instance : DecidablePred Piece.Tidy
  | .char c => inferInstanceAs (Decidable (c ≠ '{' ∧ c ≠ '}'))
  | .hole name => inferInstanceAs (Decidable (IsName name))

/-! Braces of a text, one piece at a time. -/

theorem BracesPaired.behind_hole {key : String} {cs : List Char} (hkey : IsName key.toList)
    (h : BracesPaired (holeChars key.toList ++ cs)) : BracesPaired cs := by
  have hlength := holeChars_length key.toList
  have hplace : ∀ place, (holeChars key.toList ++ cs)[place + (holeChars key.toList).length]? =
      cs[place]? := by
    intro place
    rw [Nat.add_comm, List.getElem?_append_right (Nat.le_add_right _ _), Nat.add_sub_cancel_left]
  constructor
  · intro place hopen
    rw [← hplace] at hopen
    obtain ⟨key', hat⟩ := h.opens _ hopen
    exact ⟨key', placeholderAt_append.mp hat⟩
  · intro place hclose
    rw [← hplace] at hclose
    obtain ⟨start, key', hat, hend⟩ := h.closes _ hclose
    rcases (placeholderAt_hole hkey).mp hat with ⟨rfl, rfl⟩ | ⟨after, rfl, hat'⟩
    · omega
    · exact ⟨after, key', hat', by omega⟩

theorem BracesPaired.behind_char {c : Char} {cs : List Char} (hnone : ∀ key, ¬ PlaceholderAt (c :: cs) 0 key)
    (h : BracesPaired (c :: cs)) : BracesPaired cs := by
  constructor
  · intro place hopen
    obtain ⟨key, hat⟩ := h.opens (place + 1) hopen
    exact ⟨key, placeholderAt_succ.mp hat⟩
  · intro place hclose
    obtain ⟨start, key, hat, hend⟩ := h.closes (place + 1) hclose
    cases start with
    | zero => exact absurd hat (hnone key)
    | succ start => exact ⟨start, key, placeholderAt_succ.mp hat, by omega⟩

theorem BracesPaired.char_tidy {c : Char} {cs : List Char} (hnone : ∀ key, ¬ PlaceholderAt (c :: cs) 0 key)
    (h : BracesPaired (c :: cs)) : (Piece.char c).Tidy := by
  constructor
  · rintro rfl
    obtain ⟨key, hat⟩ := h.opens 0 rfl
    exact hnone key hat
  · rintro rfl
    obtain ⟨start, key, -, hend⟩ := h.closes 0 rfl
    omega

/-- A text whose braces are paired is scanned to tidy pieces. -/
theorem tidy_pieces {t : List Char} (h : BracesPaired t) : ∀ x ∈ pieces t, x.Tidy := by
  -- As in the scan, a placeholder is left behind as a whole.
  induction hn : t.length using Nat.strong_induction_on generalizing t with
  | _ n ih =>
      subst hn
      by_cases hstart : ∃ key, PlaceholderAt t 0 key
      · obtain ⟨key, hkey, cs, rfl⟩ := hstart
        have hlt : cs.length < (holeChars key.toList ++ cs).length := by
          rw [List.length_append, holeChars_length]
          omega
        rw [pieces_hole hkey]
        intro x hx
        rcases List.mem_cons.mp hx with rfl | hx
        · exact hkey
        · exact ih _ hlt (h.behind_hole hkey) rfl x hx
      · cases t with
        | nil =>
            intro x hx
            cases hx
        | cons c cs =>
            have hnone : ∀ key, ¬ PlaceholderAt (c :: cs) 0 key := fun key hat => hstart ⟨key, hat⟩
            rw [pieces_char hnone]
            intro x hx
            rcases List.mem_cons.mp hx with rfl | hx
            · exact h.char_tidy hnone
            · exact ih _ (Nat.lt_succ_self _) (h.behind_char hnone) rfl x hx

/-- Tidy pieces are what their text is scanned to. -/
theorem pieces_of_tidy {ps : List Piece} (h : ∀ x ∈ ps, x.Tidy) :
    pieces (ps.flatMap (Piece.fill [])) = ps := by
  induction ps with
  | nil => rfl
  | cons x ps ih =>
      have hx := h x List.mem_cons_self
      have hps := ih fun y hy => h y (List.mem_cons_of_mem x hy)
      rw [List.flatMap_cons]
      cases x with
      | char c =>
          have hnone : ∀ key, ¬ PlaceholderAt (c :: ps.flatMap (Piece.fill [])) 0 key := by
            intro key hat
            exact hx.1 (Option.some_inj.mp hat.brace)
          exact (pieces_char hnone).trans (congrArg _ hps)
      | hole name => exact (pieces_hole hx).trans (congrArg _ hps)

theorem bracesPaired_nil : BracesPaired [] := by
  constructor
  · intro place hopen
    cases hopen
  · intro place hclose
    cases hclose

theorem BracesPaired.cons_char {c : Char} {cs : List Char} (hc : c ≠ '{' ∧ c ≠ '}')
    (h : BracesPaired cs) : BracesPaired (c :: cs) := by
  constructor
  · intro place hopen
    cases place with
    | zero => exact absurd (Option.some_inj.mp hopen) hc.1
    | succ place =>
        obtain ⟨key, hat⟩ := h.opens place hopen
        exact ⟨key, placeholderAt_succ.mpr hat⟩
  · intro place hclose
    cases place with
    | zero => exact absurd (Option.some_inj.mp hclose) hc.2
    | succ place =>
        obtain ⟨start, key, hat, hend⟩ := h.closes place hclose
        exact ⟨start + 1, key, placeholderAt_succ.mpr hat, by omega⟩

/-- Inside a placeholder the braces are the first character and the last. -/
theorem holeChars_braces {name : List Char} (hname : IsName name) {place : Nat} :
    ((holeChars name)[place]? = some '{' → place = 0) ∧
      ((holeChars name)[place]? = some '}' → place = name.length + 1) := by
  cases place with
  | zero => exact ⟨fun _ => rfl, fun h => absurd (Option.some_inj.mp h) (by decide)⟩
  | succ place =>
      have hnot : ∀ c, ¬ InName c → name[place]? ≠ some c := by
        intro c hc h
        exact hc (hname.2 c (List.mem_of_getElem? h))
      change ((name ++ ['}'])[place]? = some '{' → _) ∧ ((name ++ ['}'])[place]? = some '}' → _)
      rcases Nat.lt_or_ge place name.length with hlt | hge
      · rw [List.getElem?_append_left hlt]
        exact ⟨fun h => absurd h (hnot _ (by decide)), fun h => absurd h (hnot _ (by decide))⟩
      · rw [List.getElem?_append_right hge]
        rcases Nat.eq_zero_or_pos (place - name.length) with hzero | hpos
        · rw [hzero]
          exact ⟨fun h => absurd (Option.some_inj.mp h) (by decide), fun _ => by omega⟩
        · have hend : ['}'].length ≤ place - name.length := hpos
          rw [List.getElem?_eq_none hend]
          exact ⟨nofun, nofun⟩

theorem BracesPaired.cons_hole {name cs : List Char} (hname : IsName name) (h : BracesPaired cs) :
    BracesPaired (holeChars name ++ cs) := by
  have hhere : PlaceholderAt (holeChars name ++ cs) 0 (String.ofList name) := by
    rw [PlaceholderAt, String.toList_ofList]
    exact ⟨hname, List.prefix_append _ _⟩
  have hlength := holeChars_length name
  constructor
  · intro place hopen
    rcases Nat.lt_or_ge place (holeChars name).length with hlt | hge
    · rw [List.getElem?_append_left hlt] at hopen
      exact ⟨_, (holeChars_braces hname).1 hopen ▸ hhere⟩
    · obtain ⟨after, rfl⟩ := Nat.exists_eq_add_of_le' hge
      rw [List.getElem?_append_right hge, Nat.add_sub_cancel] at hopen
      obtain ⟨key, hat⟩ := h.opens after hopen
      exact ⟨key, placeholderAt_append.mpr hat⟩
  · intro place hclose
    rcases Nat.lt_or_ge place (holeChars name).length with hlt | hge
    · rw [List.getElem?_append_left hlt] at hclose
      refine ⟨0, _, hhere, ?_⟩
      rw [(holeChars_braces hname).2 hclose, String.toList_ofList, Nat.zero_add]
    · obtain ⟨after, rfl⟩ := Nat.exists_eq_add_of_le' hge
      rw [List.getElem?_append_right hge, Nat.add_sub_cancel] at hclose
      obtain ⟨start, key, hat, hend⟩ := h.closes after hclose
      exact ⟨_, key, placeholderAt_append.mpr hat, by omega⟩

/-- The scan decides whether all braces are paired. -/
theorem bracesPaired_iff {t : List Char} : BracesPaired t ↔ ∀ x ∈ pieces t, x.Tidy := by
  refine ⟨tidy_pieces, ?_⟩
  have htext := pieces_text t
  generalize pieces t = ps at htext
  intro h
  subst htext
  induction ps with
  | nil => exact bracesPaired_nil
  | cons x ps ih =>
      have hx := h x List.mem_cons_self
      have hps := ih fun y hy => h y (List.mem_cons_of_mem x hy)
      cases x with
      | char c => exact hps.cons_char hx
      | hole name => exact hps.cons_hole hx

instance (t : List Char) : Decidable (BracesPaired t) := decidable_of_iff _ bracesPaired_iff.symm

end TypedEndpoints.Template
