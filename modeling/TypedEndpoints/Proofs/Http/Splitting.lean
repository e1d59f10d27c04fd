import TypedEndpoints.Http.Template
import Mathlib
/-! Placeholders as occurrences in a text. The scanner of templates finds every one of them, and a text
splits at all its placeholders in one way only. -/
namespace TypedEndpoints.Template

/-- A letter of ASCII, a digit or an underscore. -/
def InName (c : Char) : Prop :=
  ('A' ≤ c ∧ c ≤ 'Z') ∨ ('a' ≤ c ∧ c ≤ 'z') ∨ ('0' ≤ c ∧ c ≤ '9') ∨ c = '_'

def IsName (name : List Char) : Prop := name ≠ [] ∧ ∀ c ∈ name, InName c

/-- The placeholder of `key` stands in a text at a place. -/
def PlaceholderAt (t : List Char) (place : Nat) (key : String) : Prop :=
  IsName key.toList ∧ holeChars key.toList <+: t.drop place

@[simp] theorem isNameChar_iff {c : Char} : isNameChar c = true ↔ InName c := by
  simp only [isNameChar, Char.isAlphanum, Char.isAlpha, Char.isUpper, Char.isLower, Char.isDigit,
    InName, Bool.or_eq_true, Bool.and_eq_true, decide_eq_true_eq, beq_iff_eq, Char.le_def,
    ge_iff_le, or_assoc]

theorem InName.ne_open {c : Char} (h : InName c) : c ≠ '{' := by
  rintro rfl
  exact absurd (isNameChar_iff.mpr h) (by decide)

theorem InName.ne_close {c : Char} (h : InName c) : c ≠ '}' := by
  rintro rfl
  exact absurd (isNameChar_iff.mpr h) (by decide)

@[simp] theorem holeChars_length (name : List Char) : (holeChars name).length = name.length + 2 := by
  simp only [holeChars, List.length_append, List.length_cons, List.length_nil]

theorem name_unique {a b cs : List Char} (ha : ∀ c ∈ a, InName c) (hb : ∀ c ∈ b, InName c)
    (h : b ++ ['}'] <+: a ++ '}' :: cs) : b = a := by
  induction a generalizing b with
  | nil =>
      cases b with
      | nil => rfl
      | cons y b =>
          have hy : y = '}' := (List.cons_prefix_cons.mp h).1
          exact absurd hy (hb y List.mem_cons_self).ne_close
  | cons x a ih =>
      cases b with
      | nil =>
          have hx : '}' = x := (List.cons_prefix_cons.mp h).1
          exact absurd hx.symm (ha x List.mem_cons_self).ne_close
      | cons y b =>
          obtain ⟨hxy, h⟩ := List.cons_prefix_cons.mp h
          have hab := ih (fun c hc => ha c (List.mem_cons_of_mem _ hc))
            (fun c hc => hb c (List.mem_cons_of_mem _ hc)) h
          rw [hxy, hab]

/-! The scanner, one piece at a time. -/

theorem piecesFrom_name {name rest cs : List Char} (hrest : ∀ c ∈ rest, InName c)
    (hne : name ++ rest ≠ []) :
    piecesFrom (some name) (rest ++ '}' :: cs) = .hole (name ++ rest) :: pieces cs := by
  induction rest generalizing name with
  | nil =>
      rw [List.append_nil] at hne
      rw [List.nil_append, List.append_nil, piecesFrom, if_pos ⟨rfl, hne⟩, pieces]
  | cons c rest ih =>
      have hc : InName c := hrest c List.mem_cons_self
      have hstep : name ++ c :: rest = (name ++ [c]) ++ rest := List.append_cons name c rest
      rw [List.cons_append, piecesFrom, if_neg (fun h => hc.ne_close h.1),
        if_pos (isNameChar_iff.mpr hc), hstep]
      exact ih (fun d hd => hrest d (List.mem_cons_of_mem _ hd)) (hstep ▸ hne)

theorem pieces_hole {name cs : List Char} (h : IsName name) :
    pieces (holeChars name ++ cs) = .hole name :: pieces cs := by
  have htext : holeChars name ++ cs = '{' :: (name ++ '}' :: cs) := by
    rw [holeChars, List.cons_append, List.cons_append, List.append_assoc, List.singleton_append]
  rw [htext, pieces, piecesFrom, if_pos rfl]
  exact piecesFrom_name h.2 h.1

/-- When no placeholder is completed, the brace and the characters after it are only text. -/
theorem piecesFrom_open {name cs : List Char}
    (h : ∀ rest, (∀ c ∈ rest, InName c) → name ++ rest ≠ [] → ¬ rest ++ ['}'] <+: cs) :
    piecesFrom (some name) cs = ('{' :: name).map .char ++ pieces cs := by
  -- Name characters only wait longer; at any other character the scan goes on as from outside.
  induction cs generalizing name with
  | nil =>
      rw [piecesFrom, pieces, piecesFrom, List.append_nil]
  | cons c cs ih =>
      have hclose : ¬ (c = '}' ∧ name ≠ []) := by
        rintro ⟨rfl, hne⟩
        refine h [] (fun _ hd => absurd hd List.not_mem_nil) (by simpa using hne) ?_
        exact List.cons_prefix_cons.mpr ⟨rfl, List.nil_prefix⟩
      rw [piecesFrom, if_neg hclose, pieces]
      by_cases hc : isNameChar c = true
      · have hname := isNameChar_iff.mp hc
        have hopen : ∀ rest, (∀ d ∈ rest, InName d) → (name ++ [c]) ++ rest ≠ [] →
            ¬ rest ++ ['}'] <+: cs := by
          intro rest hrest _ hprefix
          have hall : ∀ d ∈ c :: rest, InName d := by
            intro d hd
            rcases List.mem_cons.mp hd with rfl | hd
            · exact hname
            · exact hrest d hd
          exact h (c :: rest) hall (by simp) (List.cons_prefix_cons.mpr ⟨rfl, hprefix⟩)
        rw [if_pos hc, ih hopen, piecesFrom, if_neg hname.ne_open, ← List.cons_append, List.map_append,
          List.append_assoc]
        rfl
      · rw [if_neg hc]
        by_cases hopen : c = '{'
        · rw [if_pos hopen, piecesFrom, if_pos hopen]
        · rw [if_neg hopen, piecesFrom, if_neg hopen]

theorem pieces_char {c : Char} {cs : List Char} (h : ∀ key, ¬ PlaceholderAt (c :: cs) 0 key) :
    pieces (c :: cs) = .char c :: pieces cs := by
  rw [pieces, piecesFrom]
  by_cases hc : c = '{'
  · subst hc
    rw [if_pos rfl]
    refine piecesFrom_open ?_
    intro rest hrest hne hprefix
    have hat : PlaceholderAt ('{' :: cs) 0 (String.ofList rest) := by
      rw [PlaceholderAt, String.toList_ofList, List.drop_zero, holeChars, List.cons_append]
      exact ⟨⟨hne, hrest⟩, List.cons_prefix_cons.mpr ⟨rfl, hprefix⟩⟩
    exact h _ hat
  · rw [if_neg hc, pieces]

/-! Occurrences, one piece at a time. -/

theorem placeholderAt_nil {place : Nat} {key : String} : ¬ PlaceholderAt [] place key := by
  rintro ⟨-, h⟩
  rw [List.drop_nil] at h
  exact List.cons_ne_nil _ _ (List.prefix_nil.mp h)

@[simp] theorem placeholderAt_succ {c : Char} {cs : List Char} {place : Nat} {key : String} :
    PlaceholderAt (c :: cs) (place + 1) key ↔ PlaceholderAt cs place key := Iff.rfl

@[simp] theorem placeholderAt_append {a cs : List Char} {place : Nat} {key : String} :
    PlaceholderAt (a ++ cs) (place + a.length) key ↔ PlaceholderAt cs place key := by
  rw [PlaceholderAt, PlaceholderAt, Nat.add_comm, List.drop_length_add_append]

theorem PlaceholderAt.brace {t : List Char} {place : Nat} {key : String}
    (h : PlaceholderAt t place key) : t[place]? = some '{' := by
  obtain ⟨-, after, h⟩ := h
  rw [← List.head?_drop, ← h]
  rfl

/-- Behind the opening brace of a placeholder no other one begins inside it. -/
theorem not_placeholderAt_inside {name cs : List Char} (hname : IsName name) {place : Nat}
    (hpos : 0 < place) (hlt : place < (holeChars name).length) {key : String} :
    ¬ PlaceholderAt (holeChars name ++ cs) place key := by
  intro h
  have hopen := h.brace
  rw [List.getElem?_append_left hlt] at hopen
  obtain ⟨place, rfl⟩ := Nat.exists_eq_succ_of_ne_zero hpos.ne'
  have hmem : '{' ∈ name ++ ['}'] := List.mem_of_getElem? hopen
  rcases List.mem_append.mp hmem with hmem | hmem
  · exact (hname.2 _ hmem).ne_open rfl
  · exact absurd (List.mem_singleton.mp hmem) (by decide)

theorem placeholderAt_hole {key key' : String} {cs : List Char} {place : Nat}
    (hkey : IsName key.toList) :
    PlaceholderAt (holeChars key.toList ++ cs) place key' ↔ (place = 0 ∧ key' = key) ∨
      ∃ after, place = after + (holeChars key.toList).length ∧ PlaceholderAt cs after key' := by
  constructor
  · intro h
    rcases Nat.eq_zero_or_pos place with rfl | hpos
    · obtain ⟨hkey', h⟩ := h
      have htail : key'.toList ++ ['}'] <+: key.toList ++ '}' :: cs := by
        simpa [holeChars] using h
      exact .inl ⟨rfl, String.toList_injective (name_unique hkey.2 hkey'.2 htail)⟩
    · have hge : (holeChars key.toList).length ≤ place := by
        by_contra hlt
        exact not_placeholderAt_inside hkey hpos (by omega) h
      obtain ⟨after, rfl⟩ := Nat.exists_eq_add_of_le' hge
      exact .inr ⟨after, rfl, placeholderAt_append.mp h⟩
  · rintro (⟨rfl, rfl⟩ | ⟨after, rfl, h⟩)
    · exact ⟨hkey, List.prefix_append _ _⟩
    · exact placeholderAt_append.mpr h

/-- A text cut at some placeholders: literal text, then a placeholder and the rest, to the end. -/
inductive Splitting where
  | last (literal : List Char)
  | hole (literal : List Char) (key : String) (rest : Splitting)

namespace Splitting

def text : Splitting → List Char
  | last l => l
  | hole l k rest => l ++ holeChars k.toList ++ rest.text

def keys : Splitting → List String
  | last _ => []
  | hole _ k rest => k :: rest.keys

/-- Where the placeholders stand, if the text begins at `start`. -/
def places (start : Nat) : Splitting → List (Nat × String)
  | last _ => []
  | hole l k rest =>
    (start + l.length, k) :: rest.places (start + l.length + (holeChars k.toList).length)

/-- The text with each placeholder replaced, or kept where there is no value. -/
def fill (value : String → Option String) : Splitting → List Char
  | last l => l
  | hole l k rest =>
    l ++ (match value k with
      | some v => v.toList
      | none => holeChars k.toList) ++ rest.fill value

theorem fill_none {s : Splitting} {value : String → Option String} (h : ∀ k, value k = none) :
    s.fill value = s.text := by
  induction s with
  | last l => rfl
  | hole l k rest ih =>
      simp only [fill, text, h, ih]

/-- `s` cuts `t` at its placeholders: all of them, and nothing else. -/
structure Splits (s : Splitting) (t : List Char) : Prop where
  text : s.text = t
  places : ∀ place key, (place, key) ∈ s.places 0 ↔ PlaceholderAt t place key

theorem places_shift (s : Splitting) (start n : Nat) :
    s.places (start + n) = (s.places start).map fun p => (p.1 + n, p.2) := by
  induction s generalizing start with
  | last l => rfl
  | hole l k rest ih =>
      simp only [places, List.map_cons]
      rw [← ih, Nat.add_right_comm start n, Nat.add_right_comm (start + l.length) n]

theorem mem_places {s : Splitting} {n place : Nat} {key : String} :
    (place, key) ∈ s.places n ↔ ∃ before, place = before + n ∧ (before, key) ∈ s.places 0 := by
  have hshift := places_shift s 0 n
  rw [Nat.zero_add] at hshift
  rw [hshift, List.mem_map]
  constructor
  · rintro ⟨⟨before, k⟩, h, heq⟩
    cases heq
    exact ⟨before, rfl, h⟩
  · rintro ⟨before, rfl, h⟩
    exact ⟨(before, key), h, rfl⟩

theorem start_le_of_mem_places {s : Splitting} {start place : Nat} {key : String}
    (h : (place, key) ∈ s.places start) : start ≤ place := by
  obtain ⟨before, rfl, -⟩ := mem_places.mp h
  exact Nat.le_add_left start before

theorem places_sorted (s : Splitting) (start : Nat) :
    (s.places start).Pairwise (fun p q => p.1 < q.1) := by
  induction s generalizing start with
  | last l => exact List.Pairwise.nil
  | hole l k rest ih =>
      refine List.pairwise_cons.mpr ⟨?_, ih _⟩
      rintro ⟨place, key⟩ h
      have hstart := start_le_of_mem_places h
      have hlength := holeChars_length k.toList
      show start + l.length < place
      omega

@[simp] theorem places_keys (s : Splitting) (start : Nat) : (s.places start).map Prod.snd = s.keys := by
  induction s generalizing start with
  | last l => rfl
  | hole l k rest ih =>
      rw [places, List.map_cons, ih, keys]

/-- The text and the places determine every part. -/
theorem eq_of_places {s s' : Splitting} {start : Nat} (htext : s.text = s'.text)
    (hplaces : s.places start = s'.places start) : s = s' := by
  induction s generalizing s' start with
  | last l =>
      cases s' with
      | last l' => exact congrArg last htext
      | hole l' k' rest' => cases hplaces
  | hole l k rest ih =>
      cases s' with
      | last l' => cases hplaces
      | hole l' k' rest' =>
          simp only [places, List.cons.injEq, Prod.mk.injEq] at hplaces
          obtain ⟨⟨hlength, rfl⟩, hrest⟩ := hplaces
          have hlength : l.length = l'.length := Nat.add_left_cancel hlength
          rw [text, text, List.append_assoc, List.append_assoc] at htext
          obtain ⟨rfl, hafter⟩ := List.append_inj htext hlength
          have hrest' := ih (List.append_cancel_left hafter) hrest
          rw [hrest']

theorem Splits.unique {s s' : Splitting} {t : List Char} (h : s.Splits t) (h' : s'.Splits t) :
    s' = s := by
  have : Std.Antisymm fun p q : Nat × String => p.1 < q.1 :=
    ⟨fun _ _ hpq hqp => absurd hpq (Nat.lt_asymm hqp)⟩
  have : Std.Irrefl fun p q : Nat × String => p.1 < q.1 := ⟨fun p => Nat.lt_irrefl p.1⟩
  have hplaces : s'.places 0 = s.places 0 := by
    refine (places_sorted s' 0).eq_of_mem_iff (places_sorted s 0) ?_
    rintro ⟨place, key⟩
    rw [h.places, h'.places]
  exact eq_of_places (h'.text.trans h.text.symm) hplaces

theorem Splits.mem_keys {s : Splitting} {t : List Char} (h : s.Splits t) {key : String} :
    key ∈ s.keys ↔ ∃ place, PlaceholderAt t place key := by
  rw [← places_keys s 0, List.mem_map]
  constructor
  · rintro ⟨⟨place, _⟩, hmem, rfl⟩
    exact ⟨place, (h.places _ _).mp hmem⟩
  · rintro ⟨place, hat⟩
    exact ⟨(place, key), (h.places _ _).mpr hat, rfl⟩

def prepend (c : Char) : Splitting → Splitting
  | last l => last (c :: l)
  | hole l k rest => hole (c :: l) k rest

@[simp] theorem prepend_text (c : Char) (s : Splitting) : (s.prepend c).text = c :: s.text := by
  cases s <;> rfl

@[simp] theorem prepend_keys (c : Char) (s : Splitting) : (s.prepend c).keys = s.keys := by
  cases s <;> rfl

@[simp] theorem prepend_fill (c : Char) (s : Splitting) (value : String → Option String) :
    (s.prepend c).fill value = c :: s.fill value := by
  cases s <;> rfl

@[simp] theorem prepend_places (c : Char) (s : Splitting) (start : Nat) :
    (s.prepend c).places start = s.places (start + 1) := by
  cases s with
  | last l => rfl
  | hole l k rest =>
      have hstart : start + (l.length + 1) = start + 1 + l.length := by omega
      rw [prepend, places, places, List.length_cons, hstart]

def ofPieces : List Piece → Splitting
  | [] => last []
  | .char c :: ps => (ofPieces ps).prepend c
  | .hole name :: ps => hole [] (String.ofList name) (ofPieces ps)

@[simp] theorem ofPieces_keys (ps : List Piece) : (ofPieces ps).keys = holeNames ps := by
  induction ps with
  | nil => rfl
  | cons p ps ih =>
      cases p with
      | char c => rw [ofPieces, prepend_keys, ih]; rfl
      | hole name => rw [ofPieces, keys, ih]; rfl

theorem ofPieces_fill (ps : List Piece) (params : Params) :
    (ofPieces ps).fill (fun k => (params.get? k).map ParamValue.display) =
      ps.flatMap (Piece.fill params) := by
  induction ps with
  | nil => rfl
  | cons p ps ih =>
      cases p with
      | char c => rw [ofPieces, prepend_fill, ih]; rfl
      | hole name =>
          rw [ofPieces, fill, ih, List.flatMap_cons, Piece.fill]
          cases params.get? (String.ofList name) <;>
            simp [ParamValue.display, String.toList_ofList]

/-- Scanning finds every placeholder of a text and nothing else. -/
theorem splits_pieces (t : List Char) : (ofPieces (pieces t)).Splits t := by
  -- A placeholder is left behind as a whole, so the induction is on the length of the text.
  induction hn : t.length using Nat.strong_induction_on generalizing t with
  | _ n ih =>
      subst hn
      by_cases hstart : ∃ key, PlaceholderAt t 0 key
      · obtain ⟨key, hkey, cs, rfl⟩ := hstart
        have hlt : cs.length < (holeChars key.toList ++ cs).length := by
          rw [List.length_append, holeChars_length]
          omega
        obtain ⟨htext, hplaces⟩ := ih _ hlt cs rfl
        rw [pieces_hole hkey, ofPieces, String.ofList_toList]
        refine ⟨?_, ?_⟩
        · rw [text, htext, List.nil_append]
        · intro place key'
          rw [placeholderAt_hole hkey, places, List.mem_cons, mem_places]
          simp only [List.length_nil, Nat.zero_add, Prod.mk.injEq, hplaces]
      · cases t with
        | nil =>
            refine ⟨rfl, fun place key => ?_⟩
            exact iff_of_false List.not_mem_nil placeholderAt_nil
        | cons c cs =>
            have hnone : ∀ key, ¬ PlaceholderAt (c :: cs) 0 key := fun key h => hstart ⟨key, h⟩
            obtain ⟨htext, hplaces⟩ := ih _ (Nat.lt_succ_self _) cs rfl
            rw [pieces_char hnone, ofPieces]
            refine ⟨?_, ?_⟩
            · rw [prepend_text, htext]
            · intro place key
              rw [prepend_places, mem_places]
              cases place with
              | zero =>
                  refine iff_of_false ?_ (hnone key)
                  rintro ⟨before, hzero, -⟩
                  omega
              | succ place =>
                  rw [placeholderAt_succ, ← hplaces]
                  constructor
                  · rintro ⟨before, hsucc, h⟩
                    cases hsucc
                    exact h
                  · intro h
                    exact ⟨place, rfl, h⟩

/-- The one splitting of a text is the scanner's. -/
theorem Splits.eq_ofPieces {s : Splitting} {t : List Char} (h : s.Splits t) :
    s = ofPieces (pieces t) :=
  (splits_pieces t).unique h

end Splitting
end TypedEndpoints.Template
