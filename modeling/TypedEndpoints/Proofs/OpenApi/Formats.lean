import TypedEndpoints.Proofs.Json.Opening
import TypedEndpoints.Proofs.OpenApi.DistinctKeys
import TypedEndpoints.Proofs.Source.NoRecord
import TypedEndpoints.Proofs.Text.Blank
/-! The two formats of a document and the choice between them. The format is chosen by the first character that is not
blank, and the other one is not tried. The documents that are lost are those in YAML that start with a brace, and those
in JSON that are written as the list of their fields. -/
namespace TypedEndpoints.OpenApi
open Source Outcomes

/-! ### The first character -/

/-- The first character that is not blank. -/
def StartsWith (c : Char) (s : String) : Prop := ∃ bs rest, Text.Blanks bs ∧ s.toList = bs ++ c :: rest

theorem head?_trimStart {c : Char} {s : String} (hc : Text.isBlank c = false) :
    (Text.trimStart s.toList).head? = some c ↔ StartsWith c s := by
  constructor
  · intro h
    obtain ⟨rest, hrest⟩ := List.head?_eq_some_iff.mp h
    refine ⟨s.toList.takeWhile Text.isBlank, rest, fun _ h => List.mem_takeWhile_imp h, ?_⟩
    rw [← hrest]
    exact List.takeWhile_append_dropWhile.symm
  · rintro ⟨bs, rest, hbs, hs⟩
    rw [hs, Text.trimStart_blanks hbs, Text.trimStart, List.dropWhile_cons_of_neg (Bool.eq_false_iff.mp hc)]
    rfl

namespace Document
variable {s : String} {d : Document}

@[simp] theorem looksLikeJson_iff : looksLikeJson s = true ↔ StartsWith '{' s := by
  rw [looksLikeJson, beq_iff_eq]
  exact head?_trimStart rfl

theorem parse_braced (h : StartsWith '{' s) : parse s = fromJson s := if_pos (looksLikeJson_iff.mpr h)

theorem parse_unbraced (h : ¬ StartsWith '{' s) : parse s = fromYaml s := if_neg fun hs => h (looksLikeJson_iff.mp hs)

/-! ### Texts that are read -/

theorem not_read_noRecord {ρ : Type} {m : Type → Type} [Monad m] [MonadExceptOf Fault m] [Links ρ m] [Outcomes m]
    {n : Node ρ} (hn : n.NoRecord) (depth : Nat) (d : Document) : ¬ Returns (Document.read (m := m) depth n) d := by
  intro h
  obtain ⟨p, hp, _⟩ := of_bind h
  exact not_record_noRecord hn depth p hp

theorem ofJson_noRecord {t : Json.Tree} (ht : t.opening? = none) : (Node.ofJson t).NoRecord := by
  cases t with
  | null => exact .scalar rfl
  | bool b => exact .scalar rfl
  | number n => exact .scalar rfl
  | text s =>
      cases s with
      | none => exact .scalar rfl
      | some s => exact .scalar rfl
  | list ts => cases ht
  | object ms => cases ht

theorem fromJson_opening (h : fromJson s = .ok d) :
    ∃ t c, Json.Tree.parse? s.toList = some t ∧ t.opening? = some c := by
  unfold fromJson ofJson at h
  split at h
  · cases h
  · next t ht =>
    cases hopening : t.opening? with
    | some c => exact ⟨t, c, ht, hopening⟩
    | none =>
        cases hread : Document.read (m := Except Fault) Json.maxDepth (Node.ofJson t) with
        | error f =>
            rw [ofTree, hread] at h
            cases h
        | ok d' =>
            have hreturns : Returns (Document.read (m := Except Fault) Json.maxDepth (Node.ofJson t)) d' := hread
            exact absurd hreturns (not_read_noRecord (ofJson_noRecord hopening) _ d')

/-- No document in YAML starts with a bracket. -/
theorem fromYaml_bracket {rest : List Char} (hs : Yaml.BracketText rest s.toList) (d : Document) :
    fromYaml s ≠ .ok d := by
  intro h
  unfold fromYaml ofYaml at h
  split at h
  · cases h
  · next hparse =>
    obtain ⟨n, hn, _⟩ := Yaml.Node.parse_bracket hs hparse
    cases hn
  · next n hparse =>
    obtain ⟨n', hn, hnoRecord⟩ := Yaml.Node.parse_bracket hs hparse
    cases hn
    split at h
    · cases h
    · next l hl => exact not_read_noRecord (ofYaml_noRecord hnoRecord hl) _ d (returns_of_run h)

/-! ### The choice -/

/-- The text is a document in one of the formats. -/
def Reads (s : String) (d : Document) : Prop := fromJson s = .ok d ∨ fromYaml s = .ok d

/-- A document in a format that its first character does not show. -/
inductive Lost (s : String) : Prop
  | braced {d' : Document} : StartsWith '{' s → fromYaml s = .ok d' → (∀ d, fromJson s ≠ .ok d) → Lost s
  | listed {ts} {d' : Document} : Json.Tree.parse? s.toList = some (.list ts) → fromJson s = .ok d' → Lost s

theorem reads_of_parse (h : parse s = .ok d) : Reads s d := by
  by_cases hs : StartsWith '{' s
  · rw [parse_braced hs] at h
    exact .inl h
  · rw [parse_unbraced hs] at h
    exact .inr h

theorem Lost.not_parse (h : Lost s) (d : Document) : parse s ≠ .ok d := by
  cases h with
  | braced hs _ hjson =>
      rw [parse_braced hs]
      exact hjson d
  | listed htree _ =>
      obtain ⟨bs, rest, hbs, hs⟩ := Json.Tree.parse?_opening htree rfl
      have hbracket : StartsWith '[' s := ⟨bs, rest, hbs.all rfl, hs⟩
      have hbrace : ¬ StartsWith '{' s := by
        intro hbrace
        cases ((head?_trimStart rfl).mpr hbracket).symm.trans ((head?_trimStart rfl).mpr hbrace)
      rw [parse_unbraced hbrace]
      exact fromYaml_bracket ⟨bs, hs, hbs.all rfl⟩ d

theorem Reads.exists_parse (h : Reads s d) (hs : ¬ Lost s) : ∃ d, parse s = .ok d := by
  by_cases hbrace : StartsWith '{' s
  · rw [parse_braced hbrace]
    rcases h with h | h
    · exact ⟨d, h⟩
    · by_contra hjson
      exact hs (.braced hbrace h fun d' h' => hjson ⟨d', h'⟩)
  · rw [parse_unbraced hbrace]
    rcases h with h | h
    · obtain ⟨t, c, ht, hc⟩ := fromJson_opening h
      cases t with
      | list ts => exact absurd (.listed ht h) hs
      | object ms =>
          obtain ⟨bs, rest, hbs, hs⟩ := Json.Tree.parse?_opening ht rfl
          exact absurd ⟨bs, rest, hbs.all rfl, hs⟩ hbrace
      | _ => cases hc
    · exact ⟨d, h⟩

/-- A document that is read is read in one of the formats. The first character finds every document, except the lost
ones. -/
theorem parse_reads_iff (s : String) :
    (((∃ d, Reads s d) → ∃ d, parse s = .ok d ∧ Reads s d) ↔ ¬ Lost s) ∧ ∀ d, parse s = .ok d → Reads s d := by
  refine ⟨⟨?_, ?_⟩, fun d => reads_of_parse⟩
  · intro hfound hlost
    have hreads : ∃ d, Reads s d := by
      cases hlost with
      | braced _ h _ => exact ⟨_, .inr h⟩
      | listed _ h => exact ⟨_, .inl h⟩
    obtain ⟨d, hd, _⟩ := hfound hreads
    exact hlost.not_parse d hd
  · rintro hlost ⟨d, hd⟩
    obtain ⟨d', hd'⟩ := hd.exists_parse hlost
    exact ⟨d', hd', reads_of_parse hd'⟩

example : (fromJson "[\x7b\x7d, null]").isOk = true ∧ (parse "[\x7b\x7d, null]").isOk = false := by decide +kernel

/-- A document in YAML, with braces and without quotes. -/
def flowMapping : String := "\x7bpaths: \x7b\x7d\x7d"

/-- The brace is taken for JSON, and no second attempt is made. -/
theorem flow_mapping_lost : ¬ ∀ s, (∃ d, Reads s d) → ∃ d, parse s = .ok d ∧ Reads s d := by
  intro hall
  obtain ⟨d, hyaml, -⟩ := ok_of_view (x := fromYaml flowMapping) (b := []) (fun d => OrderedMap.keys d.paths)
    (by decide +kernel)
  obtain ⟨d', hparse, -⟩ := hall flowMapping ⟨d, .inr hyaml⟩
  have hfails : (parse flowMapping).isOk = false := by decide +kernel
  rw [hparse] at hfails
  cases hfails

end Document
end TypedEndpoints.OpenApi
