import TypedEndpoints.Proofs.Generation.Visible
import TypedEndpoints.Proofs.OpenApi.Resolution
import Mathlib.Logic.Function.Iterate
/-! The type of a schema in use is a base under as many arrays as the schema has array levels; what the base
is shows where the levels end. Text of an override is never a base, so it stands alone wherever it stands. -/
namespace TypedEndpoints.TypeScript

def brackets (n : Nat) : List Char := (List.replicate n ['[', ']']).flatten

theorem TypeExpr.Within.trans {t u v : TypeExpr} (h : t.Within u) (h' : u.Within v) : t.Within v := by
  induction h' with
  | here => exact h
  | item _ ih => exact .item ih
  | member hx _ ih => exact .member hx ih

theorem within_arrays {t base : TypeExpr} {n : Nat} (h : t.Within (TypeExpr.array^[n] base)) :
    (∃ u, t = .array u) ∨ t.Within base := by
  induction n with
  | zero => exact .inr h
  | succ n ih =>
      rw [Function.iterate_succ_apply'] at h
      cases h with
      | here => exact .inl ⟨_, rfl⟩
      | item h => exact ih h

theorem inline_array_of_ne {t : TypeExpr} (h : ∀ text, t ≠ .verbatim text) :
    (TypeExpr.array t).inline = t.inline ++ ['[', ']'] := by
  rw [TypeExpr.inline]
  exact h

theorem inline_arrays {base : TypeExpr} (h : ∀ text, base ≠ .verbatim text) (n : Nat) :
    (TypeExpr.array^[n] base).inline = base.inline ++ brackets n := by
  induction n with
  | zero => exact (List.append_nil _).symm
  | succ n ih =>
      have harrays : ∀ text, TypeExpr.array^[n] base ≠ .verbatim text := by
        cases n with
        | zero => exact h
        | succ n =>
            rw [Function.iterate_succ_apply']
            exact nofun
      have hbrackets : brackets (n + 1) = brackets n ++ ['[', ']'] := by
        rw [brackets, List.replicate_succ', List.flatten_append, List.flatten_singleton, brackets]
      rw [Function.iterate_succ_apply', inline_array_of_ne harrays, ih, List.append_assoc, hbrackets]

end TypedEndpoints.TypeScript

namespace TypedEndpoints.Generation
open OpenApi TypeScript

def ArrayLevel (s : Schema) : Prop := s.ref = none ∧ s.kind = some "array"

/-- The array levels from a schema on, following items, and the schema below the last one, if it has items. -/
inductive Levels : Schema → Nat → Option Schema → Prop
  | here {s} : ¬ ArrayLevel s → Levels s 0 (some s)
  | bare {s} : ArrayLevel s → s.items = none → Levels s 1 none
  | item {s i n last} : ArrayLevel s → s.items = some i → Levels i n last → Levels s (n + 1) last

inductive Keyword : Option String → Primitive → Prop
  | integer : Keyword (some "integer") .number
  | number : Keyword (some "number") .number
  | string : Keyword (some "string") .string
  | boolean : Keyword (some "boolean") .boolean
  | other {kind} : kind ∉ [some "integer", some "number", some "string", some "boolean"] → Keyword kind .any

/-- The type where the array levels end. -/
inductive EndType : Option Schema → TypeExpr → Prop
  | bare : EndType none .any
  | ref {s : Schema} {ref name} : s.ref = some ref → LastSegment ref name → EndType (some s) (.ref name)
  | keyword {s : Schema} {p} : s.ref = none → Keyword s.kind p → EndType (some s) (.primitive p)

theorem Levels.unique {s : Schema} {n m : Nat} {last other : Option Schema} (h : Levels s n last)
    (h' : Levels s m other) : m = n ∧ other = last := by
  induction h generalizing m with
  | here hs =>
      cases h' with
      | here => exact ⟨rfl, rfl⟩
      | bare hs' _ => exact absurd hs' hs
      | item hs' _ _ => exact absurd hs' hs
  | bare hs hitems =>
      cases h' with
      | here hs' => exact absurd hs hs'
      | bare => exact ⟨rfl, rfl⟩
      | item _ hitems' _ => rw [hitems] at hitems'; cases hitems'
  | item hs hitems _ ih =>
      cases h' with
      | here hs' => exact absurd hs hs'
      | bare _ hitems' => rw [hitems] at hitems'; cases hitems'
      | item _ hitems' h' =>
          rw [hitems] at hitems'
          cases hitems'
          obtain ⟨rfl, rfl⟩ := ih h'
          exact ⟨rfl, rfl⟩

theorem primitiveOf_keyword (kind : Option String) : ∃ p, Keyword kind p ∧ primitiveOf kind = .primitive p := by
  unfold primitiveOf
  split
  · exact ⟨_, .integer, rfl⟩
  · exact ⟨_, .number, rfl⟩
  · exact ⟨_, .string, rfl⟩
  · exact ⟨_, .boolean, rfl⟩
  · next hinteger hnumber hstring hboolean =>
    refine ⟨_, .other ?_, rfl⟩
    simp only [List.mem_cons, List.not_mem_nil, or_false, not_or]
    exact ⟨hinteger, hnumber, hstring, hboolean⟩

theorem endType_typeOf {s : Schema} (h : ¬ ArrayLevel s) : EndType (some s) (typeOf s) := by
  cases href : s.ref with
  | some ref =>
      rw [typeOf_of_ref href]
      exact .ref href (refName_eq_iff.mp rfl)
  | none =>
      obtain ⟨p, hkeyword, hp⟩ := primitiveOf_keyword s.kind
      rw [typeOf_of_no_ref href, if_neg fun hkind => h ⟨href, hkind⟩, hp]
      exact .keyword href hkeyword

theorem typeOf_levels (s : Schema) :
    ∃ n last base, Levels s n last ∧ EndType last base ∧ typeOf s = TypeExpr.array^[n] base := by
  -- an array level puts one more array around the type of its items; the walk ends at any other schema
  induction s using Schema.ind with
  | h s hitems _ =>
      by_cases h : ArrayLevel s
      · have htype : typeOf s = .array (typeOfItems s.items) := by
          rw [typeOf_of_no_ref h.1, if_pos h.2]
        cases hi : s.items with
        | none =>
            refine ⟨1, none, .any, .bare h hi, .bare, ?_⟩
            rw [htype, hi, typeOfItems]
            rfl
        | some i =>
            obtain ⟨n, last, base, hlevels, hend, hbase⟩ := hitems i hi
            refine ⟨n + 1, last, base, .item h hi hlevels, hend, ?_⟩
            rw [htype, hi, typeOfItems, hbase, Function.iterate_succ_apply']
      · exact ⟨0, some s, typeOf s, .here h, endType_typeOf h, rfl⟩

theorem EndType.plain {last : Option Schema} {base : TypeExpr} (h : EndType last base) :
    (∀ t, base ≠ .array t) ∧ (∀ xs, base ≠ .object xs) ∧ ∀ text, base ≠ .verbatim text := by
  cases h <;> exact ⟨nofun, nofun, nofun⟩

theorem EndType.within {last : Option Schema} {base t : TypeExpr} (h : EndType last base)
    (ht : t.Within base) : t = base := by
  cases h <;> cases ht <;> rfl

/-! ### Overrides -/

theorem no_verbatim_within_typeOf (text : String) (s : Schema) : ¬ (TypeExpr.verbatim text).Within (typeOf s) := by
  intro h
  obtain ⟨n, last, base, _, hend, hbase⟩ := typeOf_levels s
  rw [hbase] at h
  rcases within_arrays h with ⟨u, hu⟩ | h
  · cases hu
  · exact hend.plain.2.2 text (hend.within h).symm

theorem no_verbatim_within_endpoints (text : String) (d : Document) :
    ¬ (TypeExpr.verbatim text).Within (endpoints d) := by
  intro h
  rcases within_endpoints h with h | ⟨p, _, h | ⟨q, _, h⟩⟩
  · cases h
  · cases h
  · rcases within_signature h with h | h | h | h | ⟨s, _, h⟩
    · cases h
    · unfold requestType at h
      split at h <;> cases h
    · cases h
    · cases h
    · exact no_verbatim_within_typeOf text s h

/-- The text of an override is the whole of a declaration. -/
theorem verbatim_within_declarations {overrides : Overrides} {d : Document} {x : Declaration} {text : String}
    (hx : x ∈ declarations overrides d) (h : (TypeExpr.verbatim text).Within x.definition.body) :
    x.definition = .alias (.verbatim text) ∧ overrides.get? x.name = some text := by
  obtain ⟨p, _, rfl⟩ := List.mem_map.mp hx
  rw [declarationOf_name]
  unfold declarationOf at h ⊢
  split at h
  · next own hown =>
    cases h
    exact ⟨rfl, hown⟩
  · rcases within_definitionOf h with h | h | ⟨ps, _, q, _, h⟩
    · cases h
    · exact absurd h (no_verbatim_within_typeOf text _)
    · exact absurd h (no_verbatim_within_typeOf text _)

theorem no_array_of_verbatim {overrides : Overrides} {d : Document} {t : TypeExpr} {text : String}
    (h : Generated overrides d (.array t)) : ¬ (TypeExpr.verbatim text).Within t := by
  intro ht
  rcases h with h | ⟨x, hx, h⟩
  · exact no_verbatim_within_endpoints text d (TypeExpr.Within.trans (.item ht) h)
  · have halias := (verbatim_within_declarations hx (TypeExpr.Within.trans (.item ht) h)).1
    rw [halias] at h
    cases h

/-- The type of a schema is a base under one array for each array level, written as the base and as many
pairs of brackets; the base is where the levels end, and never an array, an object or text of an override.
Such text is in no type of the endpoints, and a declaration that holds it is nothing but the alias of an
overridden name, so no array is built around it. -/
theorem type_expressions :
    (∀ s : Schema, ∃ n last base, Levels s n last ∧ EndType last base ∧
      (∀ m other, Levels s m other → m = n ∧ other = last) ∧
      typeOf s = TypeExpr.array^[n] base ∧
      (typeOf s).emit = base.emit ++ String.ofList (brackets n) ∧
      (∀ t, base ≠ .array t) ∧ (∀ xs, base ≠ .object xs) ∧ ∀ text, base ≠ .verbatim text) ∧
    ∀ (overrides : Overrides) (d : Document) (text : String),
      ¬ (TypeExpr.verbatim text).Within (endpoints d) ∧
      (∀ x ∈ declarations overrides d, (TypeExpr.verbatim text).Within x.definition.body →
        x.definition = .alias (.verbatim text) ∧ overrides.get? x.name = some text) ∧
      ∀ t, Generated overrides d (.array t) → ¬ (TypeExpr.verbatim text).Within t := by
  refine ⟨fun s => ?_, fun overrides d text => ⟨no_verbatim_within_endpoints text d,
    fun x hx h => verbatim_within_declarations hx h, fun t h => no_array_of_verbatim h⟩⟩
  obtain ⟨n, last, base, hlevels, hend, hbase⟩ := typeOf_levels s
  have htext : (typeOf s).emit = base.emit ++ String.ofList (brackets n) := by
    rw [hbase, TypeExpr.emit, inline_arrays hend.plain.2.2, String.ofList_append]
    rfl
  exact ⟨n, last, base, hlevels, hend, fun _ _ h => hlevels.unique h, hbase, htext, hend.plain⟩

/-- Lists of lists of an overridden name; the inner lists may be null. -/
def guidLists : Schema where
  type := some (.single "array")
  items := some {
    type := some (.several ["null", "array"])
    items := some { ref := some "#/components/schemas/Guid" } }

def guidDocument : Document where
  components := some { schemas := some [("Guid", { type := some (.single "object") }), ("Lists", guidLists)] }

theorem type_expressions_guids :
    (typeOf guidLists).emit = "Guid[][]" ∧
    (declarationOf Overrides.defaults "Guid" { type := some (.single "object") }).definition =
      .alias (.verbatim "string") ∧
    ¬ (TypeExpr.verbatim "string").Within (.array (.ref "Guid")) := by
  obtain ⟨_, hdeclarations, harrays⟩ := type_expressions.2 Overrides.defaults guidDocument "string"
  have hguid : declarationOf Overrides.defaults "Guid" { type := some (.single "object") } ∈
      declarations Overrides.defaults guidDocument := List.mem_cons_self
  have hlists : Generated Overrides.defaults guidDocument (.array (.array (.ref "Guid"))) :=
    .inr ⟨_, List.mem_cons_of_mem _ List.mem_cons_self, .here⟩
  exact ⟨by decide, (hdeclarations _ hguid .here).1, harrays _ hlists⟩

end TypedEndpoints.Generation
