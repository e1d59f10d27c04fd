import TypedEndpoints.Proofs.Generation.File
import TypedEndpoints.Proofs.OpenApi.DistinctKeys
/-! The names that a generated file declares. Component schemas are declared under their own names as they
are; nothing keeps one of them from being no identifier, or from being the name of the endpoints. -/
namespace TypedEndpoints.Generation
open OpenApi TypeScript

@[simp] theorem fileEntries_names (overrides : Overrides) (d : Document) :
    (fileEntries overrides d).map Prod.fst = "Endpoints" :: OrderedMap.keys d.schemas := by
  rw [fileEntries, List.map_cons, List.map_map]
  rfl

/-- The text generated for a document is that of these declarations: the endpoints, and each component
schema under its name. -/
def IsFileOf (overrides : Overrides) (d : Document) (file : List (String × List Char)) : Prop :=
  file.map Prod.fst = "Endpoints" :: OrderedMap.keys d.schemas ∧
    generate false overrides d = .ok (String.ofList (fileChars file))

theorem isFileOf_fileEntries (overrides : Overrides) (d : Document) :
    IsFileOf overrides d (fileEntries overrides d) := by
  refine ⟨fileEntries_names overrides d, ?_⟩
  simp [output, outputChars_eq]

/-- A file declares the endpoints and the component schemas by name, in document order and whatever the
overrides; strict generation gives the same file or none. Its names are distinct unless a schema has the
name of the endpoints, and identifiers as far as the names of the schemas are. -/
theorem declared_names (overrides : Overrides) {d : Document}
    (hd : (OrderedMap.keys d.schemas).Nodup) :
    ∃ file, IsFileOf overrides d file ∧
      (∀ text, generate true overrides d = .ok text → text = String.ofList (fileChars file)) ∧
      ((file.map Prod.fst).Nodup ↔ "Endpoints" ∉ OrderedMap.keys d.schemas) ∧
      ((∀ x ∈ file, needsQuoting x.1 = false) ↔
        ∀ name ∈ OrderedMap.keys d.schemas, needsQuoting name = false) := by
  have hfile := isFileOf_fileEntries overrides d
  refine ⟨_, hfile, fun _ h => generate_text h, ?_, ?_⟩
  · rw [hfile.1, List.nodup_cons]
    exact and_iff_left hd
  · have hall : (∀ x ∈ fileEntries overrides d, needsQuoting x.1 = false) ↔
        ∀ name ∈ (fileEntries overrides d).map Prod.fst, needsQuoting name = false := by
      rw [List.forall_mem_map]
    rw [hall, hfile.1, List.forall_mem_cons]
    exact and_iff_right (by decide)

/-- A schema that is overridden, and one whose name is no identifier. -/
def guidAndPage : Document where
  components := some { schemas := some [
    ("Guid", { properties := some [("value", { type := some (.single "string") })] }),
    ("Page.Of.User", { type := some (.single "object") })] }

theorem declared_names_guidAndPage : (OrderedMap.keys guidAndPage.schemas).Nodup ∧
    ∃ file, IsFileOf Overrides.defaults guidAndPage file ∧ (file.map Prod.fst).Nodup ∧
      ¬ ∀ x ∈ file, needsQuoting x.1 = false := by
  have hd : (OrderedMap.keys guidAndPage.schemas).Nodup := by decide
  obtain ⟨file, hfile, -, hdistinct, hlegal⟩ := declared_names Overrides.defaults hd
  exact ⟨hd, file, hfile, hdistinct.mpr (by decide), fun h => absurd (hlegal.mp h) (by decide)⟩

/-- A component schema named like the endpoints, and one with a hyphen. -/
def takenAndHyphenated : String :=
  "\x7b\"components\":\x7b\"schemas\":\x7b\"Endpoints\":\x7b\"type\":\"string\"\x7d," ++
    "\"a-b\":\x7b\"type\":\"number\"\x7d\x7d\x7d\x7d"

/-- With the overrides that every build has, names can clash, and names can be no identifiers. -/
theorem declared_names_takenAndHyphenated :
    (¬ ∀ (overrides : Overrides) (text : String) (d : Document), Document.parse text = .ok d →
      ∀ file, IsFileOf overrides d file → (file.map Prod.fst).Nodup) ∧
    ¬ ∀ (overrides : Overrides) (text : String) (d : Document), Document.parse text = .ok d →
      ∀ file, IsFileOf overrides d file → ∀ x ∈ file, needsQuoting x.1 = false := by
  obtain ⟨d, hparse, hkeys⟩ := ok_of_view (x := Document.parse takenAndHyphenated)
    (b := ["Endpoints", "a-b"]) (fun d => OrderedMap.keys d.schemas) (by decide +kernel)
  have hfile := isFileOf_fileEntries Overrides.defaults d
  have hnames := hfile.1
  rw [hkeys] at hnames
  constructor
  · intro all
    have hdistinct := all Overrides.defaults _ d hparse _ hfile
    rw [hnames] at hdistinct
    exact absurd hdistinct (by decide)
  · intro all
    have hmem : "a-b" ∈ (fileEntries Overrides.defaults d).map Prod.fst := by
      rw [hnames]
      decide
    obtain ⟨x, hx, hname⟩ := List.mem_map.mp hmem
    have hlegal := all Overrides.defaults _ d hparse _ hfile x hx
    rw [hname] at hlegal
    exact absurd hlegal (by decide)

end TypedEndpoints.Generation
