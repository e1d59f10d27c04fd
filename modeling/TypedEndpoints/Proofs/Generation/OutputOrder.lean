import TypedEndpoints.Proofs.Generation.File
import TypedEndpoints.Proofs.Generation.Within
import TypedEndpoints.Proofs.OpenApi.SourceOrder
import TypedEndpoints.Proofs.TypeScript.Lines
/-! The order of a generated file. Its lines are those of the document's maps, and these keep the keys of the
source text. -/
namespace TypedEndpoints.Generation
open OpenApi TypeScript

/-- A line for each path, and under it one for each of its methods. -/
def pathLines (d : Document) : List Char :=
  objectLines 0 (d.paths.map fun p => (p.1, false, objectLines 1 (p.2.operations.map fun q =>
    (q.1.name, false, (signature (d.mergeParameters p.2.parameters q.2) q.2).inline))))

/-- A line for each property, if the schema is declared as an object. -/
def definitionLines (overrides : Overrides) (p : String × Schema) : List Char :=
  match (declarationOf overrides p.1 p.2).definition with
  | .structural _ => bracedLines 0 ((p.2.properties.getD []).map fun x =>
      (x.1, x.2.isNullable, (typeOf x.2).inline))
  | .alias type => type.inline

theorem endpoints_lines (d : Document) : (endpoints d).block 0 2 = pathLines d := by
  rw [endpoints, block_object, List.map_map, pathLines]
  refine congrArg (objectLines 0) (List.map_congr_left fun p _ => ?_)
  have hpath : (pathType d p.2).block 1 1 = objectLines 1 (p.2.operations.map fun q =>
      (q.1.name, false, (signature (d.mergeParameters p.2.parameters q.2) q.2).inline)) := by
    rw [pathType, block_object, List.map_map]
    refine congrArg (objectLines 1) (List.map_congr_left fun q _ => ?_)
    exact congrArg (fun text => (q.1.name, false, text)) (block_zero _ _)
  exact congrArg (fun text => (p.1, false, text)) hpath

theorem structural_members {overrides : Overrides} {name : String} {s : Schema}
    {members : List (Member TypeExpr)}
    (h : (declarationOf overrides name s).definition = .structural members) :
    members = declaredMembers s := by
  unfold declarationOf at h
  split at h
  · cases h
  · change definitionOf s = _ at h
    unfold definitionOf at h
    unfold declaredMembers
    split at h
    · next ps hps =>
      cases h
      rw [hps, Option.getD_some]
    · next hps =>
      split at h
      · cases h
        rw [hps]
        rfl
      · cases h

theorem definition_lines (overrides : Overrides) (p : String × Schema) :
    (declarationOf overrides p.1 p.2).definition.chars = definitionLines overrides p := by
  unfold definitionLines
  split
  · next members hmembers =>
    rw [hmembers, structural_lines, structural_members hmembers, declaredMembers, List.map_map]
    rfl
  · next type htype =>
    rw [htype, Definition.chars]

/-- The text generated from a JSON document has a line for each path, method, schema and property that the
document keeps of its source. It keeps each key once, where it first comes, with what was read for the last
value of the key; methods are not read twice. -/
theorem output_follows_source (overrides : Overrides) {source : String} {d : Document}
    (h : Document.fromJson source = .ok d) :
    ∃ t, Json.Tree.parse? source.toList = some t ∧ d.FromSource t ∧
      generate false overrides d = .ok (String.ofList (fileChars
        (("Endpoints", pathLines d) :: d.schemas.map fun p => (p.1, definitionLines overrides p)))) := by
  obtain ⟨t, ht, hsource⟩ := Document.fromJson_fromSource h
  have hentries : fileEntries overrides d =
      ("Endpoints", pathLines d) :: d.schemas.map fun p => (p.1, definitionLines overrides p) := by
    rw [fileEntries, endpoints_lines]
    simp only [definition_lines]
  refine ⟨t, ht, hsource, ?_⟩
  simp [output, outputChars_eq, hentries]

/-- A path and a property come twice. -/
def repeatedKeys : String :=
  "\x7b\"paths\":\x7b\"/b\":\x7b\"get\":\x7b\x7d\x7d,\"/a\":\x7b\x7d,\"/b\":\x7b\"put\":\x7b\x7d\x7d\x7d," ++
    "\"components\":\x7b\"schemas\":\x7b\"T\":\x7b\"properties\":\x7b" ++
    "\"p\":\x7b\"type\":\"string\"\x7d,\"q\":\x7b\x7d,\"p\":\x7b\x7d\x7d\x7d\x7d\x7d\x7d"

def repeatedKeysOutput : String :=
  "export type Endpoints = \x7b\n" ++
    "\t'/b': \x7b\n\t\tput: \x7b response: any; request: undefined \x7d;\n\t\x7d;\n" ++
    "\t'/a': \x7b\x7d;\n\x7d;\n\nexport type T = \x7b\n\tp: any;\n\tq: any;\n\x7d;\n"

/-- Each stands where it came first, as it came last. -/
theorem output_follows_source_repeatedKeys : ∃ d, Document.fromJson repeatedKeys = .ok d ∧
    (∃ t, Json.Tree.parse? repeatedKeys.toList = some t ∧ d.FromSource t) ∧
    generate false [] d = .ok repeatedKeysOutput := by
  obtain ⟨d, hd, houtput⟩ := ok_of_view (x := Document.fromJson repeatedKeys) (b := repeatedKeysOutput)
    (output []) (by decide +kernel)
  obtain ⟨t, ht, hsource, -⟩ := output_follows_source [] hd
  refine ⟨d, hd, ⟨t, ht, hsource⟩, ?_⟩
  simp [houtput]

end TypedEndpoints.Generation
