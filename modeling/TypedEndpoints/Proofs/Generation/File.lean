import TypedEndpoints.Proofs.Generation.StrictReferences
import TypedEndpoints.Text.Cut
/-! The text of a generated file: declarations of names, with an empty line between two of them. -/
namespace TypedEndpoints.Generation
open OpenApi TypeScript

def declared (x : String × List Char) : List Char :=
  "export type ".toList ++ x.1.toList ++ [' ', '=', ' '] ++ x.2 ++ [';', '\n']

def fileChars (xs : List (String × List Char)) : List Char :=
  Text.joinWith ['\n'] (xs.map declared)

/-- What a file declares: the endpoints and then each component schema, under its own name. -/
def fileEntries (overrides : Overrides) (d : Document) : List (String × List Char) :=
  ("Endpoints", (endpoints d).block 0 2) ::
    d.schemas.map fun p => (p.1, (declarationOf overrides p.1 p.2).definition.chars)

theorem joinWith_cons (sep a : List Char) (parts : List (List Char)) :
    Text.joinWith sep (a :: parts) = a ++ parts.flatMap fun b => sep ++ b := by
  induction parts generalizing a with
  | nil => rw [Text.joinWith, List.flatMap_nil, List.append_nil]
  | cons b parts ih => rw [Text.joinWith, ih, List.flatMap_cons, List.append_assoc, List.append_assoc]

theorem endpointsChars_eq (d : Document) :
    endpointsChars d = declared ("Endpoints", (endpoints d).block 0 2) := by
  have hhead : "export type Endpoints = ".toList =
      "export type ".toList ++ "Endpoints".toList ++ [' ', '=', ' '] := by decide
  unfold endpointsChars declared
  exact congrArg (fun head => head ++ (endpoints d).block 0 2 ++ [';', '\n']) hhead

theorem declarationOf_chars (overrides : Overrides) (name : String) (s : Schema) :
    (declarationOf overrides name s).chars =
      declared (name, (declarationOf overrides name s).definition.chars) := by
  unfold Declaration.chars declared
  rw [declarationOf_name]

theorem outputChars_eq (overrides : Overrides) (d : Document) :
    outputChars overrides d = fileChars (fileEntries overrides d) := by
  rw [fileChars, fileEntries, List.map_cons, joinWith_cons, ← endpointsChars_eq, outputChars,
    declarations, List.flatMap_map, List.map_map, List.flatMap_map]
  refine congrArg _ (List.flatMap_congr fun p _ => ?_)
  exact congrArg _ (declarationOf_chars overrides p.1 p.2)

/-- Whether references are checked or not, a file that is generated has this text. -/
theorem generate_text {strict : Bool} {overrides : Overrides} {d : Document} {text : String}
    (h : generate strict overrides d = .ok text) :
    text = String.ofList (fileChars (fileEntries overrides d)) := by
  unfold generate at h
  split at h
  · cases h
  · cases h
    rw [output, outputChars_eq]

end TypedEndpoints.Generation
