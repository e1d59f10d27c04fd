import TypedEndpoints.Proofs.Generation.RequestTypes
import TypedEndpoints.Proofs.Http.Joining
/-! Path parameters, declared and sent. A declaration takes any name; a client fills placeholders of
letters, digits and underscores only, so a path parameter of another name ends up in the query. -/
namespace TypedEndpoints.Template

/-- A placeholder is filled with the value of its name, whatever stands around it. -/
theorem resolve_placeholder {key : String} (hkey : IsName key.toList) {params : Params}
    {v : ParamValue} (hv : params.get? key = some v) (before after : String) :
    (resolve (before ++ String.ofList (holeChars key.toList) ++ after) params).value =
      (resolve before params).value ++ v.display ++ (resolve after params).value := by
  have hopen : ¬ InName '{' := fun h => h.ne_open rfl
  have hcut : pieces (before ++ String.ofList (holeChars key.toList) ++ after).toList =
      pieces before.toList ++ .hole key.toList :: pieces after.toList := by
    rw [String.toList_append, String.toList_append, String.toList_ofList, List.append_assoc,
      ← pieces_hole hkey]
    exact pieces_append hopen (by decide) _ _
  simp only [resolve, hcut, List.flatMap_append, List.flatMap_cons, Piece.fill,
    String.ofList_toList, hv, String.ofList_append, ParamValue.display, ← String.append_assoc]

theorem exists_placeholderAt {key : String} (hkey : IsName key.toList) {t : List Char}
    (h : holeChars key.toList <:+: t) : ∃ place, PlaceholderAt t place key := by
  obtain ⟨before, after, rfl⟩ := h
  refine ⟨before.length, hkey, ?_⟩
  rw [List.append_assoc, List.drop_left]
  exact List.prefix_append _ _

end TypedEndpoints.Template

namespace TypedEndpoints.Url
open Template

/-- The address of a path: what the base and the path become, and a query of some bindings. -/
def Addressed (base path : String) (params left : Params) : Prop :=
  ∃ start tail, Joined base path (start ++ path) ∧ left.Sublist params ∧ IsQuery left tail ∧
    build base path (some params) =
      (resolve start params).value ++ (resolve path params).value ++ tail

/-- A value is used in the path: for every placeholder of its key, whatever stands around it, and not
in the query. -/
def UsedInPath (base path : String) (params : Params) (key : String) (v : ParamValue) : Prop :=
  ∃ left, Addressed base path params left ∧ key ∉ OrderedMap.keys left ∧
    ∀ before after, path = before ++ String.ofList (holeChars key.toList) ++ after →
      (resolve path params).value =
        (resolve before params).value ++ v.display ++ (resolve after params).value

/-- A value is used in the query, as one item. -/
def UsedInQuery (base path : String) (params : Params) (key : String) (v : ParamValue) : Prop :=
  ∃ left, Addressed base path params left ∧ left.filter (fun b => b.1 = key) = [(key, v)]

/-- The address of a path with the bindings left over, which are those without a placeholder. -/
theorem addressed_leftover (base path : String) {params : Params}
    (hparams : (OrderedMap.keys params).Nodup) : ∃ start left,
      Addressed base path params left ∧ UsedOnce (start ++ path) (valueText params) params left := by
  obtain ⟨start, hjoin, hparts⟩ := join_parts base path
  have hjoined := joined_join base path
  have hs := Splitting.splits_pieces (join base path).toList
  have hbuild := build_some hs params
  have hused := usedOnce_filter hs hparams
  rw [← resolve_value hs, hjoin, hparts] at hbuild
  rw [hjoin] at hjoined hused
  exact ⟨start, _, ⟨start, _, hjoined, hused.order, isQuery_query _, hbuild⟩, hused⟩

theorem usedInPath {base path key : String} {params : Params}
    (hparams : (OrderedMap.keys params).Nodup) {v : ParamValue} (hv : (key, v) ∈ params)
    (hkey : IsName key.toList) (hoccurs : holeChars key.toList <:+: path.toList) :
    UsedInPath base path params key v := by
  obtain ⟨start, left, haddress, hused⟩ := addressed_leftover base path hparams
  have hat : holeChars key.toList <:+: (start ++ path).toList := by
    rw [String.toList_append]
    exact hoccurs.trans (List.suffix_append _ _).isInfix
  refine ⟨left, haddress, (hused.filled key v hv (exists_placeholderAt hkey hat)).2, ?_⟩
  rintro before after rfl
  exact resolve_placeholder hkey (OrderedMap.get?_of_mem hparams hv) before after

theorem usedInQuery {base path key : String} {params : Params}
    (hparams : (OrderedMap.keys params).Nodup) {v : ParamValue} (hv : (key, v) ∈ params)
    (hkey : ¬ IsName key.toList) : UsedInQuery base path params key v := by
  obtain ⟨start, left, haddress, hused⟩ := addressed_leftover base path hparams
  refine ⟨left, haddress, hused.leftOver key v hv ?_⟩
  rintro ⟨place, hname, -⟩
  exact hkey hname

end TypedEndpoints.Url

namespace TypedEndpoints.Generation
open OpenApi TypeScript Template Url

/-- A path parameter that an operation keeps is a required member of the parameters in its request. If its
name is of letters, digits and underscores, a value for it is used in the path; a value for any other name
is used in the query. -/
theorem path_parameters_agree {d : Document} {p : String × PathItem} (hp : p ∈ d.paths)
    {q : Method × Operation} (hq : q ∈ p.2.operations) {m : Parameter}
    (hm : m ∈ d.mergeParameters p.2.parameters q.2) (hlocation : m.location = "path")
    (hoccurs : holeChars m.name.toList <:+: p.1.toList) (base : String) {params : Params}
    (hparams : (OrderedMap.keys params).Nodup) {v : ParamValue} (hv : (m.name, v) ∈ params) :
    (∃ parts members, RequestAt (endpoints d) p.1 q.1.name (.object parts) ∧
      RequestMembers (d.mergeParameters p.2.parameters q.2) q.2 parts ∧
      ⟨"params", .object members, false⟩ ∈ parts ∧
      ∃ x ∈ members, MemberFor m x ∧ x.optional = false) ∧
    ((∀ c ∈ m.name.toList, InName c) → UsedInPath base p.1 params m.name v) ∧
    ((∃ c ∈ m.name.toList, ¬ InName c) → UsedInQuery base p.1 params m.name v) := by
  refine ⟨?_, ?_, ?_⟩
  · have hne := List.ne_nil_of_mem hm
    have hrequest := requestType_of_members (o := q.2) fun h => hne h.1
    have hparams := mem_paramsMembers.mpr ⟨hne, rfl⟩
    refine ⟨_, _, requestAt_endpoints.mpr ⟨p, hp, q, hq, rfl, rfl, hrequest.symm⟩, requestMembers _ _,
      List.mem_append_left _ hparams, paramMember m, List.mem_map_of_mem hm, memberFor_paramMember m, ?_⟩
    simp [paramMember, hlocation]
  · intro hall
    have hne : m.name.toList ≠ [] := fun h => (merge_final hm).2 (String.toList_eq_nil_iff.mp h)
    exact usedInPath hparams hv ⟨hne, hall⟩ hoccurs
  · rintro ⟨c, hc, hnot⟩
    exact usedInQuery hparams hv fun h => hnot (h.2 c hc)

def pathParameter (key : String) : Parameter := { name := key, location := "path" }

def userPath (key : String) : String := "/users/" ++ String.ofList (holeChars key.toList) ++ "/files"

theorem userPath_occurs (key : String) : holeChars key.toList <:+: (userPath key).toList := by
  refine ⟨"/users/".toList, "/files".toList, ?_⟩
  simp only [userPath, String.toList_append, String.toList_ofList]

/-- One operation with one path parameter, which stands in its path. -/
def userFiles (key : String) : Document where
  paths := [(userPath key, {
    operations := [(.get, { parameters := some [pathParameter key] })] })]

theorem userFiles_keeps {key : String} (h : key ≠ "") : pathParameter key ∈
    (userFiles key).mergeParameters none { parameters := some [pathParameter key] } := by
  have hresolve : (userFiles key).resolve? (pathParameter key) = some (pathParameter key) := by
    simp [Document.resolve?, pathParameter, h]
  exact Document.mem_merge.mpr (.inl (Document.mem_resolveAll.mpr ⟨_, List.mem_cons_self, hresolve⟩))

theorem path_parameters_agree_userId :
    (∀ c ∈ "user_id".toList, InName c) ∧
      UsedInPath "https://h" (userPath "user_id") [("user_id", .integer 7)] "user_id"
        (.integer 7) := by
  have hall : ∀ c ∈ "user_id".toList, InName c := by
    intro c hc
    exact isNameChar_iff.mp (List.all_eq_true.mp (by decide : "user_id".toList.all isNameChar) c hc)
  exact ⟨hall, (path_parameters_agree (d := userFiles "user_id") List.mem_cons_self List.mem_cons_self
    (userFiles_keeps (by decide)) rfl (userPath_occurs _) "https://h" (by decide) List.mem_cons_self).2.1 hall⟩

/-- A hyphen in its name keeps a path parameter out of the path. -/
theorem hyphenated_path_parameter : ¬ ∀ (d : Document) (p) (_ : p ∈ d.paths)
    (q) (_ : q ∈ p.2.operations) (m) (_ : m ∈ d.mergeParameters p.2.parameters q.2),
    m.location = "path" → holeChars m.name.toList <:+: p.1.toList →
    ∀ (base : String) (params : Params), (OrderedMap.keys params).Nodup →
    ∀ v, (m.name, v) ∈ params → UsedInPath base p.1 params m.name v := by
  intro all
  obtain ⟨left, -, -, hfilled⟩ := all (userFiles "user-id") _ List.mem_cons_self _ List.mem_cons_self _
    (userFiles_keeps (by decide)) rfl (userPath_occurs _) "https://h" [("user-id", .integer 7)] (by decide)
    (.integer 7) List.mem_cons_self
  exact absurd (hfilled "/users/" "/files" rfl) (by decide)

end TypedEndpoints.Generation
