import TypedEndpoints.CommandLine.Plan
import TypedEndpoints.Proofs.Text.Blank
import TypedEndpoints.Proofs.Text.Cut
/-! Mapping arguments. What is taken from one is the two parts at its first equals sign, trimmed; a name and a
type are taken from some argument exactly when they are trimmed, not empty, and the name has no equals sign. -/
namespace TypedEndpoints.CommandLine
open Text

def Visible (cs : List Char) : Prop := ∃ c ∈ cs, isBlank c = false

/-- A name and a type that a mapping argument can give. -/
structure Expressible (name type : String) : Prop where
  named : name ≠ ""
  typed : type ≠ ""
  nameTrimmed : Unpadded name.toList
  typeTrimmed : Unpadded type.toList
  unsplit : '=' ∉ name.toList

theorem visible_iff {cs : List Char} : Visible cs ↔ trim cs ≠ [] := by
  rw [Ne, trim_eq_nil_iff]
  simp [Visible, Blanks]

theorem equals_not_mem_blanks {cs : List Char} (h : Blanks cs) : '=' ∉ cs := by
  intro hmem
  have hblank : isBlank '=' = true := h _ hmem
  revert hblank
  decide

theorem parseMapping_uncut {raw : String} (h : '=' ∉ raw.toList) : parseMapping raw = none := by
  unfold parseMapping
  rw [cutFirst_of_notMem h]

theorem parseMapping_cut {raw : String} {before after : List Char} (hraw : raw.toList = before ++ '=' :: after)
    (hbefore : '=' ∉ before) : parseMapping raw =
      if trim before = [] ∨ trim after = [] then none
      else some (String.ofList (trim before), String.ofList (trim after)) := by
  unfold parseMapping
  rw [hraw, cutFirst_append hbefore]
  simp only [Bool.or_eq_true, List.isEmpty_iff]

/-- The parts at the first equals sign, neither of them blank, and what trimming leaves of them. -/
theorem parseMapping_eq_some_iff {raw name type : String} : parseMapping raw = some (name, type) ↔
    ∃ before after, raw.toList = before ++ '=' :: after ∧ '=' ∉ before ∧ Visible before ∧ Visible after ∧
      name.toList = trim before ∧ type.toList = trim after := by
  constructor
  · intro h
    by_cases hmem : '=' ∈ raw.toList
    · obtain ⟨before, after, hraw, hbefore⟩ := List.eq_append_cons_of_mem hmem
      rw [parseMapping_cut hraw hbefore] at h
      split at h
      · cases h
      · next hfilled =>
        obtain ⟨hname, htype⟩ := not_or.mp hfilled
        cases h
        exact ⟨before, after, hraw, hbefore, visible_iff.mpr hname, visible_iff.mpr htype,
          String.toList_ofList, String.toList_ofList⟩
    · rw [parseMapping_uncut hmem] at h
      cases h
  · rintro ⟨before, after, hraw, hbefore, hname, htype, hn, ht⟩
    have hfilled : ¬ (trim before = [] ∨ trim after = []) :=
      not_or.mpr ⟨visible_iff.mp hname, visible_iff.mp htype⟩
    rw [parseMapping_cut hraw hbefore, if_neg hfilled, ← hn, ← ht, String.ofList_toList, String.ofList_toList]

theorem expressible_of_parseMapping {raw name type : String} (h : parseMapping raw = some (name, type)) :
    Expressible name type := by
  obtain ⟨before, after, -, hbefore, hname, htype, hn, ht⟩ := parseMapping_eq_some_iff.mp h
  obtain ⟨l, r, -, -, htrim⟩ := exists_padding before
  have hsub : trim before ⊆ before := by
    intro c hc
    rw [htrim]
    exact List.mem_append_left r (List.mem_append_right l hc)
  refine ⟨?_, ?_, hn ▸ unpadded_trim before, ht ▸ unpadded_trim after, fun hmem => hbefore (hsub (hn ▸ hmem))⟩
  · rintro rfl
    exact visible_iff.mp hname hn.symm
  · rintro rfl
    exact visible_iff.mp htype ht.symm

/-- Blanks around the name and around the type are not looked at. -/
theorem parseMapping_padded {name type : String} (h : Expressible name type) {l r l' r' : String}
    (hl : Blanks l.toList) (hr : Blanks r.toList) (hl' : Blanks l'.toList) (hr' : Blanks r'.toList) :
    parseMapping (l ++ name ++ r ++ "=" ++ l' ++ type ++ r') = some (name, type) := by
  have hbefore : '=' ∉ l.toList ++ name.toList ++ r.toList := by
    simp only [List.mem_append, not_or]
    exact ⟨⟨equals_not_mem_blanks hl, h.unsplit⟩, equals_not_mem_blanks hr⟩
  have hname : trim (l.toList ++ name.toList ++ r.toList) = name.toList := trim_padded hl h.nameTrimmed hr
  have htype : trim (l'.toList ++ type.toList ++ r'.toList) = type.toList := trim_padded hl' h.typeTrimmed hr'
  refine parseMapping_eq_some_iff.mpr ⟨_, _, ?_, hbefore, visible_iff.mpr ?_, visible_iff.mpr ?_, hname.symm,
    htype.symm⟩
  · simp only [String.toList_append, List.append_assoc]
    rfl
  · rw [hname]
    exact mt String.toList_eq_nil_iff.mp h.named
  · rw [htype]
    exact mt String.toList_eq_nil_iff.mp h.typed

/-! ### The arguments of a command -/

theorem splitLong_cut {name : List Char} (h : '=' ∉ name) (value : List Char) :
    splitLong (name ++ '=' :: value) = (String.ofList name, some (String.ofList value)) := by
  unfold splitLong
  rw [cutFirst_append h]

/-- An option with its value behind an equals sign is taken at once. -/
theorem parseGenerate_long (name : String) {f : Flag} (hflag : Flag.ofLong? name = some f)
    (hvalue : f.takesValue = true) (hname : '=' ∉ name.toList) (value : String) (a : GenerateArgs)
    (args : List String) : parseGenerate a none (("--" ++ name ++ "=" ++ value) :: args) =
      (a.takeValue f value >>= fun a => parseGenerate a none args) := by
  have htext : ("--" ++ name ++ "=" ++ value).toList = '-' :: '-' :: (name.toList ++ '=' :: value.toList) := by
    simp only [String.toList_append, List.append_assoc]
    rfl
  have hne : name.toList ++ '=' :: value.toList ≠ [] := by simp
  have hsplit := splitLong_cut hname value.toList
  generalize name.toList ++ '=' :: value.toList = cs at htext hne hsplit
  obtain ⟨c, cs, rfl⟩ := List.exists_cons_of_ne_nil hne
  rw [parseGenerate.eq_def]
  simp only [htext, hsplit, String.ofList_toList, hflag, hvalue, if_true]
  rfl

/-- Mapping arguments add up, in their order. -/
theorem parseGenerate_mappings {raws : List String} {overrides : List (String × String)}
    (h : List.Forall₂ (fun raw x => parseMapping raw = some x) raws overrides) (a : GenerateArgs)
    (args : List String) : parseGenerate a none (raws.map (fun raw => "--map=" ++ raw) ++ args) =
      parseGenerate { a with mappings := a.mappings ++ overrides } none args := by
  induction h generalizing a with
  | nil => rw [List.map_nil, List.nil_append, List.append_nil]
  | @cons raw x raws overrides hx _ ih =>
      have htake : a.takeValue .map raw = .ok { a with mappings := a.mappings ++ [x] } := by
        simp only [GenerateArgs.takeValue, hx]
        rfl
      have hstep := parseGenerate_long "map" rfl rfl (by decide) raw a
        (raws.map (fun raw => "--map=" ++ raw) ++ args)
      rw [htake] at hstep
      rw [List.map_cons, List.cons_append]
      refine hstep.trans ((ih _).trans ?_)
      rw [List.append_assoc, List.singleton_append]

/-- The arguments that add an input with mappings. -/
def inputArguments (input output : String) (raws : List String) : List String :=
  "generate" :: ("--input=" ++ input) :: ("--output=" ++ output) :: raws.map fun raw => "--map=" ++ raw

theorem parse_inputArguments {raws : List String} {overrides : List (String × String)}
    (h : List.Forall₂ (fun raw x => parseMapping raw = some x) raws overrides) (input output : String) :
    parse (inputArguments input output raws) =
      .ok (.generate { input := some input, output := some output, mappings := overrides }) := by
  let maps := raws.map fun raw => "--map=" ++ raw
  have hinput : parseGenerate {} none (("--input=" ++ input) :: ("--output=" ++ output) :: maps) =
      parseGenerate { input := some input } none (("--output=" ++ output) :: maps) :=
    parseGenerate_long "input" rfl rfl (by decide) input {} _
  have houtput : parseGenerate { input := some input } none (("--output=" ++ output) :: maps) =
      parseGenerate { input := some input, output := some output } none maps :=
    parseGenerate_long "output" rfl rfl (by decide) output { input := some input } _
  have hmaps := parseGenerate_mappings h { input := some input, output := some output } []
  rw [List.append_nil, List.nil_append] at hmaps
  have hcomplete : GenerateArgs.isComplete
      { input := some input, output := some output, mappings := overrides } = true := by
    simp [GenerateArgs.isComplete]
  refine hinput.trans (houtput.trans (hmaps.trans ?_))
  rw [parseGenerate, resolvePending]
  exact if_pos hcomplete

/-- What a mapping argument gives is its parts at the first equals sign, trimmed, and it gives something just
when neither of them is blank. What it gives can be written as an argument again, and so can every trimmed name
without an equals sign and every trimmed type, with blanks around both; so the arguments of a command can add
any list of such overrides to its input. -/
theorem mapping_arguments (name type : String) :
    (∀ raw, parseMapping raw = some (name, type) ↔
      ∃ before after, raw.toList = before ++ '=' :: after ∧ '=' ∉ before ∧ Visible before ∧ Visible after ∧
        name.toList = trim before ∧ type.toList = trim after) ∧
    (∀ raw, parseMapping raw = some (name, type) →
      Expressible name type ∧ parseMapping (name ++ "=" ++ type) = some (name, type)) ∧
    (Expressible name type → ∀ l r l' r' : String, Blanks l.toList → Blanks r.toList → Blanks l'.toList →
      Blanks r'.toList → parseMapping (l ++ name ++ r ++ "=" ++ l' ++ type ++ r') = some (name, type)) ∧
    ∀ (raws : List String) (overrides : List (String × String)) (input output : String),
      List.Forall₂ (fun raw x => parseMapping raw = some x) raws overrides →
      ∃ a, parse (inputArguments input output raws) = .ok (.generate a) ∧
        extraInput a = [{ input, output, mappings := OrderedMap.ofPairs overrides }] := by
  have hnone : Blanks "".toList := nofun
  refine ⟨fun raw => parseMapping_eq_some_iff, fun raw h => ?_, fun h l r l' r' => parseMapping_padded h, ?_⟩
  · have hexpressible := expressible_of_parseMapping h
    refine ⟨hexpressible, ?_⟩
    simpa using parseMapping_padded hexpressible hnone hnone hnone hnone
  · exact fun raws overrides input output h => ⟨_, parse_inputArguments h input output, rfl⟩

/-- A type with equals signs and arrows, and blanks of several kinds around it. -/
theorem mapping_arguments_arrow :
    Expressible "Step" "(x = 1) => number[]" ∧
    parseMapping "\u3000Step\t=\u00a0(x = 1) => number[]\n" = some ("Step", "(x = 1) => number[]") ∧
    ∃ a, parse ["generate", "--input=a.json", "--output=a.ts", "--map=\u3000Step\t=\u00a0(x = 1) => number[]\n"] =
        .ok (.generate a) ∧
      extraInput a = [⟨"a.json", "a.ts", [("Step", "(x = 1) => number[]")]⟩] := by
  have hblank : ∀ s, isAllBlank s = true → Blanks s.toList := fun s h => List.all_eq_true.mp h
  have hname : trim "Step".toList = "Step".toList := by decide
  have htype : trim "(x = 1) => number[]".toList = "(x = 1) => number[]".toList := by decide
  have hexpressible : Expressible "Step" "(x = 1) => number[]" :=
    ⟨by decide, by decide, hname ▸ unpadded_trim _, htype ▸ unpadded_trim _, by decide⟩
  obtain ⟨_, _, hpadded, hcommand⟩ := mapping_arguments "Step" "(x = 1) => number[]"
  have hraw := hpadded hexpressible "\u3000" "\t" "\u00a0" "\n" (hblank _ (by decide)) (hblank _ (by decide))
    (hblank _ (by decide)) (hblank _ (by decide))
  exact ⟨hexpressible, hraw, hcommand _ _ "a.json" "a.ts" (.cons hraw .nil)⟩

end TypedEndpoints.CommandLine
