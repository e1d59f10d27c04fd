import TypedEndpoints.CommandLine.Plan
import TypedEndpoints.Proofs.Build.Configuration
import TypedEndpoints.Proofs.Build.Effect
/-! From arguments to a plan. What the arguments and the files say is stated by rules: the configuration in
use, what it holds, the root, and the input that the arguments add. -/
namespace TypedEndpoints.Build

theorem Path.void_of_dropVoid {absolute : Bool} {ps : List (List Char)} (h : dropVoid absolute ps = []) :
    ∀ p ∈ ps, p = [] ∨ p = ['.'] := by
  induction ps with
  | nil =>
      intro p hp
      cases hp
  | cons q ps ih =>
      unfold dropVoid at h
      split at h
      · next hq => exact List.forall_mem_cons.mpr ⟨hq.imp_right And.left, ih h⟩
      · cases h

namespace FileSystem

theorem foldl_follow_dots {cs : List String} (h : ∀ c ∈ cs, c = ".") (here : Location) :
    cs.foldl follow here = here := by
  induction cs with
  | nil => rfl
  | cons c cs ih =>
      obtain ⟨rfl, hcs⟩ := List.forall_mem_cons.mp h
      exact ih hcs

theorem place_of_no_parent {path : String} (h : Path.parent? path = none) : place path = [] := by
  have hvoid : ∀ p ∈ Text.pieces '/' path.toList, p = [] ∨ p = ['.'] := by
    intro p hp
    cases hdrop : Path.dropVoid (Path.isAbsolute path) (Text.pieces '/' path.toList).reverse with
    | nil => exact Path.void_of_dropVoid hdrop p (List.mem_reverse.mpr hp)
    | cons q ps =>
        simp only [Path.parent?, hdrop] at h
        cases h
  refine foldl_follow_dots (fun c hc => ?_) []
  obtain ⟨p, hp, rfl⟩ := List.mem_map.mp hc
  rcases List.mem_append.mp hp with hp | hp
  · obtain ⟨hmem, hfull⟩ := List.mem_filter.mp hp
    rcases hvoid p hmem with rfl | rfl
    · cases hfull
    · rfl
  · split at hp
    · rw [List.mem_singleton.mp hp]
    · cases hp

/-- A file that can be read is in a directory. -/
theorem parent_of_readText {fs : FileSystem} {path text : String} (h : fs.readText path = .ok text) :
    ∃ dir, Path.parent? path = some dir := by
  cases hparent : Path.parent? path with
  | some dir => exact ⟨dir, rfl⟩
  | none =>
      have hroot := place_of_no_parent hparent
      unfold readText FileSystem.read at h
      cases hl : fs.locate path with
      | error e =>
          rw [hl] at h
          cases h
      | ok l =>
          rw [hl, locate_place hl, hroot] at h
          cases h

end FileSystem
end TypedEndpoints.Build

namespace TypedEndpoints.CommandLine
open Build OrderedMap

/-- Where a configuration is looked for when none is named. -/
def usualPath (cwd : String) (a : GenerateArgs) : String :=
  match a.root with
  | some root => Path.join (Path.join cwd root) configFileName
  | none => Path.join cwd configFileName

section
variable {σ : Type}

/-- The path of the configuration in use, if there is one. -/
inductive InUse (files : Files (StateM σ)) (cwd : String) (a : GenerateArgs) (s : σ) : Option String → σ → Prop
  | named {path} : a.config = some path → InUse files cwd a s (some (Path.join cwd path)) s
  | found {t} : a.config = none → (files.isFile (usualPath cwd a)).run s = (true, t) →
      InUse files cwd a s (some (usualPath cwd a)) t
  | missing {t} : a.config = none → (files.isFile (usualPath cwd a)).run s = (false, t) →
      InUse files cwd a s none t

/-- What the configuration in use holds, or why it cannot be used. -/
inductive Holds (files : Files (StateM σ)) (s : σ) : Option String → Except PlanError Config → σ → Prop
  | none : Holds files s none (.ok {}) s
  | unreadable {path fault t} : (files.readText path).run s = (.error fault, t) →
      Holds files s (some path) (.error (.access ⟨path, fault⟩)) t
  | invalid {path text e t} : (files.readText path).run s = (.ok text, t) → Config.parse text = .error e →
      Holds files s (some path) (.error (.config e)) t
  | valid {path text c t} : (files.readText path).run s = (.ok text, t) → Config.parse text = .ok c →
      Holds files s (some path) (.ok c) t

/-- The named root, or the directory of the configuration in use, or the working directory. -/
inductive RootAt (cwd : String) (a : GenerateArgs) : Option String → String → Prop
  | named {path root} : a.root = some root → RootAt cwd a path (Path.join cwd root)
  | beside {path dir} : a.root = none → Path.parent? path = some dir → RootAt cwd a (some path) dir
  | bare {path} : a.root = none → Path.parent? path = none → RootAt cwd a (some path) cwd
  | here : a.root = none → RootAt cwd a none cwd

/-- The input that the arguments add: for each name that is mapped, with its last type. -/
inductive Added (a : GenerateArgs) : List InputSpec → Prop
  | input {input output mappings} : a.input = some input → a.output = some output →
      Keeps (· = ·) a.mappings mappings → Added a [{ input, output, mappings }]
  | none : a.input = none ∨ a.output = none → Added a []

/-- A plan that keeps what the configuration holds and adds what the arguments say. -/
structure Merged (cwd : String) (a : GenerateArgs) (path : Option String) (c : Config) (plan : Plan) :
    Prop where
  inputs : ∃ added, plan.config.inputs = c.inputs ++ added ∧ Added a added
  strictRefs : plan.config.strictRefs = true ↔ c.strictRefs = true ∨ a.strictRefs = true
  nonempty : plan.config.inputs ≠ []
  root : RootAt cwd a path plan.root

inductive Resolves (files : Files (StateM σ)) (cwd : String) (a : GenerateArgs) (s : σ) :
    Except PlanError Plan → σ → Prop
  | refused {path t e u} : InUse files cwd a s path t → Holds files t path (.error e) u →
      Resolves files cwd a s (.error e) u
  | empty {path t c u} : InUse files cwd a s path t → Holds files t path (.ok c) u → c.inputs = [] →
      Added a [] → Resolves files cwd a s (.error .noInputs) u
  | planned {path t c u plan} : InUse files cwd a s path t → Holds files t path (.ok c) u →
      Merged cwd a path c plan → Resolves files cwd a s (.ok plan) u

variable {files : Files (StateM σ)} {cwd : String} {a : GenerateArgs} {path : Option String} {s t : σ}

theorem configPath_unnamed (files : Files (StateM σ)) (cwd : String) (h : a.config = none) :
    configPath files cwd a = do
      return if ← files.isFile (usualPath cwd a) then some (usualPath cwd a) else none := by
  have hpath : Path.join ((a.root.map (Path.join cwd)).getD cwd) configFileName = usualPath cwd a := by
    unfold usualPath
    cases a.root <;> rfl
  simp only [configPath, h, hpath]

theorem InUse.run (h : InUse files cwd a s path t) : (configPath files cwd a).run s = (path, t) := by
  cases h with
  | named hconfig =>
      simp only [configPath, hconfig]
      rfl
  | found hconfig hfound =>
      rw [configPath_unnamed files cwd hconfig, run_bind, hfound]
      rfl
  | missing hconfig hfound =>
      rw [configPath_unnamed files cwd hconfig, run_bind, hfound]
      rfl

theorem exists_inUse (files : Files (StateM σ)) (cwd : String) (a : GenerateArgs) (s : σ) :
    ∃ path t, InUse files cwd a s path t := by
  cases hconfig : a.config with
  | some path => exact ⟨_, s, .named hconfig⟩
  | none =>
      cases hfound : (files.isFile (usualPath cwd a)).run s with
      | mk found t =>
      cases found with
      | true => exact ⟨_, t, .found hconfig hfound⟩
      | false => exact ⟨_, t, .missing hconfig hfound⟩

/-- What is in use depends on the named configuration and the named root only. -/
theorem InUse.congr {b : GenerateArgs} (hconfig : b.config = a.config) (hroot : b.root = a.root)
    (h : InUse files cwd a s path t) : InUse files cwd b s path t := by
  have hpath : usualPath cwd a = usualPath cwd b := by rw [usualPath, usualPath, hroot]
  cases h with
  | named h => exact .named (hconfig.trans h)
  | found h hfound =>
      rw [hpath] at hfound ⊢
      exact .found (hconfig.trans h) hfound
  | missing h hfound =>
      rw [hpath] at hfound
      exact .missing (hconfig.trans h) hfound

theorem Holds.run {file : String} {r : Except PlanError Config} (h : Holds files s (some file) r t) :
    (readConfig files file).run s = (r, t) := by
  cases h with
  | unreadable hread =>
      rw [readConfig, run_bind, hread]
      rfl
  | invalid hread hparse | valid hread hparse =>
      rw [readConfig, run_bind, hread]
      simp only [hparse]
      rfl

theorem exists_holds (files : Files (StateM σ)) (s : σ) (path : Option String) :
    ∃ r t, Holds files s path r t := by
  cases path with
  | none => exact ⟨_, s, .none⟩
  | some path =>
      cases hread : (files.readText path).run s with
      | mk outcome t =>
      cases outcome with
      | error fault => exact ⟨_, t, .unreadable hread⟩
      | ok text =>
          cases hparse : Config.parse text with
          | error e => exact ⟨_, t, .invalid hread hparse⟩
          | ok c => exact ⟨_, t, .valid hread hparse⟩

theorem rootAt_rootOf (cwd : String) (a : GenerateArgs) (path : Option String) :
    RootAt cwd a path (rootOf cwd a path) := by
  unfold rootOf
  cases hroot : a.root with
  | some root => exact .named hroot
  | none =>
      cases path with
      | none => exact .here hroot
      | some path =>
          cases hparent : Path.parent? path with
          | some dir => simpa [hparent] using RootAt.beside hroot hparent
          | none => simpa [hparent] using RootAt.bare hroot hparent

theorem RootAt.eq {root : String} (h : RootAt cwd a path root) : root = rootOf cwd a path := by
  unfold rootOf
  cases h <;> simp [*]

theorem added_extraInput (a : GenerateArgs) : Added a (extraInput a) := by
  unfold extraInput
  split
  · next input output hinput houtput => exact .input hinput houtput (keeps_ofPairs_self a.mappings)
  · next hnone =>
    refine .none ?_
    cases hinput : a.input with
    | none => exact .inl rfl
    | some input =>
        refine .inr (Option.eq_none_iff_forall_ne_some.mpr fun output houtput => ?_)
        exact hnone input output hinput houtput

/-- What a configuration comes to with the arguments. -/
def merge (cwd : String) (a : GenerateArgs) (path : Option String) : Except PlanError Config → Except PlanError Plan
  | .error e => .error e
  | .ok c =>
    let c := { c with inputs := c.inputs ++ extraInput a, strictRefs := c.strictRefs || a.strictRefs }
    if c.inputs.isEmpty then .error .noInputs else .ok ⟨c, rootOf cwd a path⟩

theorem resolvePlan_run {r : Except PlanError Config} {u : σ} (h : InUse files cwd a s path t)
    (hr : Holds files t path r u) : (resolvePlan files cwd a).run s = (merge cwd a path r, u) := by
  rw [resolvePlan, run_bind, h.run]
  -- what follows is shared by both ways to get a configuration, so the way is fixed first
  cases path with
  | none =>
      cases hr
      rfl
  | some file =>
      change (readConfig files file >>= _).run t = _
      rw [run_bind, hr.run]
      cases r <;> rfl

theorem merge_ok {c : Config} {plan : Plan} (h : merge cwd a path (.ok c) = .ok plan) :
    Merged cwd a path c plan := by
  unfold merge at h
  dsimp only at h
  split at h
  · cases h
  · next hnonempty =>
    cases h
    refine ⟨⟨extraInput a, rfl, added_extraInput a⟩, Bool.or_eq_true_iff, ?_, rootAt_rootOf cwd a path⟩
    exact fun hnil => hnonempty (List.isEmpty_iff.mpr hnil)

theorem merge_noInputs {c : Config} {e : PlanError} (h : merge cwd a path (.ok c) = .error e) :
    e = .noInputs ∧ c.inputs = [] ∧ Added a [] := by
  unfold merge at h
  dsimp only at h
  split at h
  · next hempty =>
    cases h
    obtain ⟨hinputs, hextra⟩ := List.append_eq_nil_iff.mp (List.isEmpty_iff.mp hempty)
    exact ⟨rfl, hinputs, hextra ▸ added_extraInput a⟩
  · cases h

theorem resolvePlan_resolves (files : Files (StateM σ)) (cwd : String) (a : GenerateArgs) (s : σ) :
    ∃ outcome u, (resolvePlan files cwd a).run s = (outcome, u) ∧ Resolves files cwd a s outcome u := by
  obtain ⟨path, t, h⟩ := exists_inUse files cwd a s
  obtain ⟨r, u, hr⟩ := exists_holds files t path
  refine ⟨_, u, resolvePlan_run h hr, ?_⟩
  cases r with
  | error e => exact .refused h hr
  | ok c =>
      cases hmerge : merge cwd a path (.ok c) with
      | ok plan => exact .planned h hr (merge_ok hmerge)
      | error e =>
          obtain ⟨rfl, hinputs, hadded⟩ := merge_noInputs hmerge
          exact .empty h hr hinputs hadded

theorem planned_of_run {plan : Plan} {u : σ} (hrun : (resolvePlan files cwd a).run s = (.ok plan, u)) :
    ∃ path t c, InUse files cwd a s path t ∧ Holds files t path (.ok c) u ∧ Merged cwd a path c plan := by
  obtain ⟨outcome, v, hrun', h⟩ := resolvePlan_resolves files cwd a s
  cases hrun.symm.trans hrun'
  cases h with
  | planned h hc hmerged => exact ⟨_, _, _, h, hc, hmerged⟩

/-- A plan has the inputs of the configuration in use, then the one that the arguments add, and there is no
plan without inputs. A configuration that is named or found is never passed over: if it cannot be used,
there is no plan. It can be used just when it is accepted as TOML; it is then read as what it says, and no
source or output in it is blank. Nothing but the named configuration and the named root decides which
configuration is in use and what the root is. -/
theorem plan_resolution (files : Files (StateM σ)) (cwd : String) (a : GenerateArgs) (s : σ) :
    (∃ outcome u, (resolvePlan files cwd a).run s = (outcome, u) ∧ Resolves files cwd a s outcome u) ∧
    (∀ path t e u, InUse files cwd a s path t → Holds files t path (.error e) u →
      (resolvePlan files cwd a).run s = (.error e, u)) ∧
    (∀ text, (∃ c, Config.parse text = .ok c) ↔ ∃ es, Toml.parse? text.toList = some es ∧ Config.Accepts es) ∧
    (∀ text c, Config.parse text = .ok c →
      ∃ es, Toml.parse? text.toList = some es ∧ Config.ReadAs es c ∧ ∀ x ∈ c.inputs, x.Filled) ∧
    (∀ (fs : FileSystem) path text, fs.readText path = .ok text → ∃ dir, Path.parent? path = some dir) ∧
    ∀ b : GenerateArgs, b.config = a.config → b.root = a.root →
      (∀ path t, InUse files cwd b s path t ↔ InUse files cwd a s path t) ∧
      ∀ plan plan' u u', (resolvePlan files cwd a).run s = (.ok plan, u) →
        (resolvePlan files cwd b).run s = (.ok plan', u') → plan'.root = plan.root := by
  refine ⟨resolvePlan_resolves files cwd a s, fun _ _ _ _ h hr => resolvePlan_run h hr,
    fun _ => Config.exists_parse_iff, fun _ _ => Config.parse_ok,
    fun _ _ _ => FileSystem.parent_of_readText, ?_⟩
  intro b hconfig hroot
  refine ⟨fun path t => ⟨.congr hconfig.symm hroot.symm, .congr hconfig hroot⟩, ?_⟩
  intro plan plan' u u' hrun hrun'
  obtain ⟨path, t, c, h, -, hmerged⟩ := planned_of_run hrun
  obtain ⟨path', t', c', h', -, hmerged'⟩ := planned_of_run hrun'
  have hsame := (h.congr hconfig hroot).run.symm.trans h'.run
  cases hsame
  rw [hmerged.root.eq, hmerged'.root.eq, rootOf, rootOf, hroot]

end

def webConfiguration : String :=
  "[[inputs]]\ninput = \"a.json\"\noutput = \"a.ts\"\nmappings = \x7b Money = \"string\" \x7d\n"

def webFiles : FileSystem where
  entries := [(["work"], .directory), (["work", "web"], .directory),
    (["work", "web", configFileName], .file (Text.encode webConfiguration.toList))]

/-- A configuration in a directory of its own, and one more document. -/
def webArguments : GenerateArgs where
  config := some "web/openapi-fetch.toml"
  input := some "b.json"
  output := some "b.ts"
  mappings := [("Id", "string"), ("Id", "number")]

def webPlan : Plan where
  config := { inputs := [⟨"a.json", "a.ts", [("Money", "string")]⟩, ⟨"b.json", "b.ts", [("Id", "number")]⟩] }
  root := "/work/web"

theorem webConfiguration_parse :
    Config.parse webConfiguration = .ok { inputs := [⟨"a.json", "a.ts", [("Money", "string")]⟩] } := by
  decide +kernel

theorem webArguments_plan :
    (resolvePlan FileSystem.files "/work" webArguments).run webFiles = (.ok webPlan, webFiles) := by
  have hpath : Path.join "/work" "web/openapi-fetch.toml" = "/work/web/openapi-fetch.toml" := by decide
  have hread : webFiles.readText "/work/web/openapi-fetch.toml" = .ok webConfiguration := by decide +kernel
  have hinUse : InUse FileSystem.files "/work" webArguments webFiles (some "/work/web/openapi-fetch.toml") webFiles :=
    hpath ▸ .named rfl
  have hholds : Holds FileSystem.files webFiles (some "/work/web/openapi-fetch.toml") (.ok _) webFiles :=
    .valid (congrArg (·, webFiles) hread) webConfiguration_parse
  exact (resolvePlan_run hinUse hholds).trans (congrArg (·, webFiles) (by decide +kernel))

/-- The same configuration without more documents, and one that is not there. -/
def webAlone : GenerateArgs := { config := webArguments.config, strictRefs := true }

def webGone : GenerateArgs := { webArguments with config := some "gone.toml" }

theorem plan_resolution_web :
    Resolves FileSystem.files "/work" webArguments webFiles (.ok webPlan) webFiles ∧
    (∃ es, Toml.parse? webConfiguration.toList = some es ∧ Config.Accepts es) ∧
    (∀ plan u, (resolvePlan FileSystem.files "/work" webAlone).run webFiles = (.ok plan, u) →
      plan.root = "/work/web") ∧
    (resolvePlan FileSystem.files "/work" webGone).run webFiles =
      (.error (.access ⟨"/work/gone.toml", .notFound⟩), webFiles) := by
  obtain ⟨⟨outcome, u, hrun, hresolves⟩, -, haccepts, -, -, hsame⟩ :=
    plan_resolution FileSystem.files "/work" webArguments webFiles
  refine ⟨?_, (haccepts webConfiguration).mp ⟨_, webConfiguration_parse⟩, ?_, ?_⟩
  · obtain ⟨rfl, rfl⟩ := Prod.mk.inj (webArguments_plan.symm.trans hrun)
    exact hresolves
  · intro plan u hplan
    exact (hsame webAlone rfl rfl).2 webPlan plan webFiles u webArguments_plan hplan
  · have hpath : Path.join "/work" "gone.toml" = "/work/gone.toml" := by decide
    have hgone : webFiles.readText "/work/gone.toml" = .error .notFound := by decide +kernel
    have hinUse : InUse FileSystem.files "/work" webGone webFiles (some "/work/gone.toml") webFiles :=
      hpath ▸ .named rfl
    have hholds : Holds FileSystem.files webFiles (some "/work/gone.toml") (.error _) webFiles :=
      .unreadable (congrArg (·, webFiles) hgone)
    exact (plan_resolution FileSystem.files "/work" webGone webFiles).2.1 _ _ _ _ hinUse hholds

section
variable {σ : Type} {files : Files (StateM σ)} {cwd : String} {a : GenerateArgs} {path : Option String} {s t : σ}

theorem Holds.filled {c : Config} (h : Holds files s path (.ok c) t) : ∀ x ∈ c.inputs, x.Filled := by
  cases h with
  | none =>
      intro x hx
      cases hx
  | valid _ hparse =>
      obtain ⟨es, -, -, hfilled⟩ := Config.parse_ok hparse
      exact hfilled

theorem Added.mem {added : List InputSpec} (h : Added a added) {x : InputSpec} (hx : x ∈ added) : Added a [x] := by
  cases h with
  | input hinput houtput hkeeps =>
      rw [List.mem_singleton.mp hx]
      exact .input hinput houtput hkeeps
  | none => cases hx

theorem Added.filled_iff {added : List InputSpec} (h : Added a added) : (∀ x ∈ added, x.Filled) ↔
    ∀ input output, a.input = some input → a.output = some output →
      Text.trimmed input ≠ "" ∧ Text.trimmed output ≠ "" := by
  cases h with
  | input hinput houtput _ =>
      rw [List.forall_mem_singleton, InputSpec.Filled, hinput, houtput]
      constructor
      · rintro hfilled _ _ ⟨⟩ ⟨⟩
        exact hfilled
      · intro hargs
        exact hargs _ _ rfl rfl
  | none hnone =>
      refine ⟨fun _ input output hinput houtput => ?_, fun _ => List.forall_mem_nil _⟩
      rw [hinput, houtput] at hnone
      rcases hnone with h | h <;> cases h

/-- The inputs of a configuration are checked when it is read; the one that the arguments add is not. A plan
has no input with a blank source or output just when the arguments have none. -/
theorem inputs_filled_iff {plan : Plan} {u : σ} (hrun : (resolvePlan files cwd a).run s = (.ok plan, u)) :
    ((∀ x ∈ plan.config.inputs, x.Filled) ↔ ∀ input output, a.input = some input → a.output = some output →
      Text.trimmed input ≠ "" ∧ Text.trimmed output ≠ "") ∧
    ∀ x ∈ plan.config.inputs, ¬ x.Filled → Added a [x] := by
  obtain ⟨path, t, c, -, hc, hmerged⟩ := planned_of_run hrun
  obtain ⟨added, hinputs, hadded⟩ := hmerged.inputs
  have hfilled := hc.filled
  rw [hinputs, List.forall_mem_append, hadded.filled_iff]
  refine ⟨⟨And.right, fun hargs => ⟨hfilled, hargs⟩⟩, fun x hx hblank => ?_⟩
  rcases List.mem_append.mp hx with hx | hx
  · exact absurd (hfilled x hx) hblank
  · exact hadded.mem hx

end

theorem inputs_filled_iff_web :
    (resolvePlan FileSystem.files "/work" webArguments).run webFiles = (.ok webPlan, webFiles) ∧
      ∀ x ∈ webPlan.config.inputs, x.Filled := by
  refine ⟨webArguments_plan, (inputs_filled_iff webArguments_plan).1.mpr ?_⟩
  rintro _ _ ⟨⟩ ⟨⟩
  decide

/-- A source that is only a blank, where every source must be named. -/
def blankInput : GenerateArgs := { input := some " ", output := some "a.ts" }

theorem blank_input_planned :
    parse ["generate", "--input", " ", "--output", "a.ts"] = .ok (.generate blankInput) ∧
    ∃ plan u x, (resolvePlan FileSystem.files "/work" blankInput).run webFiles = (.ok plan, u) ∧
      x ∈ plan.config.inputs ∧ Text.trimmed x.input = "" := by
  have hargs : parse ["generate", "--input", " ", "--output", "a.ts"] = .ok (.generate blankInput) := by
    decide +kernel
  have hmissing : webFiles.isFile "/work/openapi-fetch.toml" = false := by decide +kernel
  have hinUse : InUse FileSystem.files "/work" blankInput webFiles none webFiles :=
    .missing rfl (congrArg (·, webFiles) hmissing)
  exact ⟨hargs, _, webFiles, _, resolvePlan_run hinUse .none, List.mem_cons_self, by decide⟩

end TypedEndpoints.CommandLine
