import TypedEndpoints.Build.Run
import TypedEndpoints.Proofs.Build.Frame
/-! What a build does to files. A build is a sequence of turns, one for each input it comes to; the
content of a file afterwards is that of the last turn that wrote it. -/
namespace TypedEndpoints.Build
open OpenApi Generation

theorem run_bind {σ α β : Type} (x : StateM σ α) (f : α → StateM σ β) (s : σ) :
    (x >>= f).run s = (f (x.run s).1).run (x.run s).2 := rfl

section
variable {σ ι : Type} {files : Files (StateM σ)} {file : String → ι} {content : σ → ι → Option Bytes}

def writeTarget (files : Files (StateM σ)) (target text : String) :
    StateM σ (Except AccessError String) := do
  match ← files.writeText target text with
  | .ok () => return .ok target
  | .error e => return .error ⟨target, e⟩

/-- Parents come first; then the file is written, unless they cannot be made. -/
theorem writeOutput_cases (root output text : String) (s : σ) :
    ∃ t, (t = s ∨ ∃ parent, t = ((files.makeDirs parent).run s).2) ∧
      ((∃ e, (writeOutput files root output text).run s = (.error e, t)) ∨
        (writeOutput files root output text).run s =
          (writeTarget files (Path.join root output) text).run t) := by
  rw [writeOutput]
  cases Path.parent? (Path.join root output) with
  | none => exact ⟨s, .inl rfl, .inr rfl⟩
  | some parent =>
      refine ⟨((files.makeDirs parent).run s).2, .inr ⟨parent, rfl⟩, ?_⟩
      simp only [run_bind]
      cases ((files.makeDirs parent).run s).1 with
      | error e => exact .inl ⟨_, rfl⟩
      | ok _ => exact .inr rfl

/-- What is answered is the path of the output, seen from the root. -/
theorem writeOutput_path {root output text path : String} {s t : σ}
    (h : (writeOutput files root output text).run s = (.ok path, t)) : path = Path.join root output := by
  obtain ⟨u, -, ⟨e, hrun⟩ | hrun⟩ := writeOutput_cases root output text s
  · rw [hrun] at h
    cases h
  · rw [hrun, writeTarget, run_bind] at h
    split at h
    · cases h
      rfl
    · cases h

namespace Files.Frame
variable (h : files.Frame file content)
include h

theorem sourceText (root source : String) (s : σ) :
    content ((sourceText files root source).run s).2 = content s := by
  unfold Build.sourceText
  split
  · exact h.fetchText source s
  · exact h.readText (Path.join root source) s

theorem loaded {root source : String} {s t : σ} {doc : Option Document}
    (hload : (loadDocument files root source).run s = (doc, t)) : content t = content s := by
  rw [loadDocument, run_bind] at hload
  rw [← h.sourceText root source s]
  split at hload <;> cases hload <;> rfl

/-- Whatever the parents come to, no content has changed by then. -/
theorem parents (root output text : String) (s : σ) : ∃ t, content t = content s ∧
    ((∃ e, (writeOutput files root output text).run s = (.error e, t)) ∨
      (writeOutput files root output text).run s =
        (writeTarget files (Path.join root output) text).run t) := by
  obtain ⟨t, ht, hrun⟩ := writeOutput_cases root output text s
  refine ⟨t, ?_, hrun⟩
  rcases ht with rfl | ⟨parent, rfl⟩
  · rfl
  · exact h.makeDirs parent s

/-- A write that fails changes nothing; one that succeeds changes the file at its path only. -/
theorem writeTarget (target text : String) (s : σ) :
    (∃ e t, (writeTarget files target text).run s = (.error e, t) ∧ content t = content s) ∨
      ∃ t, (writeTarget files target text).run s = (.ok target, t) ∧
        content t (file target) = some (Text.encode text.toList) ∧
        ∀ i, i ≠ file target → content t i = content s i := by
  rw [Build.writeTarget]
  simp only [run_bind]
  cases hr : ((files.writeText target text).run s).1 with
  | error e => exact .inl ⟨_, _, rfl, h.refused target text s e hr⟩
  | ok _ => exact .inr ⟨_, rfl, h.written target text s hr, h.others target text s⟩

theorem writeOutput (root output text : String) (s : σ) :
    (∃ e t, (writeOutput files root output text).run s = (.error e, t) ∧ content t = content s) ∨
      ∃ t, (writeOutput files root output text).run s = (.ok (Path.join root output), t) ∧
        content t (file (Path.join root output)) = some (Text.encode text.toList) ∧
        ∀ i, i ≠ file (Path.join root output) → content t i = content s i := by
  obtain ⟨t, hsame, ⟨e, hrun⟩ | hrun⟩ := h.parents root output text s
  · exact .inl ⟨e, t, hrun, hsame⟩
  · rw [hrun, ← hsame]
    exact h.writeTarget (Path.join root output) text t

theorem unwritten_output {root output text : String} {s t : σ} {e : AccessError}
    (hwrite : (Build.writeOutput files root output text).run s = (.error e, t)) :
    content t = content s := by
  rcases h.writeOutput root output text s with ⟨e', u, hrun, hsame⟩ | ⟨u, hrun, -⟩
  · rw [hrun] at hwrite
    cases hwrite
    exact hsame
  · rw [hrun] at hwrite
    cases hwrite

theorem written_output {root output text path : String} {s t : σ}
    (hwrite : (Build.writeOutput files root output text).run s = (.ok path, t)) :
    content t (file (Path.join root output)) = some (Text.encode text.toList) ∧
      ∀ i, i ≠ file (Path.join root output) → content t i = content s i := by
  rcases h.writeOutput root output text s with ⟨e, u, hrun, -⟩ | ⟨u, hrun, hcontent, hothers⟩
  · rw [hrun] at hwrite
    cases hwrite
  · rw [hrun] at hwrite
    cases hwrite
    exact ⟨hcontent, hothers⟩

end Files.Frame
end

inductive Turn where
  | skipped
  | rejected (e : GenerateError)
  | unwritten (text : String)
  | written (text : String)

/-- What a turn answers: the step it adds to the report, or the failure that ends the build. -/
def Turn.answer (root : String) (x : InputSpec) : Turn → Except PluginFailure Step
  | .skipped => .ok (.skipped x.input)
  | .rejected e => .error ⟨x.input, e⟩
  | .unwritten _ => .ok (.failed x.output)
  | .written _ => .ok (.generated (Path.join root x.output))

section
variable {σ ι : Type} (files : Files (StateM σ)) (root : String) (strict : Bool)

/-- The turn of an input, from one state to another. Its document is the one loaded in the state it
finds, its text the one generated with its own mappings. -/
inductive Taken (x : InputSpec) : σ → Turn → σ → Prop
  | skipped {s t} : (loadDocument files root x.input).run s = (none, t) → Taken x s .skipped t
  | rejected {s t d e} : (loadDocument files root x.input).run s = (some d, t) →
      generate strict (Overrides.withMappings x.mappings) d = .error e → Taken x s (.rejected e) t
  | unwritten {s t u d text e} : (loadDocument files root x.input).run s = (some d, t) →
      generate strict (Overrides.withMappings x.mappings) d = .ok text →
      (writeOutput files root x.output text).run t = (.error e, u) → Taken x s (.unwritten text) u
  | written {s t u d text path} : (loadDocument files root x.input).run s = (some d, t) →
      generate strict (Overrides.withMappings x.mappings) d = .ok text →
      (writeOutput files root x.output text).run t = (.ok path, u) → Taken x s (.written text) u

/-- Turns one after another. -/
inductive History : σ → List (InputSpec × Turn) → σ → Prop
  | nil {s} : History s [] s
  | cons {s t u x turn rest} : Taken files root strict x s turn t → History t rest u →
      History s ((x, turn) :: rest) u

variable {files root strict} {file : String → ι} {content : σ → ι → Option Bytes}

theorem compileInput_taken (files : Files (StateM σ)) (root : String) (strict : Bool)
    (x : InputSpec) (s : σ) :
    ∃ turn t, Taken files root strict x s turn t ∧
      (compileInput files root strict x).run s = (turn.answer root x, t) := by
  rw [compileInput, run_bind]
  cases hload : (loadDocument files root x.input).run s with
  | mk doc t =>
  cases doc with
  | none => exact ⟨.skipped, t, .skipped hload, rfl⟩
  | some d =>
      simp only
      cases hgen : generate strict (Overrides.withMappings x.mappings) d with
      | error e => exact ⟨.rejected e, t, .rejected hload hgen, rfl⟩
      | ok text =>
          simp only [run_bind]
          cases hwrite : (writeOutput files root x.output text).run t with
          | mk outcome u =>
          cases outcome with
          | error e => exact ⟨.unwritten text, u, .unwritten hload hgen hwrite, rfl⟩
          | ok path =>
              refine ⟨.written text, u, .written hload hgen hwrite, ?_⟩
              rw [writeOutput_path hwrite]
              rfl

/-- A turn changes no content but that of the file it writes. -/
theorem Taken.unchanged (h : files.Frame file content) {x : InputSpec} {s t : σ} {turn : Turn}
    (ht : Taken files root strict x s turn t) {i : ι}
    (hi : ∀ text, turn = .written text → file (Path.join root x.output) ≠ i) :
    content t i = content s i := by
  cases ht with
  | skipped hload => rw [h.loaded hload]
  | rejected hload _ => rw [h.loaded hload]
  | unwritten hload _ hwrite => rw [h.unwritten_output hwrite, h.loaded hload]
  | written hload _ hwrite =>
      have hne : i ≠ file (Path.join root x.output) := Ne.symm (hi _ rfl)
      rw [(h.written_output hwrite).2 i hne, h.loaded hload]

theorem Taken.content_written (h : files.Frame file content) {x : InputSpec} {s t : σ} {text : String}
    (ht : Taken files root strict x s (.written text) t) :
    content t (file (Path.join root x.output)) = some (Text.encode text.toList) := by
  cases ht with
  | written _ _ hwrite => exact (h.written_output hwrite).1

def Writes (file : String → ι) (root : String) (i : ι) (y : InputSpec × Turn) : Prop :=
  file (Path.join root y.1.output) = i ∧ ∃ text, y.2 = .written text

theorem History.unchanged (h : files.Frame file content) {s t : σ} {history : List (InputSpec × Turn)}
    (ht : History files root strict s history t) {i : ι} (hi : ∀ y ∈ history, ¬ Writes file root i y) :
    content t i = content s i := by
  induction ht with
  | nil => rfl
  | @cons s t u x turn rest hx _ ih =>
      have hturn : content t i = content s i := by
        refine hx.unchanged h fun text htext hfile => ?_
        exact hi (x, turn) List.mem_cons_self ⟨hfile, text, htext⟩
      rw [ih fun y hy => hi y (List.mem_cons_of_mem _ hy), hturn]

theorem History.split {s u : σ} {before after : List (InputSpec × Turn)}
    (h : History files root strict s (before ++ after) u) :
    ∃ t, History files root strict s before t ∧ History files root strict t after u := by
  induction before generalizing s with
  | nil => exact ⟨s, .nil, h⟩
  | cons y before ih =>
      cases h with
      | cons hy hrest =>
          obtain ⟨t, hbefore, hafter⟩ := ih hrest
          exact ⟨t, .cons hy hbefore, hafter⟩

/-- The last turn that writes a file determines what is in it. -/
theorem History.last_write (h : files.Frame file content) {s t : σ} {x : InputSpec} {text : String}
    {before after : List (InputSpec × Turn)}
    (ht : History files root strict s (before ++ (x, .written text) :: after) t)
    (hlast : ∀ y ∈ after, ¬ Writes file root (file (Path.join root x.output)) y) :
    content t (file (Path.join root x.output)) = some (Text.encode text.toList) := by
  obtain ⟨u, -, hrest⟩ := ht.split
  cases hrest with
  | cons hx hafter => rw [hafter.unchanged h hlast, hx.content_written h]

def Report.record (root : String) (r : Report) (y : InputSpec × Turn) : Report :=
  match y.2.answer root y.1 with
  | .ok step => r.add step
  | .error _ => r

/-- How a build ends: after a turn for every input, or with the first that is rejected. Turns end the
build under strict checking only. -/
inductive Ends (root : String) (strict : Bool) (inputs : List InputSpec) (r : Report) :
    List (InputSpec × Turn) → Except PluginFailure Report → Prop
  | finished {history} : history.map Prod.fst = inputs → (∀ y ∈ history, ∀ e, y.2 ≠ .rejected e) →
      Ends root strict inputs r history (.ok (history.foldl (Report.record root) r))
  | rejected {before x e after} : strict = true → inputs = before.map Prod.fst ++ x :: after →
      (∀ y ∈ before, ∀ e, y.2 ≠ .rejected e) →
      Ends root strict inputs r (before ++ [(x, .rejected e)]) (.error ⟨x.input, e⟩)

theorem Ends.cons {x : InputSpec} {xs : List InputSpec} {r : Report} {turn : Turn} {step : Step}
    {history : List (InputSpec × Turn)} {result : Except PluginFailure Report}
    (hstep : turn.answer root x = .ok step) (h : Ends root strict xs (r.add step) history result) :
    Ends root strict (x :: xs) r ((x, turn) :: history) result := by
  have hturn : ∀ e, turn ≠ .rejected e := by
    rintro e rfl
    cases hstep
  have hr : Report.record root r (x, turn) = r.add step := by rw [Report.record, hstep]
  cases h with
  | finished hinputs hnone =>
      rw [← hr, ← List.foldl_cons]
      refine .finished (by rw [List.map_cons, hinputs]) ?_
      exact List.forall_mem_cons.mpr ⟨hturn, hnone⟩
  | rejected hstrict hinputs hnone =>
      rw [← List.cons_append]
      refine .rejected hstrict (by rw [hinputs]; rfl) ?_
      exact List.forall_mem_cons.mpr ⟨hturn, hnone⟩

theorem Ends.inputs {xs : List InputSpec} {r : Report} {history : List (InputSpec × Turn)}
    {result : Except PluginFailure Report} (h : Ends root strict xs r history result)
    {y : InputSpec × Turn} (hy : y ∈ history) : y.1 ∈ xs := by
  cases h with
  | finished hinputs _ =>
      rw [← hinputs]
      exact List.mem_map_of_mem hy
  | rejected _ hinputs _ =>
      rw [hinputs]
      rcases List.mem_append.mp hy with hy | hy
      · exact List.mem_append_left _ (List.mem_map_of_mem hy)
      · rw [List.mem_singleton.mp hy]
        exact List.mem_append_right _ List.mem_cons_self

theorem Taken.strict_of_rejected {x : InputSpec} {s t : σ} {e : GenerateError}
    (h : Taken files root strict x s (.rejected e) t) : strict = true := by
  cases h with
  | rejected _ hgen =>
      cases strict with
      | true => rfl
      | false => cases hgen

theorem compileAll_history (files : Files (StateM σ)) (root : String) (strict : Bool)
    (xs : List InputSpec) (r : Report) (s : σ) :
    ∃ history t result, (compileAll files root strict xs r).run s = (result, t) ∧
      History files root strict s history t ∧ Ends root strict xs r history result := by
  induction xs generalizing r s with
  | nil => exact ⟨[], s, .ok r, rfl, .nil, .finished rfl (by simp)⟩
  | cons x xs ih =>
      obtain ⟨turn, t, hturn, hrun⟩ := compileInput_taken files root strict x s
      rw [compileAll, run_bind, hrun]
      cases hanswer : turn.answer root x with
      | error failure =>
          -- no turn but a rejection answers with a failure
          cases turn with
          | rejected e =>
              cases hanswer
              have hends : Ends root strict (x :: xs) r ([] ++ [(x, .rejected e)])
                  (.error ⟨x.input, e⟩) :=
                .rejected hturn.strict_of_rejected rfl (by simp)
              exact ⟨_, t, _, rfl, .cons hturn .nil, hends⟩
          | skipped | unwritten | written => cases hanswer
      | ok step =>
          obtain ⟨history, u, result, hrest, hhistory, hends⟩ := ih (r.add step) t
          exact ⟨(x, turn) :: history, u, result, hrest, .cons hturn hhistory, hends.cons hanswer⟩

/-- What a build leaves behind. It takes inputs in turn up to the end or to the first that strict
checking rejects; a file that some turn wrote holds the text of the last one that did, every other file
what it held before, and a turn that writes nothing changes no file. -/
theorem run_effect (h : files.Frame file content) (root : String) (c : Config) (s : σ) :
    ∃ history t result, (Build.run files root c).run s = (result, t) ∧
      History files root c.strictRefs s history t ∧
      Ends root c.strictRefs c.inputs {} history result ∧
      (∀ before x text after, history = before ++ (x, .written text) :: after →
        (∀ y ∈ after, ¬ Writes file root (file (Path.join root x.output)) y) →
        content t (file (Path.join root x.output)) = some (Text.encode text.toList)) ∧
      (∀ i, (∀ y ∈ history, ¬ Writes file root i y) → content t i = content s i) ∧
      ∀ x a turn b, Taken files root c.strictRefs x a turn b → (∀ text, turn ≠ .written text) →
        content b = content a := by
  obtain ⟨history, t, result, hrun, hhistory, hends⟩ :=
    compileAll_history files root c.strictRefs c.inputs {} s
  refine ⟨history, t, result, hrun, hhistory, hends, ?_, ?_, ?_⟩
  · rintro before x text after rfl hlast
    exact hhistory.last_write h hlast
  · intro i hi
    exact hhistory.unchanged h hi
  · intro x a turn b hturn hnone
    funext i
    exact hturn.unchanged h fun text htext => absurd htext (hnone text)

end

/-- A document in a directory of its own. -/
def soleDocument : FileSystem where
  entries := [(["work"], .directory),
    (["work", "a.json"], .file (Text.encode "\x7b\"paths\":\x7b\x7d\x7d".toList))]

/-- An input that is not there, and one document for two spellings of one output. -/
def threeInputs : Config where
  inputs := [⟨"b.json", "b.ts", []⟩, ⟨"a.json", "out.ts", []⟩, ⟨"a.json", "./out.ts", []⟩]
  strictRefs := true

/-- A disk that is full when the output is written again. -/
def fullDisk : Files (StateM (FileSystem × Nat)) :=
  FileSystem.files.failing (fun n => if n = 6 then some (.other "no space left") else none)
    fun _ _ => none

theorem threeInputs_report : ((Build.run fullDisk "/work" threeInputs).run (soleDocument, 0)).1.toOption =
    some ⟨["/work/out.ts"], ["b.json"], ["./out.ts"]⟩ := by
  decide +kernel

theorem threeInputs_outputs : ∀ x ∈ threeInputs.inputs,
    FileSystem.place (Path.join "/work" x.output) ≠ ["work", "a.json"] := by
  decide +kernel

theorem run_effect_threeInputs : fullDisk.Frame FileSystem.place (fun x => x.1.content) ∧
    ∃ history t result, (Build.run fullDisk "/work" threeInputs).run (soleDocument, 0) = (result, t) ∧
      result.toOption = some ⟨["/work/out.ts"], ["b.json"], ["./out.ts"]⟩ ∧
      History fullDisk "/work" true (soleDocument, 0) history t ∧
      t.1.content ["work", "a.json"] = soleDocument.content ["work", "a.json"] := by
  have hframe : fullDisk.Frame FileSystem.place (fun x => x.1.content) :=
    FileSystem.files_frame.failing _ _
  refine ⟨hframe, ?_⟩
  obtain ⟨history, t, result, hrun, hhistory, hends, -, hothers, -⟩ :=
    run_effect hframe "/work" threeInputs (soleDocument, 0)
  have hreport := threeInputs_report
  rw [hrun] at hreport
  refine ⟨history, t, result, hrun, hreport, hhistory, hothers _ ?_⟩
  rintro y hy ⟨hplace, -⟩
  exact threeInputs_outputs y.1 (hends.inputs hy) hplace

end TypedEndpoints.Build
