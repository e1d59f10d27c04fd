import TypedEndpoints.CommandLine.Execution
import TypedEndpoints.Proofs.Build.Accounting
/-! What the program makes of a build: lines for what was written and skipped, and success unless an output
could not be written. -/
namespace TypedEndpoints.CommandLine
open Build

theorem commaSeparated_eq (ss : List String) : commaSeparated ss = ", ".intercalate ss := by
  rw [commaSeparated, Text.joinWith_eq, ← String.toList_inj, String.toList_ofList, String.toList_intercalate]
  rfl

section
variable {σ : Type} {files : Files (StateM σ)} {cwd : String} {a : GenerateArgs}

inductive Concludes (files : Files (StateM σ)) (cwd : String) (a : GenerateArgs) (s : σ) :
    Execution → σ → Prop
  | unplanned {e t} : (resolvePlan files cwd a).run s = (.error e, t) →
      Concludes files cwd a s ⟨"", .failure (.plan e)⟩ t
  | refused {plan u f t} : (resolvePlan files cwd a).run s = (.ok plan, u) →
      (Build.run files plan.root plan.config).run u = (.error f, t) →
      Concludes files cwd a s ⟨"", .failure (.plugin f)⟩ t
  | reported {plan u r t} : (resolvePlan files cwd a).run s = (.ok plan, u) →
      (Build.run files plan.root plan.config).run u = (.ok r, t) →
      Concludes files cwd a s (ofReport r) t

theorem generate_concludes (files : Files (StateM σ)) (cwd : String) (a : GenerateArgs) (s : σ) :
    ∃ e t, (generate files cwd a).run s = (e, t) ∧ Concludes files cwd a s e t := by
  rw [generate, run_bind]
  cases hplan : (resolvePlan files cwd a).run s with
  | mk outcome u =>
  cases outcome with
  | error e => exact ⟨_, u, rfl, .unplanned hplan⟩
  | ok plan =>
      simp only [run_bind]
      cases hrun : (Build.run files plan.root plan.config).run u with
      | mk result t =>
      cases result with
      | error f => exact ⟨_, t, rfl, .refused hplan hrun⟩
      | ok r => exact ⟨_, t, rfl, .reported hplan hrun⟩

@[simp] theorem ofReport_code (r : Report) : (ofReport r).code = 0 ↔ r.failed = [] := by
  cases h : r.failed <;> simp [ofReport, Execution.code, h]

theorem Concludes.report {s t u v : σ} {e : Execution} {plan : Plan} {r : Report}
    (h : Concludes files cwd a s e t) (hplan : (resolvePlan files cwd a).run s = (.ok plan, u))
    (hrun : (Build.run files plan.root plan.config).run u = (.ok r, v)) : e = ofReport r ∧ t = v := by
  cases h with
  | unplanned hplan' =>
      rw [hplan] at hplan'
      cases hplan'
  | refused hplan' hrun' =>
      rw [hplan] at hplan'
      cases hplan'
      rw [hrun] at hrun'
      cases hrun'
  | reported hplan' hrun' =>
      rw [hplan] at hplan'
      cases hplan'
      rw [hrun] at hrun'
      cases hrun'
      exact ⟨rfl, rfl⟩

theorem Concludes.code {s t : σ} {e : Execution} (h : Concludes files cwd a s e t) : e.code = 0 ↔
    ∃ plan u r, (resolvePlan files cwd a).run s = (.ok plan, u) ∧
      (Build.run files plan.root plan.config).run u = (.ok r, t) ∧ r.failed = [] := by
  constructor
  · intro hcode
    cases h with
    | unplanned hplan => cases hcode
    | refused hplan hrun => cases hcode
    | reported hplan hrun => exact ⟨_, _, _, hplan, hrun, (ofReport_code _).mp hcode⟩
  · rintro ⟨plan, u, r, hplan, hrun, hfailed⟩
    obtain ⟨rfl, -⟩ := h.report hplan hrun
    exact (ofReport_code r).mpr hfailed

theorem ofReport_complaint {r : Report} (h : r.failed ≠ []) :
    (ofReport r).complaint = "Failed to write: " ++ ", ".intercalate r.failed ++ "\n" := by
  have hfailed : r.failed.isEmpty = false := List.isEmpty_eq_false_iff.mpr h
  have hending : (ofReport r).ending = .failure (.unwritten r.failed) := by
    rw [ofReport, hfailed]
    rfl
  rw [Execution.complaint, hending, ← commaSeparated_eq]
  rfl

/-- Every input of a build that finishes is accounted for in its report, and a build is refused for a
dangling reference under strict checking only. The program exits with 0 just when there is a plan, the build
of it finishes and every output could be written; it prints the report, and names the outputs that are
missing. -/
theorem execute_accounts (files : Files (StateM σ)) (cwd : String) {args : List String}
    (hargs : parse args = .ok (.generate a)) (s : σ) :
    (∀ root c u r t, (Build.run files root c).run u = (.ok r, t) → Accounted files root c u r t) ∧
    (∀ root c u f t, (Build.run files root c).run u = (.error f, t) → Refused files root c u f t) ∧
    ∃ e t, (execute files cwd args).run s = (e, t) ∧
      (e.code = 0 ↔ ∃ plan u r, (resolvePlan files cwd a).run s = (.ok plan, u) ∧
        (Build.run files plan.root plan.config).run u = (.ok r, t) ∧ r.failed = []) ∧
      ∀ plan u r v, (resolvePlan files cwd a).run s = (.ok plan, u) →
        (Build.run files plan.root plan.config).run u = (.ok r, v) →
        e.output = String.join (r.generated.map (fun p => "generated " ++ p ++ "\n") ++
          r.skipped.map fun x => "skipped " ++ x ++ "\n") ∧
        (r.failed ≠ [] → e.complaint = "Failed to write: " ++ ", ".intercalate r.failed ++ "\n") := by
  refine ⟨fun _ _ _ _ _ => run_accounted, fun _ _ _ _ _ => run_refused, ?_⟩
  obtain ⟨e, t, hrun, hends⟩ := generate_concludes files cwd a s
  refine ⟨e, t, ?_, hends.code, ?_⟩
  · rw [execute, hargs]
    exact hrun
  · intro plan u r v hplan hbuild
    obtain ⟨rfl, -⟩ := hends.report hplan hbuild
    exact ⟨rfl, ofReport_complaint⟩

end

/-- The file `a.json` is there and `b.json` is not. -/
def twoInputs : String :=
  "strict_refs = true\n[[inputs]]\ninput = \"b.json\"\noutput = \"b.ts\"\n" ++
    "[[inputs]]\ninput = \"a.json\"\noutput = \"out.ts\"\n"

def configuredDocument : FileSystem where
  entries := soleDocument.entries ++
    [(["work", configFileName], .file (Text.encode twoInputs.toList))]

/-- One more input, with another spelling of an output of the configuration. -/
def anotherInput : GenerateArgs := { input := some "a.json", output := some "./out.ts" }

def anotherArguments : List String := ["generate", "--input", "a.json", "--output", "./out.ts"]

/-- A disk that is full when the output is written again. -/
def closedDisk : Files (StateM (FileSystem × Nat)) :=
  FileSystem.files.failing (fun n => if n = 8 then some (.other "no space left") else none) fun _ _ => none

theorem anotherInput_plan : ((resolvePlan closedDisk "/work" anotherInput).run (configuredDocument, 0)).1 =
    .ok ⟨threeInputs, "/work"⟩ := by
  decide +kernel

theorem threeInputs_closedDisk : ((Build.run closedDisk "/work" threeInputs).run
    ((resolvePlan closedDisk "/work" anotherInput).run (configuredDocument, 0)).2).1 =
    .ok ⟨["/work/out.ts"], ["b.json"], ["./out.ts"]⟩ := by
  decide +kernel

theorem execute_accounts_closedDisk : parse anotherArguments = .ok (.generate anotherInput) ∧
    ∃ e t, (execute closedDisk "/work" anotherArguments).run (configuredDocument, 0) = (e, t) ∧ e.code ≠ 0 ∧
      e.output = "generated /work/out.ts\nskipped b.json\n" ∧
      e.complaint = "Failed to write: ./out.ts\n" := by
  have hargs : parse anotherArguments = .ok (.generate anotherInput) := by decide +kernel
  refine ⟨hargs, ?_⟩
  obtain ⟨-, -, e, t, hrun, hcode, hreport⟩ :=
    execute_accounts closedDisk "/work" hargs (configuredDocument, 0)
  have hplan := anotherInput_plan
  have hbuild := threeInputs_closedDisk
  cases hp : (resolvePlan closedDisk "/work" anotherInput).run (configuredDocument, 0) with
  | mk outcome u =>
  rw [hp] at hplan hbuild
  cases hb : (Build.run closedDisk "/work" threeInputs).run u with
  | mk result v =>
  rw [hb] at hbuild
  dsimp only at hplan hbuild
  subst hplan hbuild
  obtain ⟨houtput, hcomplaint⟩ := hreport _ _ _ _ hp hb
  refine ⟨e, t, hrun, ?_, houtput.trans (by decide), (hcomplaint (by decide)).trans (by decide)⟩
  rw [ne_eq, hcode]
  rintro ⟨plan, w, r, hplan', hbuild', hfailed⟩
  rw [hp] at hplan'
  cases hplan'
  rw [hb] at hbuild'
  cases hbuild'
  cases hfailed

end TypedEndpoints.CommandLine
