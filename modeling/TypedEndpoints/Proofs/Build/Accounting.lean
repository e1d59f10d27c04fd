import TypedEndpoints.Proofs.Build.Effect
import TypedEndpoints.Proofs.Generation.FirstReference
import Mathlib.Data.List.Induction
/-! The report of a build. After each turn its lists are those of the turns so far, so at the end every
input is in one of them; a build that ends early has met a dangling reference under strict checking. -/
namespace TypedEndpoints.Build
open OpenApi Generation

namespace Turn

def isSkipped : Turn → Bool
  | .skipped => true
  | _ => false

def isUnwritten : Turn → Bool
  | .unwritten _ => true
  | _ => false

def isWritten : Turn → Bool
  | .written _ => true
  | _ => false

theorem kinds {turn : Turn} (h : ∀ e, turn ≠ .rejected e) :
    (if turn.isWritten then 1 else 0) + (if turn.isSkipped then 1 else 0) +
      (if turn.isUnwritten then 1 else 0) = 1 := by
  cases turn with
  | rejected e => exact absurd rfl (h e)
  | skipped | unwritten | written => rfl

end Turn

def reportOf (root : String) (history : List (InputSpec × Turn)) : Report where
  generated := (history.filter fun y => y.2.isWritten).map fun y => Path.join root y.1.output
  skipped := (history.filter fun y => y.2.isSkipped).map fun y => y.1.input
  failed := (history.filter fun y => y.2.isUnwritten).map fun y => y.1.output

theorem reportOf_snoc (root : String) (history : List (InputSpec × Turn)) (y : InputSpec × Turn) :
    reportOf root (history ++ [y]) = Report.record root (reportOf root history) y := by
  obtain ⟨x, turn⟩ := y
  cases turn <;>
    simp [reportOf, Report.record, Turn.answer, Report.add, Turn.isWritten, Turn.isSkipped, Turn.isUnwritten]

theorem foldl_record (root : String) (history : List (InputSpec × Turn)) :
    history.foldl (Report.record root) {} = reportOf root history := by
  -- on the last turn, which adds to the end of one list
  induction history using List.reverseRecOn with
  | nil => rfl
  | append_singleton history y ih =>
      rw [List.foldl_append, ih, reportOf_snoc]
      rfl

theorem reportOf_lengths (root : String) {history : List (InputSpec × Turn)}
    (h : ∀ y ∈ history, ∀ e, y.2 ≠ .rejected e) :
    (reportOf root history).generated.length + (reportOf root history).skipped.length +
      (reportOf root history).failed.length = history.length := by
  simp only [reportOf, List.length_map, ← List.countP_eq_length_filter]
  induction history with
  | nil => rfl
  | cons y history ih =>
      have hrest := ih fun y hy => h y (List.mem_cons_of_mem _ hy)
      have hkind := Turn.kinds (h y List.mem_cons_self)
      rw [List.countP_cons, List.countP_cons, List.countP_cons, List.length_cons]
      omega

section
variable {σ : Type} (files : Files (StateM σ)) (root : String) (c : Config)

/-- Each input has its turn, and is in the list of the report that its turn belongs to. -/
def Accounted (s : σ) (r : Report) (t : σ) : Prop :=
  ∃ history, History files root c.strictRefs s history t ∧ history.map Prod.fst = c.inputs ∧
    (∀ y ∈ history, ∀ e, y.2 ≠ .rejected e) ∧ r = reportOf root history ∧
    r.generated.length + r.skipped.length + r.failed.length = c.inputs.length

/-- Under strict checking an input in its turn had a document in which something dangles. -/
def Refused (s : σ) (f : PluginFailure) (t : σ) : Prop :=
  c.strictRefs = true ∧ ∃ before x after u d a r, c.inputs = before.map Prod.fst ++ x :: after ∧
    History files root c.strictRefs s before u ∧
    (loadDocument files root x.input).run u = (some d, t) ∧ Dangles d a r ∧ f = ⟨x.input, .unresolved r⟩

theorem run_ended (s : σ) : ∃ history t result, (Build.run files root c).run s = (result, t) ∧
    History files root c.strictRefs s history t ∧ Ends root c.strictRefs c.inputs {} history result :=
  compileAll_history files root c.strictRefs c.inputs {} s

variable {files root c}

theorem run_accounted {s t : σ} {r : Report} (h : (Build.run files root c).run s = (.ok r, t)) :
    Accounted files root c s r t := by
  obtain ⟨history, u, result, hrun, hhistory, hends⟩ := run_ended files root c s
  rw [hrun] at h
  cases h
  cases hends with
  | finished hinputs hnone =>
      have hlengths := reportOf_lengths root hnone
      rw [foldl_record]
      refine ⟨history, hhistory, hinputs, hnone, rfl, ?_⟩
      rw [hlengths, ← hinputs, List.length_map]

theorem Taken.dangles {strict : Bool} {x : InputSpec} {s t : σ} {e : GenerateError}
    (h : Taken files root strict x s (.rejected e) t) :
    ∃ d a r, (loadDocument files root x.input).run s = (some d, t) ∧ Dangles d a r ∧ e = .unresolved r := by
  have hstrict := h.strict_of_rejected
  subst hstrict
  cases h with
  | rejected hload hgen =>
      rename_i d
      obtain ⟨r, rfl, hr⟩ := generate_strict_error.mp hgen
      obtain ⟨a, ha, -⟩ := (dangling_enumerates d).head?.mp hr
      exact ⟨d, a, r, hload, ha, rfl⟩

theorem run_refused {s t : σ} {f : PluginFailure} (h : (Build.run files root c).run s = (.error f, t)) :
    Refused files root c s f t := by
  obtain ⟨history, u, result, hrun, hhistory, hends⟩ := run_ended files root c s
  rw [hrun] at h
  cases h
  cases hends with
  | @rejected before x e after hstrict hinputs hnone =>
      obtain ⟨v, hbefore, hlast⟩ := hhistory.split
      cases hlast with
      | cons hturn hnil =>
          cases hnil
          obtain ⟨d, a, r, hload, hdangles, rfl⟩ := hturn.dangles
          exact ⟨hstrict, before, x, after, v, d, a, r, hinputs, hbefore, hload, hdangles, rfl⟩

end
end TypedEndpoints.Build
