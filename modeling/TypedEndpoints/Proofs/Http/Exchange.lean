import Mathlib.Tactic.Choose
import TypedEndpoints.Http.Script
import TypedEndpoints.Proofs.Http.Settling
/-! Calls that wait for the answers of their transport, and what an interceptor may make of the outcomes of
its own runs. -/
namespace TypedEndpoints

abbrev Answer := Except String RawResponse

/-- What a computation does next once it has received some answers: it sends a request and waits for the
answer, or it is done. -/
def Exchange (α : Type) := List Answer → SentRequest ⊕ α

namespace Exchange
variable {α β γ : Type}

def next (x : Exchange α) : SentRequest ⊕ α := x []

def after (x : Exchange α) (a : Answer) : Exchange α := fun answers => x (a :: answers)

def ask (q : SentRequest) : Exchange Answer
  | [] => .inl q
  | a :: _ => .inr a

/-- The answers go to the first computation until it is done, and the others to the second. -/
def bindAt (f : α → Exchange β) : List Answer → Exchange α → SentRequest ⊕ β
  | [], x =>
    match x.next with
    | .inl q => .inl q
    | .inr v => f v []
  | a :: answers, x =>
    match x.next with
    | .inl _ => bindAt f answers (x.after a)
    | .inr v => f v (a :: answers)

instance : Monad Exchange where
  pure v := fun _ => .inr v
  bind x f := fun answers => bindAt f answers x

@[simp] theorem next_pure (v : α) : (pure v : Exchange α).next = .inr v := rfl

theorem bind_done {x : Exchange α} {v : α} (h : x.next = .inr v) (f : α → Exchange β) :
    x >>= f = f v := by
  funext answers
  change bindAt f answers x = f v answers
  cases answers with
  | nil => rw [bindAt, h]
  | cons a answers => rw [bindAt, h]

theorem next_bind {x : Exchange α} {q : SentRequest} (h : x.next = .inl q) (f : α → Exchange β) :
    (x >>= f).next = .inl q := by
  change bindAt f [] x = .inl q
  rw [bindAt, h]

theorem after_bind {x : Exchange α} {q : SentRequest} (h : x.next = .inl q) (f : α → Exchange β)
    (a : Answer) : (x >>= f).after a = x.after a >>= f := by
  funext answers
  change bindAt f (a :: answers) x = bindAt f answers (x.after a)
  rw [bindAt, h]

theorem pure_bind (v : α) (f : α → Exchange β) : pure v >>= f = f v := bind_done (next_pure v) f

theorem bind_assoc (x : Exchange α) (f : α → Exchange β) (g : β → Exchange γ) :
    x >>= f >>= g = x >>= fun v => f v >>= g := by
  funext answers
  induction answers generalizing x with
  | nil =>
      cases h : x.next with
      | inr v => rw [bind_done h, bind_done h]
      | inl q => exact (next_bind (next_bind h f) g).trans (next_bind h _).symm
  | cons a answers ih =>
      cases h : x.next with
      | inr v => rw [bind_done h, bind_done h]
      | inl q =>
          have hleft : (x >>= f >>= g).after a = x.after a >>= f >>= g := by
            rw [after_bind (next_bind h f), after_bind h]
          have hright := after_bind h (fun v => f v >>= g) a
          calc (x >>= f >>= g) (a :: answers)
              = (x.after a >>= f >>= g) answers := congrFun hleft answers
            _ = (x.after a >>= fun v => f v >>= g) answers := ih (x.after a)
            _ = (x >>= fun v => f v >>= g) (a :: answers) := (congrFun hright answers).symm

/-- The requests that a computation sends and the value it ends with, run by itself with these answers. -/
def alone : List Answer → Exchange α → List SentRequest × Option α
  | [], x =>
    match x.next with
    | .inl q => ([q], none)
    | .inr v => ([], some v)
  | a :: answers, x =>
    match x.next with
    | .inl q => (q :: (alone answers (x.after a)).1, (alone answers (x.after a)).2)
    | .inr v => ([], some v)

theorem alone_done {x : Exchange α} {v : α} (h : x.next = .inr v) (answers : List Answer) :
    x.alone answers = ([], some v) := by
  cases answers with
  | nil => rw [alone, h]
  | cons a answers => rw [alone, h]

theorem alone_nil {x : Exchange α} {q : SentRequest} (h : x.next = .inl q) :
    x.alone [] = ([q], none) := by
  rw [alone, h]

theorem alone_cons {x : Exchange α} {q : SentRequest} (h : x.next = .inl q) (a : Answer)
    (answers : List Answer) :
    x.alone (a :: answers) =
      (q :: ((x.after a).alone answers).1, ((x.after a).alone answers).2) := by
  rw [alone, h]

end Exchange

def Transport.suspending : Transport Exchange := ⟨Exchange.ask⟩

namespace Exchange

theorem run_bind_pure (d : Descriptor) :
    Transport.suspending.run d >>= pure = Transport.suspending.run d := by
  rw [Transport.run_eq, bind_assoc]
  exact congrArg (Transport.suspending.send d.prepare >>= ·) (funext fun a => pure_bind _ _)

@[simp] theorem next_run (d : Descriptor) (f : Outcome → Exchange β) :
    (Transport.suspending.run d >>= f).next = .inl d.prepare := by
  rw [Transport.run_eq, bind_assoc]
  exact next_bind rfl _

@[simp] theorem after_run (d : Descriptor) (f : Outcome → Exchange β) (a : Answer) :
    (Transport.suspending.run d >>= f).after a = f (d.conclude a) := by
  rw [Transport.run_eq, bind_assoc]
  calc (ask d.prepare >>= fun a => pure (d.conclude a) >>= f).after a
      = (pure a : Exchange Answer) >>= fun a => pure (d.conclude a) >>= f := after_bind rfl _ a
    _ = pure (d.conclude a) >>= f := pure_bind _ _
    _ = f (d.conclude a) := pure_bind _ _

end Exchange

/-- What a handler of a call does next: it runs the continuation, or it is done. -/
inductive Decision where
  | run (d : Descriptor)
  | finish (o : Outcome)

abbrev Plan := List Outcome → Decision

section
variable {m : Type → Type} [Monad m] {run : Descriptor → m Outcome}

def Decision.perform (run : Descriptor → m Outcome) (rest : Outcome → m Outcome) :
    Decision → m Outcome
  | .run d => run d >>= rest
  | .finish o => pure o

/-- A computation makes the decisions of a plan: after each run it goes on from the outcomes so far. -/
def Plan.Describes (p : Plan) (run : Descriptor → m Outcome) (x : m Outcome) : Prop :=
  ∃ rest : List Outcome → m Outcome, x = rest [] ∧
    ∀ outcomes, rest outcomes = (p outcomes).perform run fun o => rest (outcomes ++ [o])

theorem Plan.describes_pure (o : Outcome) :
    Plan.Describes (fun _ => .finish o) run (pure o) :=
  ⟨fun _ => pure o, rfl, fun _ => rfl⟩

theorem Plan.describes_run (d : Descriptor) {f : Outcome → m Outcome}
    (h : ∀ o, ∃ p : Plan, p.Describes run (f o)) :
    ∃ p : Plan, p.Describes run (run d >>= f) := by
  choose plan rest hfirst hrest using h
  let tail : List Outcome → m Outcome
    | [] => run d >>= f
    | o :: outcomes => rest o outcomes
  let decisions : Plan
    | [] => .run d
    | o :: outcomes => plan o outcomes
  refine ⟨decisions, tail, rfl, ?_⟩
  intro outcomes
  cases outcomes with
  | nil => exact congrArg (run d >>= ·) (funext hfirst)
  | cons o outcomes => exact hrest o outcomes

end

namespace Action

/-- An action runs the descriptor, runs it up to a number of times, or leaves the transport alone. -/
theorem step_cases {m : Type → Type} [Monad m] (d : Descriptor) (run : Descriptor → m Outcome)
    (last : Outcome) (a : Action) :
    a.step d run last = run d ∨
      (∃ rule : RetryRule, a.step d run last = retryRuns rule (run d) rule.max last) ∨
      ∃ o, a.step d run last = pure o := by
  cases a with
  | run => exact .inl rfl
  | retry rule => exact .inr (.inl ⟨rule, rfl⟩)
  | recover =>
      refine .inr (.inr ?_)
      cases last with
      | ok r => exact ⟨_, rfl⟩
      | error e => cases e <;> exact ⟨_, rfl⟩
  | relabel status => cases last <;> exact .inr (.inr ⟨_, rfl⟩)
  | _ => exact .inr (.inr ⟨_, rfl⟩)

variable {run : Descriptor → Exchange Outcome} {k : Outcome → Exchange Outcome}

theorem retryRuns_describes (hk : ∀ o, ∃ p : Plan, p.Describes run (k o)) (rule : RetryRule)
    (d : Descriptor) (n : Nat) (last : Outcome) :
    ∃ p : Plan, p.Describes run (retryRuns rule (run d) n last >>= k) := by
  induction n generalizing last with
  | zero =>
      rw [retryRuns, Exchange.pure_bind]
      exact hk last
  | succ n ih =>
      rw [retryRuns, Exchange.bind_assoc]
      refine Plan.describes_run d fun o => ?_
      split
      · exact ih o
      · rw [Exchange.pure_bind]
        exact hk o

theorem step_describes (hk : ∀ o, ∃ p : Plan, p.Describes run (k o)) (d : Descriptor)
    (last : Outcome) (a : Action) :
    ∃ p : Plan, p.Describes run (a.step d run last >>= k) := by
  obtain h | ⟨rule, h⟩ | ⟨o, h⟩ := step_cases d run last a
  · rw [h]
    exact Plan.describes_run d hk
  · rw [h]
    exact retryRuns_describes hk rule d rule.max last
  · rw [h, Exchange.pure_bind]
    exact hk o

theorem runAll_describes (actions : List Action) (d : Descriptor) (last : Outcome) :
    ∃ p : Plan, p.Describes run (runAll (fun _ => pure ()) run actions d last) := by
  induction actions generalizing d last with
  | nil => exact ⟨_, Plan.describes_pure last⟩
  | cons a actions ih =>
      have h : runAll (fun _ => pure ()) run (a :: actions) d last =
          a.step (a.edit d) run last >>= fun last =>
            runAll (fun _ => pure ()) run actions (a.edit d) last := by
        cases a with
        | logTarget => exact Exchange.pure_bind () _
        | _ => rfl
      rw [h]
      exact step_describes (fun o => ih (a.edit d) o) (a.edit d) last a

end Action

/-- The descriptors that a plan runs and the outcome it ends with, if the requests are answered like this. -/
def Plan.runs (p : Plan) : List Outcome → List Answer → List Descriptor × Option Outcome
  | outcomes, answers =>
    match p outcomes, answers with
    | .finish o, _ => ([], some o)
    | .run d, [] => ([d], none)
    | .run d, a :: answers =>
      (d :: (p.runs (outcomes ++ [d.conclude a]) answers).1,
        (p.runs (outcomes ++ [d.conclude a]) answers).2)

/-- One request for each run, the prepared one, and none besides. -/
theorem Plan.Describes.alone {p : Plan} {x : Exchange Outcome}
    (h : p.Describes Transport.suspending.run x) (answers : List Answer) :
    x.alone answers = ((p.runs [] answers).1.map Descriptor.prepare, (p.runs [] answers).2) := by
  obtain ⟨rest, rfl, hrest⟩ := h
  -- each answer adds an outcome, so the induction is over all outcomes so far
  generalize [] = outcomes
  induction answers generalizing outcomes with
  | nil =>
      have hstep := hrest outcomes
      unfold Plan.runs
      cases hp : p outcomes with
      | finish o =>
          rw [hp] at hstep
          rw [hstep]
          exact Exchange.alone_done (Exchange.next_pure o) []
      | run d =>
          rw [hp] at hstep
          rw [hstep]
          exact Exchange.alone_nil (Exchange.next_run d _)
  | cons a answers ih =>
      have hstep := hrest outcomes
      unfold Plan.runs
      cases hp : p outcomes with
      | finish o =>
          rw [hp] at hstep
          rw [hstep]
          exact Exchange.alone_done (Exchange.next_pure o) _
      | run d =>
          rw [hp] at hstep
          rw [hstep]
          have hnext := Exchange.next_run d fun o => rest (outcomes ++ [o])
          have hafter := Exchange.after_run d (fun o => rest (outcomes ++ [o])) a
          refine (Exchange.alone_cons hnext a answers).trans ?_
          rw [hafter, ih]
          rfl

end TypedEndpoints
