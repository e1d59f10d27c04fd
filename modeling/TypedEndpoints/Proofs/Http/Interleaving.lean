import Mathlib.Logic.Function.Basic
import TypedEndpoints.Proofs.Http.Exchange
/-! Calls under way at the same time. They share a client and its transport; each step is one of a single
call, and no call sees another. -/
namespace TypedEndpoints

/-- A call under way: it is about to do what comes next, or its last request is not answered yet. -/
inductive Flight (α : Type) where
  | ready (x : Exchange α)
  | waiting (x : Exchange α)

/-- What the transport sees of a call. -/
inductive Event where
  | sent (q : SentRequest)
  | answered (a : Answer)

namespace Event

def request? : Event → Option SentRequest
  | sent q => some q
  | answered _ => none

def answer? : Event → Option Answer
  | sent _ => none
  | answered a => some a

end Event

def requests (events : List Event) : List SentRequest := events.filterMap Event.request?

def answers (events : List Event) : List Answer := events.filterMap Event.answer?

namespace Flight
variable {α : Type}

def unsent : Flight α → List SentRequest
  | ready x =>
    match x.next with
    | .inl q => [q]
    | .inr _ => []
  | waiting _ => []

def value? : Flight α → Option α
  | ready x =>
    match x.next with
    | .inl _ => none
    | .inr v => some v
  | waiting _ => none

/-- A step of a call; the answer to a request may be any. -/
inductive Step : Flight α → Event → Flight α → Prop
  | send {x : Exchange α} {q : SentRequest} (h : x.next = .inl q) :
      Step (ready x) (.sent q) (waiting x)
  | receive (x : Exchange α) (a : Answer) : Step (waiting x) (.answered a) (ready (x.after a))

inductive Steps : Flight α → List Event → Flight α → Prop
  | refl (f : Flight α) : Steps f [] f
  | step {f g k : Flight α} {e : Event} {events : List Event} (h : Step f e g)
      (rest : Steps g events k) : Steps f (e :: events) k

theorem Steps.eq_of_nil {f g : Flight α} (h : Steps f [] g) : g = f := by
  cases h
  rfl

/-- The requests that are still to be sent and the value, with the answers that are still to come. -/
def alone : Flight α → List Answer → List SentRequest × Option α
  | ready x, answers => x.alone answers
  | waiting _, [] => ([], none)
  | waiting x, a :: answers => (x.after a).alone answers

theorem alone_nil (f : Flight α) : f.alone [] = (f.unsent, f.value?) := by
  cases f with
  | waiting x => rfl
  | ready x =>
      cases h : x.next with
      | inl q =>
          rw [unsent, value?, h]
          exact Exchange.alone_nil h
      | inr v =>
          rw [unsent, value?, h]
          exact Exchange.alone_done h []

theorem alone_send {x : Exchange α} {q : SentRequest} (h : x.next = .inl q) (answers : List Answer) :
    (ready x).alone answers =
      (q :: ((waiting x).alone answers).1, ((waiting x).alone answers).2) := by
  cases answers with
  | nil => exact Exchange.alone_nil h
  | cons a answers => exact Exchange.alone_cons h a answers

theorem Step.alone {f g : Flight α} {e : Event} (h : Step f e g) (later : List Answer) :
    f.alone (answers [e] ++ later) =
      (requests [e] ++ (g.alone later).1, (g.alone later).2) := by
  cases h with
  | send h => exact alone_send h later
  | receive x a => rfl

/-- What a call still does is what it did in its steps and what it does after them. -/
theorem Steps.alone {f g : Flight α} {events : List Event} (h : Steps f events g)
    (later : List Answer) :
    f.alone (answers events ++ later) =
      (requests events ++ (g.alone later).1, (g.alone later).2) := by
  induction h with
  | refl f => rfl
  | @step f g k e events h rest ih =>
      have hanswers : answers (e :: events) ++ later = answers [e] ++ (answers events ++ later) := by
        rw [← List.append_assoc]
        exact congrArg (· ++ later) (List.filterMap_append (l := [e]))
      have hrequests : requests (e :: events) = requests [e] ++ requests events :=
        List.filterMap_append (l := [e])
      rw [hanswers, hrequests, h.alone, ih, List.append_assoc]

theorem Steps.alone_answers {f g : Flight α} {events : List Event} (h : Steps f events g) :
    f.alone (answers events) = (requests events ++ g.unsent, g.value?) := by
  have hnone := h.alone []
  rw [List.append_nil, alone_nil] at hnone
  exact hnone

theorem unsent_of_value {f : Flight α} {v : α} (h : f.value? = some v) : f.unsent = [] := by
  cases f with
  | waiting x => rfl
  | ready x =>
      cases hx : x.next with
      | inr w => rw [unsent, hx]
      | inl q =>
          rw [value?, hx] at h
          cases h

end Flight

section
variable {ι : Type} [DecidableEq ι] {α : Type}

/-- A run of calls under way: in each step any one of them takes a step and the others stay. -/
inductive Interleaved : (ι → Flight α) → List (ι × Event) → (ι → Flight α) → Prop
  | refl (fs : ι → Flight α) : Interleaved fs [] fs
  | step {fs gs : ι → Flight α} {i : ι} {e : Event} {f : Flight α} {log : List (ι × Event)}
      (h : (fs i).Step e f) (rest : Interleaved (Function.update fs i f) log gs) :
      Interleaved fs ((i, e) :: log) gs

def own (i : ι) (log : List (ι × Event)) : List Event :=
  log.filterMap fun x => if x.1 = i then some x.2 else none

@[simp] theorem own_cons_self (i : ι) (e : Event) (log : List (ι × Event)) :
    own i ((i, e) :: log) = e :: own i log :=
  List.filterMap_cons_some (if_pos rfl)

@[simp] theorem own_cons_other {i j : ι} (h : j ≠ i) (e : Event) (log : List (ι × Event)) :
    own i ((j, e) :: log) = own i log :=
  List.filterMap_cons_none (if_neg h)

/-- The runs of calls are the ways to interleave runs of each by itself. -/
theorem interleaved_iff {fs gs : ι → Flight α} {log : List (ι × Event)} :
    Interleaved fs log gs ↔ ∀ i, (fs i).Steps (own i log) (gs i) := by
  constructor
  · -- along the run: only the call that takes a step sees it
    intro h i
    induction h with
    | refl fs => exact .refl (fs i)
    | @step fs gs j e f log h rest ih =>
        by_cases hij : j = i
        · subst hij
          rw [Function.update_self] at ih
          rw [own_cons_self]
          exact .step h ih
        · rw [Function.update_of_ne (Ne.symm hij)] at ih
          rw [own_cons_other hij]
          exact ih
  · -- along the log: its first event is the first step of the call it belongs to
    intro h
    induction log generalizing fs with
    | nil =>
        have hsame : gs = fs := funext fun i => (h i).eq_of_nil
        rw [hsame]
        exact .refl fs
    | cons x log ih =>
        obtain ⟨j, e⟩ := x
        have hj := h j
        rw [own_cons_self] at hj
        cases hj with
        | @step _ f _ _ _ hstep hrest =>
            refine .step hstep (ih fun i => ?_)
            by_cases hij : j = i
            · subst hij
              rw [Function.update_self]
              exact hrest
            · have hi := h i
              rw [own_cons_other hij] at hi
              rw [Function.update_of_ne (Ne.symm hij)]
              exact hi

end

def Plan.once (d : Descriptor) : Plan
  | [] => .run d
  | o :: _ => .finish o

theorem Plan.once_describes (d : Descriptor) :
    (Plan.once d).Describes Transport.suspending.run (Transport.suspending.run d) := by
  let rest : List Outcome → Exchange Outcome
    | [] => Transport.suspending.run d
    | o :: _ => pure o
  refine ⟨rest, rfl, ?_⟩
  intro outcomes
  cases outcomes with
  | nil => exact (Exchange.run_bind_pure d).symm
  | cons o outcomes => rfl

structure Call where
  path : String
  method : Method
  options : Option RequestOptions

def Call.descriptor (base : String) (x : Call) : Descriptor :=
  Descriptor.ofOptions base x.path x.method (x.options.getD {})

namespace Client

/-- The calls of a client as they start. A clone of the client is the client. -/
def started {ι : Type} (c : Client Exchange) (calls : ι → Call) (i : ι) : Flight Outcome :=
  .ready (c.request (calls i).path (calls i).method (calls i).options)

/-- Calls take turns at the transport, and the interceptor, if there is one, decides by its descriptor
and the outcomes of its own runs. -/
structure Follows (c : Client Exchange) (plan : Descriptor → Plan) : Prop where
  transport : c.transport = .suspending
  direct : c.interceptor = none → ∀ d, plan d = .once d
  intercepted : ∀ i, c.interceptor = some i →
    ∀ d, (plan d).Describes Transport.suspending.run (i d Transport.suspending.run)

theorem Follows.request {c : Client Exchange} {plan : Descriptor → Plan} (h : c.Follows plan)
    (x : Call) : (plan (x.descriptor c.base)).Describes Transport.suspending.run
      (c.request x.path x.method x.options) := by
  unfold Client.request
  rw [h.transport]
  cases hi : c.interceptor with
  | none =>
      rw [h.direct hi]
      exact Plan.once_describes _
  | some i => exact h.intercepted i hi _

theorem follows_ofActions {c : Client Exchange} (htransport : c.transport = .suspending)
    {actions : List Action} (hi : c.interceptor = some (.ofActions (fun _ => pure ()) actions)) :
    ∃ plan, c.Follows plan := by
  have hsome : ∀ d, ∃ p : Plan, p.Describes Transport.suspending.run
      (Action.runAll (fun _ => pure ()) Transport.suspending.run actions d emptyOutcome) :=
    fun d => Action.runAll_describes actions d emptyOutcome
  choose plan hplan using hsome
  refine ⟨plan, htransport, ?_, ?_⟩
  · intro hnone
    rw [hi] at hnone
    cases hnone
  · intro i hsame
    rw [hi] at hsame
    cases hsame
    exact hplan

end Client

/-- However calls of a client are interleaved, each takes the steps of a run by itself. With the answers it
received, the requests it sent and its outcome are those of the call alone; they are one request for each
run of its own plan, the descriptor of that run as it is sent; and they are the same next to any other
calls. -/
theorem calls_independent {c : Client Exchange} {plan : Descriptor → Plan} (hc : c.Follows plan)
    {ι : Type} [DecidableEq ι] {calls : ι → Call} {log : List (ι × Event)} {flights : ι → Flight Outcome}
    (h : Interleaved (c.started calls) log flights) (i : ι) :
    (c.started calls i).Steps (own i log) (flights i) ∧
      (c.started calls i).alone (answers (own i log)) =
        (requests (own i log) ++ (flights i).unsent, (flights i).value?) ∧
      (∀ o, (flights i).value? = some o →
        (c.started calls i).alone (answers (own i log)) = (requests (own i log), some o)) ∧
      (∃ runs, (plan ((calls i).descriptor c.base)).runs [] (answers (own i log)) =
          (runs, (flights i).value?) ∧
        requests (own i log) ++ (flights i).unsent = runs.map Descriptor.prepare) ∧
      ∀ {κ : Type} [DecidableEq κ] {others : κ → Call} {log' : List (κ × Event)}
        {flights' : κ → Flight Outcome}, Interleaved (c.started others) log' flights' →
        ∀ j, others j = calls i → answers (own j log') = answers (own i log) →
          requests (own j log') ++ (flights' j).unsent = requests (own i log) ++ (flights i).unsent ∧
            (flights' j).value? = (flights i).value? := by
  have hsteps := interleaved_iff.mp h i
  have halone := hsteps.alone_answers
  refine ⟨hsteps, halone, ?_, ?_, ?_⟩
  · intro o ho
    rw [halone, Flight.unsent_of_value ho, List.append_nil, ho]
  · have hplan := (hc.request (calls i)).alone (answers (own i log))
    have hboth := Prod.ext_iff.mp (halone.symm.trans hplan)
    refine ⟨_, Prod.ext rfl hboth.2.symm, hboth.1⟩
  · intro κ _ others log' flights' h' j hcall hanswers
    have halone' := (interleaved_iff.mp h' j).alone_answers
    have hstart : c.started others j = c.started calls i := by
      unfold Client.started
      rw [hcall]
    rw [hstart, hanswers, halone] at halone'
    exact ⟨(Prod.ext_iff.mp halone').1.symm, (Prod.ext_iff.mp halone').2.symm⟩

/-- A client that marks its requests and tries again after a server error. -/
def retrying : Client Exchange where
  base := "https://api.example.com"
  interceptor := some (Interceptor.ofActions (fun _ => pure ())
    [.setHeader "X-Marked" "yes", .retry { max := 2, minStatus := 500 }])
  transport := .suspending

def petsAndUsers : Bool → Call
  | true => ⟨"/pets", .get, some { responseMode := some .blob }⟩
  | false => ⟨"/users", .get, none⟩

def markedRequest (x : Call) : SentRequest :=
  ((Action.setHeader "X-Marked" "yes").edit (x.descriptor retrying.base)).prepare

def unavailable : RawResponse := ⟨503, [], []⟩

def noContent : RawResponse := ⟨204, [], []⟩

/-- The first call is tried again while the second one is answered. -/
def retriedLog : List (Bool × Event) :=
  [(true, .sent (markedRequest (petsAndUsers true))),
    (false, .sent (markedRequest (petsAndUsers false))),
    (true, .answered (.ok unavailable)),
    (true, .sent (markedRequest (petsAndUsers true))),
    (false, .answered (.ok noContent)),
    (true, .answered (.ok noContent))]

theorem calls_independent_retriedLog : ∃ plan, retrying.Follows plan ∧
    ∃ flights, Interleaved (retrying.started petsAndUsers) retriedLog flights ∧
      (flights true).value? = some (.ok (noContent.result (.blob []))) ∧
        (retrying.started petsAndUsers true).alone [.ok unavailable, .ok noContent] =
          ([markedRequest (petsAndUsers true), markedRequest (petsAndUsers true)],
            some (.ok (noContent.result (.blob [])))) := by
  obtain ⟨plan, hplan⟩ := Client.follows_ofActions (c := retrying) rfl rfl
  have hpets : ∃ f, (retrying.started petsAndUsers true).Steps (own true retriedLog) f ∧
      f.value? = some (.ok (noContent.result (.blob []))) :=
    ⟨_, .step (.send rfl) (.step (.receive _ _) (.step (.send rfl) (.step (.receive _ _) (.refl _)))),
      rfl⟩
  have husers : ∃ f, (retrying.started petsAndUsers false).Steps (own false retriedLog) f :=
    ⟨_, .step (.send rfl) (.step (.receive _ _) (.refl _))⟩
  obtain ⟨pets, hpets, hvalue⟩ := hpets
  obtain ⟨users, husers⟩ := husers
  have h : Interleaved (retrying.started petsAndUsers) retriedLog
      (fun b => if b then pets else users) := by
    refine interleaved_iff.mpr fun b => ?_
    cases b with
    | true => exact hpets
    | false => exact husers
  exact ⟨plan, hplan, _, h, hvalue, (calls_independent hplan h true).2.2.1 _ hvalue⟩

end TypedEndpoints
