import Mathlib.Logic.Basic
import TypedEndpoints.Proofs.Http.Settling
/-! What a failure tells of the answer behind it. That no response arrived is always told, and so is an error
status; of a success whose body is not what it is read as, a failure keeps the body's fault only. -/
namespace TypedEndpoints

def readAs {α : Type} (view : Json.View α) : Outcome → Except FetchError (FetchResult × α)
  | .error e => .error e
  | .ok r =>
    match r.json view with
    | .ok v => .ok (r, v)
    | .error e => .error (.decode e)

/-- A descriptor fails on an answer: as it is, or when a value of some type is read. -/
inductive FailsOn (d : Descriptor) (a : Except String RawResponse) : FetchError → Prop
  | plain {e : FetchError} (h : d.conclude a = .error e) : FailsOn d a e
  | typed {α : Type} (view : Json.View α) {e : FetchError} (h : readAs view (d.conclude a) = .error e) :
      FailsOn d a e

/-- A failure tells whether a response arrived, and with which status. -/
structure Tells (a : Except String RawResponse) (e : FetchError) : Prop where
  transport : e.isTransport = true ↔ ∃ text, a = .error text
  status : ∀ s, e.status? = some s ↔ ∃ r, a = .ok r ∧ r.status = s
  one : Xor (e.isTransport = true) (∃ s, e.status? = some s)

/-- The ways to fail: without a response, on an error status, and on the body of a success. -/
inductive Failure (a : Except String RawResponse) : FetchError → Prop
  | transport {text : String} (h : a = .error text) : Failure a (.transport text)
  | http {r : RawResponse} {data : Body} (h : a = .ok r) (hs : isSuccessStatus r.status = false) :
      Failure a (.http (r.result data))
  | decode {r : RawResponse} {e : DecodeError} (h : a = .ok r) (hs : isSuccessStatus r.status = true) :
      Failure a (.decode e)

theorem Descriptor.conclude_failure {d : Descriptor} {a : Except String RawResponse} {e : FetchError}
    (h : d.conclude a = .error e) : Failure a e := by
  cases a with
  | error text =>
      cases h
      exact .transport rfl
  | ok r =>
      change d.settle r = .error e at h
      cases hs : isSuccessStatus r.status with
      | false =>
          rw [d.settle_refused hs] at h
          cases h
          exact .http rfl hs
      | true =>
          by_cases hdata : ∃ data, Decodes r.body (d.responseMode <|> inferMode r.headers) data
          · obtain ⟨data, hdata⟩ := hdata
            rw [d.settle_decoded hs hdata] at h
            cases h
          · obtain ⟨fault, hfault⟩ := d.settle_undecodable hs (not_exists.mp hdata)
            rw [hfault] at h
            cases h
            exact .decode rfl hs

theorem FailsOn.failure {d : Descriptor} {a : Except String RawResponse} {e : FetchError}
    (h : FailsOn d a e) : Failure a e := by
  cases h with
  | plain h => exact Descriptor.conclude_failure h
  | typed view h =>
      cases hc : d.conclude a with
      | error e' =>
          rw [hc] at h
          cases h
          exact Descriptor.conclude_failure hc
      | ok x =>
          -- only the result of a success is read as a value, so its body is to blame
          obtain ⟨r, data, ha, -, hs⟩ := d.conclude_ok hc
          rw [hc, readAs] at h
          split at h
          · cases h
          · cases h
            exact .decode ha hs

theorem Failure.isTransport_iff {a : Except String RawResponse} {e : FetchError} (h : Failure a e) :
    e.isTransport = true ↔ ∃ text, a = .error text := by
  cases h with
  | transport h => exact ⟨fun _ => ⟨_, h⟩, fun _ => rfl⟩
  | http h hs => subst h; simp [FetchError.isTransport]
  | decode h hs => subst h; simp [FetchError.isTransport]

theorem Failure.status?_eq_some_iff {a : Except String RawResponse} {e : FetchError} (h : Failure a e)
    (s : Nat) : e.status? = some s ↔ ∃ r, a = .ok r ∧ r.status = s ∧ isSuccessStatus s = false := by
  cases h with
  | transport h => subst h; simp [FetchError.status?]
  | http h hs =>
      subst h
      simp only [FetchError.status?, RawResponse.result, Option.some.injEq, Except.ok.injEq, exists_eq_left']
      exact ⟨fun e => ⟨e, e ▸ hs⟩, And.left⟩
  | decode h hs =>
      subst h
      simp only [FetchError.status?, reduceCtorEq, Except.ok.injEq, exists_eq_left', false_iff]
      rintro ⟨rfl, hfail⟩
      rw [hs] at hfail
      cases hfail

theorem Failure.tells_iff {a : Except String RawResponse} {e : FetchError} (h : Failure a e) :
    Tells a e ↔ ¬ ∃ r, a = .ok r ∧ isSuccessStatus r.status = true := by
  constructor
  · rintro ⟨-, hstatus, -⟩ ⟨r, ha, hs⟩
    obtain ⟨r', -, hr', hfail⟩ := (h.status?_eq_some_iff r.status).mp ((hstatus _).mpr ⟨r, ha, rfl⟩)
    rw [hs] at hfail
    cases hfail
  · intro hno
    have hstatus : ∀ s, e.status? = some s ↔ ∃ r, a = .ok r ∧ r.status = s := by
      intro s
      rw [h.status?_eq_some_iff]
      constructor
      · rintro ⟨r, ha, hr, -⟩
        exact ⟨r, ha, hr⟩
      · rintro ⟨r, ha, rfl⟩
        exact ⟨r, ha, rfl, Bool.eq_false_iff.mpr fun hs => hno ⟨r, ha, hs⟩⟩
    refine ⟨h.isTransport_iff, hstatus, ?_⟩
    simp only [h.isTransport_iff, hstatus]
    cases a with
    | error text => exact .inl ⟨⟨text, rfl⟩, by simp⟩
    | ok r => exact .inr ⟨⟨r.status, r, rfl, rfl⟩, by simp⟩

section
variable {m : Type → Type} [Monad m]

theorem Client.request_eq {c : Client m} (hc : c.interceptor = none) (path : String) (method : Method)
    (o : Option RequestOptions) :
    c.request path method o =
      c.transport.run (Descriptor.ofOptions c.base path method (o.getD {})) := by
  simp only [Client.request, hc]

theorem Client.requestAs_eq {α : Type} (view : Json.View α) (c : Client m) (path : String)
    (method : Method) (o : Option RequestOptions) :
    c.requestAs view path method o = c.request path method o >>= fun x => pure (readAs view x) := by
  unfold Client.requestAs
  congr 1
  funext x
  cases x with
  | error e => rfl
  | ok r =>
      simp only [readAs]
      split <;> simp_all

end

/-- A call of a client without an interceptor is one request and what is concluded from its answer. If it
fails, the failure is one of the transport exactly when no response arrived; and it tells of the answer all
there is to tell exactly when the response, if there is one, is no success. -/
theorem failures_classified {m : Type → Type} [Monad m] [LawfulMonad m] (c : Client m)
    (hc : c.interceptor = none) (path : String) (method : Method) (o : Option RequestOptions) :
    ∃ d, d = Descriptor.ofOptions c.base path method (o.getD {}) ∧
      c.request path method o = (c.transport.send d.prepare >>= fun a => pure (d.conclude a)) ∧
      (∀ {α : Type} (view : Json.View α), c.requestAs view path method o =
        c.transport.send d.prepare >>= fun a => pure (readAs view (d.conclude a))) ∧
      ∀ a e, FailsOn d a e →
        (e.isTransport = true ↔ ∃ text, a = .error text) ∧
        (Tells a e ↔ ¬ ∃ r, a = .ok r ∧ 200 ≤ r.status ∧ r.status < 300) := by
  refine ⟨_, rfl, ?_, ?_, ?_⟩
  · rw [Client.request_eq hc, Transport.run_eq]
  · intro α view
    rw [Client.requestAs_eq, Client.request_eq hc, Transport.run_eq, bind_assoc]
    simp only [pure_bind]
  · intro a e h
    exact ⟨h.failure.isTransport_iff, by simpa using h.failure.tells_iff⟩

/-- A client whose requests are all answered alike. -/
def steadyClient (a : Except String RawResponse) : Client Id where
  base := "https://api.example.com"
  interceptor := none
  transport := { send := fun _ => a }

def missing : RawResponse := ⟨404, [], []⟩

theorem failures_classified_missing : (steadyClient (.ok missing)).interceptor = none ∧
    ∃ e, (steadyClient (.ok missing)).request "/pets" .get none = .error e ∧ Tells (.ok missing) e := by
  obtain ⟨d, -, hrun, -, hall⟩ := failures_classified (steadyClient (.ok missing)) rfl "/pets" .get none
  have hs : isSuccessStatus missing.status = false := by decide
  have hfails : d.conclude (.ok missing) = .error _ := d.settle_refused hs
  refine ⟨rfl, _, hrun.trans hfails, (hall _ _ (.plain hfails)).2.mpr ?_⟩
  rintro ⟨r, hr, -, hlt⟩
  cases hr
  exact absurd hlt (by decide)

/-- A success without a content type, so read as JSON, which it is not. -/
def oops : RawResponse := ⟨200, [], [0x6F, 0x6F, 0x70, 0x73]⟩

/-- The response to this call has the status 200, and its failure has none. -/
theorem status_lost_with_body : ¬ ∀ (a : Except String RawResponse) (path : String) (method : Method)
    (o : Option RequestOptions) (e : FetchError), (steadyClient a).request path method o = .error e →
      Tells a e := by
  intro all
  have hfails : (steadyClient (.ok oops)).request "/pets" .get none = .error (.decode (.json .malformed)) := by
    rfl
  have hstatus := ((all _ _ _ _ _ hfails).status 200).mpr ⟨oops, rfl, rfl⟩
  cases hstatus

end TypedEndpoints
