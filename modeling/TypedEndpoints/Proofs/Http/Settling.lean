import TypedEndpoints.Http.Client
/-! What a response means. Sending a descriptor is one request and one conclusion from its answer; an
error status is concluded to be one before its body is looked at. -/
namespace TypedEndpoints

/-- What the bytes of a body are under a mode. Without a mode they are taken for JSON. -/
inductive Decodes (b : Bytes) : Option Mode → Body → Prop
  | text {cs : List Char} (h : Text.decode b = .ok cs) :
      Decodes b (some .text) (.text (String.ofList cs))
  | blob : Decodes b (some .blob) (.blob b)
  | json {v : Json.Value} (h : Json.Value.ofBytes? b = some v) : Decodes b (some .json) (.json v)
  | undeclared {v : Json.Value} (h : Json.Value.ofBytes? b = some v) : Decodes b none (.json v)

theorem decodes_of_decodeBody {b : Bytes} {mode : Option Mode} {data : Body}
    (h : decodeBody b mode = .ok data) : Decodes b mode data := by
  unfold decodeBody at h
  split at h
  · split at h
    · next hcs =>
      cases h
      exact .text hcs
    · cases h
  · cases h
    exact .blob
  · split at h
    · next hv =>
      cases h
      exact .json hv
    · cases h
  · split at h
    · next hv =>
      cases h
      exact .undeclared hv
    · cases h

theorem decodeBody_of_decodes {b : Bytes} {mode : Option Mode} {data : Body}
    (h : Decodes b mode data) : decodeBody b mode = .ok data := by
  cases h with
  | text h => simp only [decodeBody, h]
  | blob => rfl
  | json h => simp only [decodeBody, h]
  | undeclared h => simp only [decodeBody, h]

theorem decodeBody_fails {b : Bytes} {mode : Option Mode} (h : ∀ data, ¬ Decodes b mode data) :
    ∃ e, decodeBody b mode = .error e := by
  cases hb : decodeBody b mode with
  | ok data => exact absurd (decodes_of_decodeBody hb) (h data)
  | error e => exact ⟨e, rfl⟩

/-- The data of a body is of the kind that was asked for. -/
theorem Decodes.kind {b : Bytes} {mode : Option Mode} {data : Body} (h : Decodes b mode data) :
    data.kind = (mode.getD .json).name := by
  cases h <;> rfl

@[simp] theorem isSuccessStatus_iff {status : Nat} :
    isSuccessStatus status = true ↔ 200 ≤ status ∧ status < 300 := by
  simp [isSuccessStatus]

def RawResponse.result (r : RawResponse) (data : Body) : FetchResult :=
  ⟨r.status, .ofStatus r.status, r.headers, data⟩

namespace Descriptor
variable (d : Descriptor)

theorem settle_decoded {r : RawResponse} {data : Body} (hs : isSuccessStatus r.status = true)
    (h : Decodes r.body (d.responseMode <|> inferMode r.headers) data) :
    d.settle r = .ok (r.result data) := by
  simp only [settle, hs, if_true, decodeBody_of_decodes h]
  rfl

theorem settle_undecodable {r : RawResponse} (hs : isSuccessStatus r.status = true)
    (h : ∀ data, ¬ Decodes r.body (d.responseMode <|> inferMode r.headers) data) :
    ∃ e, d.settle r = .error (.decode e) := by
  obtain ⟨e, he⟩ := decodeBody_fails h
  refine ⟨e, ?_⟩
  simp only [settle, hs, if_true, he]

theorem settle_refused {r : RawResponse} (hs : isSuccessStatus r.status = false) :
    d.settle r = .error (.http (r.result
      (decodeErrorBody r.body (d.errorMode <|> inferMode r.headers)))) := by
  simp only [settle, hs, Bool.false_eq_true, if_false]
  rfl

/-- What an answer to a descriptor means: that of the response, or that there was none. -/
def conclude : Except String RawResponse → Outcome
  | .ok r => d.settle r
  | .error text => .error (.transport text)

theorem conclude_ok {a : Except String RawResponse} {x : FetchResult} (h : d.conclude a = .ok x) :
    ∃ r data, a = .ok r ∧ x = r.result data ∧ isSuccessStatus r.status = true := by
  cases a with
  | error text => cases h
  | ok r =>
      change d.settle r = .ok x at h
      cases hs : isSuccessStatus r.status with
      | false =>
          rw [settle_refused d hs] at h
          cases h
      | true =>
          by_cases hd : ∃ data, Decodes r.body (d.responseMode <|> inferMode r.headers) data
          · obtain ⟨data, hd⟩ := hd
            rw [settle_decoded d hs hd] at h
            cases h
            exact ⟨r, data, rfl, rfl, hs⟩
          · obtain ⟨e, he⟩ := settle_undecodable d hs (not_exists.mp hd)
            rw [he] at h
            cases h

theorem conclude_http {a : Except String RawResponse} {x : FetchResult}
    (h : d.conclude a = .error (.http x)) :
    ∃ r data, a = .ok r ∧ x = r.result data ∧ isSuccessStatus r.status = false := by
  cases a with
  | error text => cases h
  | ok r =>
      change d.settle r = .error (.http x) at h
      cases hs : isSuccessStatus r.status with
      | false =>
          rw [settle_refused d hs] at h
          cases h
          exact ⟨r, _, rfl, rfl, hs⟩
      | true =>
          simp only [settle, hs, if_true] at h
          split at h <;> cases h

end Descriptor

/-- A transport that notes what it is sent. Its answer may depend on all that came before. -/
def Transport.noting (answer : List SentRequest → SentRequest → Except String RawResponse) :
    Transport (StateM (List SentRequest)) where
  send q := fun sent => (answer sent q, sent ++ [q])

theorem Transport.run_eq {m : Type → Type} [Monad m] (t : Transport m) (d : Descriptor) :
    t.run d = t.send d.prepare >>= fun a => pure (d.conclude a) := by
  unfold Transport.run
  congr 1
  funext a
  cases a <;> rfl

/-- One request is sent, the prepared one, and the outcome is the conclusion from its answer: the
transport's own failure; data of the kind asked for, or a decode error, for a success; the status and
whatever can be kept of the body for anything else. Results carry status, headers and label of their
response. The mode for errors does not matter to successes, nor the mode for successes to errors. -/
theorem run_concludes (d : Descriptor) :
    (∀ {m : Type → Type} [Monad m] (t : Transport m),
      t.run d = t.send d.prepare >>= fun a => pure (d.conclude a)) ∧
    (∀ answer sent, ((Transport.noting answer).run d).run sent =
      (d.conclude (answer sent d.prepare), sent ++ [d.prepare])) ∧
    (∀ text, d.conclude (.error text) = .error (.transport text)) ∧
    (∀ r : RawResponse, 200 ≤ r.status ∧ r.status < 300 →
      (∀ data, Decodes r.body (d.responseMode <|> inferMode r.headers) data →
        d.conclude (.ok r) = .ok (r.result data) ∧
          data.kind = ((d.responseMode <|> inferMode r.headers).getD .json).name) ∧
      ((∀ data, ¬ Decodes r.body (d.responseMode <|> inferMode r.headers) data) →
        ∃ e, d.conclude (.ok r) = .error (.decode e)) ∧
      ∀ errorMode, { d with errorMode }.conclude (.ok r) = d.conclude (.ok r)) ∧
    (∀ r : RawResponse, ¬ (200 ≤ r.status ∧ r.status < 300) →
      d.conclude (.ok r) = .error (.http (r.result
        (decodeErrorBody r.body (d.errorMode <|> inferMode r.headers)))) ∧
      ∀ responseMode, { d with responseMode }.conclude (.ok r) = d.conclude (.ok r)) ∧
    ∀ a x, (d.conclude a = .ok x → x.isSuccess = true) ∧
      (d.conclude a = .error (.http x) → x.isSuccess = false) ∧
      (d.conclude a = .ok x ∨ d.conclude a = .error (.http x) →
        ∃ r, a = .ok r ∧ x.status = r.status ∧ x.headers = r.headers ∧
          x.label = .ofStatus r.status) := by
  refine ⟨fun t => t.run_eq d, ?_, fun _ => rfl, ?_, ?_, ?_⟩
  · intro answer sent
    rw [Transport.run_eq]
    rfl
  · intro r hr
    have hs := isSuccessStatus_iff.mpr hr
    refine ⟨fun data h => ⟨d.settle_decoded hs h, h.kind⟩, d.settle_undecodable hs, ?_⟩
    intro errorMode
    simp only [Descriptor.conclude, Descriptor.settle, hs, if_true]
  · intro r hr
    have hs : isSuccessStatus r.status = false :=
      Bool.eq_false_iff.mpr fun h => hr (isSuccessStatus_iff.mp h)
    refine ⟨d.settle_refused hs, ?_⟩
    intro responseMode
    simp only [Descriptor.conclude, Descriptor.settle, hs, Bool.false_eq_true, if_false]
  · intro a x
    refine ⟨?_, ?_, ?_⟩
    · intro h
      obtain ⟨r, data, -, rfl, hs⟩ := d.conclude_ok h
      exact hs
    · intro h
      obtain ⟨r, data, -, rfl, hs⟩ := d.conclude_http h
      exact hs
    · rintro (h | h)
      · obtain ⟨r, data, rfl, rfl, -⟩ := d.conclude_ok h
        exact ⟨r, rfl, rfl, rfl, rfl⟩
      · obtain ⟨r, data, rfl, rfl, -⟩ := d.conclude_http h
        exact ⟨r, rfl, rfl, rfl, rfl⟩

def listPets : Descriptor where
  base := "https://api.example.com"
  path := "/pets"
  method := .get
  headers := []
  body := none
  params := none
  responseMode := some .json
  errorMode := none

/-- A gateway's complaint, neither JSON nor UTF-8. -/
def badGateway : RawResponse := ⟨502, [], [0x3C, 0x9F]⟩

/-- A plain text, so not the JSON that no header would mean. -/
def plainPets : RawResponse :=
  ⟨200, [("content-type", Text.encode "Text/Plain; charset=utf-8".toList)], [0x52, 0x65, 0x78]⟩

theorem run_concludes_badGateway_plainPets :
    (¬ (200 ≤ badGateway.status ∧ badGateway.status < 300) ∧
      listPets.conclude (.ok badGateway) = .error (.http (badGateway.result (.blob [0x3C, 0x9F])))) ∧
    (200 ≤ plainPets.status ∧ plainPets.status < 300) ∧
      Decodes plainPets.body (none <|> inferMode plainPets.headers) (.text "Rex") ∧
      { listPets with responseMode := none }.conclude (.ok plainPets) =
        .ok (plainPets.result (.text "Rex")) := by
  constructor
  · have hr : ¬ (200 ≤ badGateway.status ∧ badGateway.status < 300) := by decide
    have hdata : decodeErrorBody badGateway.body (listPets.errorMode <|> inferMode badGateway.headers) =
        .blob [0x3C, 0x9F] := by rfl
    refine ⟨hr, ?_⟩
    rw [← hdata]
    exact ((run_concludes listPets).2.2.2.2.1 badGateway hr).1
  · have hr : 200 ≤ plainPets.status ∧ plainPets.status < 300 := by decide
    have hmode : inferMode plainPets.headers = some .text := by decide
    have htext : Text.decode plainPets.body = .ok ['R', 'e', 'x'] := rfl
    have hdata : Decodes plainPets.body (none <|> inferMode plainPets.headers) (.text "Rex") := by
      rw [hmode]
      exact .text htext
    have hpets := run_concludes { listPets with responseMode := none }
    exact ⟨hr, hdata, ((hpets.2.2.2.1 plainPets hr).1 _ hdata).1⟩

end TypedEndpoints
