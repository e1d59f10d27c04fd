import TypedEndpoints.Proofs.Http.Settling
import TypedEndpoints.Proofs.Json.Grammar
import TypedEndpoints.Proofs.Text.Utf8
/-! What is left of an error body. It is JSON where JSON was looked for and found; else it is the text whose
bytes arrived, or the bytes themselves, and these only where bytes were asked for or no text has them. -/
namespace TypedEndpoints

/-- Data from which the bytes of a body can be had back, JSON aside. -/
inductive BodyKept (b : Bytes) (mode : Option Mode) : Body → Prop
  | json {v : Json.Value} (hmode : mode = some .json ∨ mode = none) (hjson : Json.WellFormed b)
      (hv : Json.Value.ofBytes? b = some v) : BodyKept b mode (.json v)
  | text {s : String} (hs : s.toUTF8 = b.toByteArray) : BodyKept b mode (.text s)
  | blob (h : mode = some .blob ∨ ¬ b.toByteArray.IsValidUTF8) : BodyKept b mode (.blob b)

theorem wellFormed_of_ofBytes? {b : Bytes} {v : Json.Value} (h : Json.Value.ofBytes? b = some v) :
    Json.WellFormed b := by
  unfold Json.Value.ofBytes? at h
  split at h
  · next cs hcs =>
    obtain ⟨t, ht, -⟩ := Option.bind_eq_some_iff.mp h
    refine ⟨String.ofList cs, Text.decode_eq_ok_iff.mp hcs, ?_⟩
    rw [String.toList_ofList]
    exact Json.Tree.parse?_text ht
  · cases h

theorem Decodes.kept {b : Bytes} {mode : Option Mode} {data : Body} (h : Decodes b mode data) :
    BodyKept b mode data := by
  cases h with
  | text h => exact .text (Text.decode_eq_ok_iff.mp h)
  | blob => exact .blob (.inl rfl)
  | json h => exact .json (.inl rfl) (wellFormed_of_ofBytes? h) h
  | undeclared h => exact .json (.inr rfl) (wellFormed_of_ofBytes? h) h

theorem decodes_text_iff {b : Bytes} {data : Body} :
    Decodes b (some .text) data ↔ ∃ s : String, data = .text s ∧ s.toUTF8 = b.toByteArray := by
  constructor
  · intro h
    cases h with
    | text h => exact ⟨_, rfl, Text.decode_eq_ok_iff.mp h⟩
  · rintro ⟨s, rfl, hs⟩
    have hdecode : Text.decode b = .ok s.toList := by
      rw [Text.decode_eq_ok_iff, String.ofList_toList, hs]
    have htext := Decodes.text hdecode
    rwa [String.ofList_toList] at htext

theorem decodeErrorBody_decoded {b : Bytes} {mode : Option Mode} {data : Body}
    (h : decodeBody b mode = .ok data) : decodeErrorBody b mode = data := by
  rw [decodeErrorBody, h]

/-- Where a body is not what it is read as, its text is kept, or else its bytes. -/
theorem kept_undecoded {b : Bytes} {mode : Option Mode} {e : DecodeError}
    (h : decodeBody b mode = .error e) : BodyKept b mode (decodeErrorBody b mode) := by
  rw [decodeErrorBody, h]
  cases hb : Text.decode b with
  | ok cs => exact .text (Text.decode_eq_ok_iff.mp hb)
  | error fault =>
      refine .blob (.inr fun hvalid => ?_)
      obtain ⟨cs, hcs⟩ := Text.decode_isOk_iff.mpr hvalid
      rw [hb] at hcs
      cases hcs

/-- What decodes is kept as it decodes, and all else as text or bytes; so an error body is never lost. As
text a body decodes exactly when it is one, and to this text; as bytes it always does, and to itself. -/
theorem error_bodies_kept (b : Bytes) (mode : Option Mode) :
    (∀ data, decodeBody b mode = .ok data → decodeErrorBody b mode = data) ∧
    BodyKept b mode (decodeErrorBody b mode) ∧
    (∀ data, decodeBody b (some .text) = .ok data ↔
      ∃ s : String, data = .text s ∧ s.toUTF8 = b.toByteArray) ∧
    ((∃ data, decodeBody b (some .text) = .ok data) ↔ b.toByteArray.IsValidUTF8) ∧
    decodeBody b (some .blob) = .ok (.blob b) := by
  have htext : ∀ data, decodeBody b (some .text) = .ok data ↔
      ∃ s : String, data = .text s ∧ s.toUTF8 = b.toByteArray := by
    intro data
    rw [← decodes_text_iff]
    exact ⟨decodes_of_decodeBody, decodeBody_of_decodes⟩
  refine ⟨fun data => decodeErrorBody_decoded, ?_, htext, ?_, rfl⟩
  · cases h : decodeBody b mode with
    | ok data =>
        rw [decodeErrorBody_decoded h]
        exact (decodes_of_decodeBody h).kept
    | error e => exact kept_undecoded h
  · simp only [htext]
    constructor
    · rintro ⟨-, s, -, hs⟩
      rw [← hs]
      exact s.isValidUTF8
    · rintro ⟨cs, hcs⟩
      refine ⟨_, String.ofList cs, rfl, ?_⟩
      rw [hcs, String.toUTF8, String.toByteArray_ofList]

/-- An accented letter, as text and without a mode: the second is no JSON and falls back to the first. -/
theorem error_bodies_kept_letter :
    decodeBody [0xC3, 0xA9] (some .text) = .ok (.text "é") ∧
      decodeErrorBody [0xC3, 0xA9] (some .text) = .text "é" ∧
      BodyKept [0xC3, 0xA9] none (.text "é") := by
  have hdecoded : decodeBody [0xC3, 0xA9] (some .text) = .ok (.text "é") := by rfl
  refine ⟨hdecoded, (error_bodies_kept [0xC3, 0xA9] (some .text)).1 _ hdecoded, ?_⟩
  exact (error_bodies_kept [0xC3, 0xA9] none).2.1

end TypedEndpoints
