import TypedEndpoints.Http.Response
import TypedEndpoints.Proofs.Http.Headers
import TypedEndpoints.Proofs.Text.Blank
import TypedEndpoints.Proofs.Text.Cut
import TypedEndpoints.Proofs.Text.Utf8
/-! The mode that a content type implies. It is a function of the media type alone, the part of the first content
type before its parameters, whatever its case, the blanks around it and the other headers. -/
namespace TypedEndpoints

/-- `b` is the value of the first content type among the headers. -/
inductive FirstContentType (b : Bytes) : List (String × Bytes) → Prop
  | here {name : String} {headers : List (String × Bytes)} (h : name.toLower = "content-type") :
      FirstContentType b ((name, b) :: headers)
  | later {name : String} {value : Bytes} {headers : List (String × Bytes)}
      (h : name.toLower ≠ "content-type") : FirstContentType b headers →
      FirstContentType b ((name, value) :: headers)

/-- Visible ASCII characters, spaces and tabs. -/
def IsText (b : Bytes) : Prop := ∀ x ∈ b, (0x20 ≤ x ∧ x ≤ 0x7E) ∨ x = 0x09

instance (b : Bytes) : Decidable (IsText b) := List.decidableBAll _ b

def asciiText (b : Bytes) : List Char := b.map fun x => Char.ofNat x.toNat

def SpaceOrTab (c : Char) : Prop := c = ' ' ∨ c = '\t'

/-- `m` is what stands before the first semicolon of a value, without the spaces and tabs around it. -/
structure IsMediaType (value : List Char) (m : String) : Prop where
  around : ∃ left right rest, value = left ++ m.toList ++ right ++ rest ∧
    (∀ c ∈ left ++ right, SpaceOrTab c) ∧ (rest = [] ∨ ∃ parameters, rest = ';' :: parameters)
  unmarked : ';' ∉ m.toList
  ends : ∀ c, m.toList.head? = some c ∨ m.toList.getLast? = some c → ¬ SpaceOrTab c

theorem headerKey_ofList (cs : List Char) : headerKey (String.ofList cs) = cs.map asciiLower := by
  rw [headerKey, String.toList_ofList]

theorem mediaType_eq (cs : List Char) :
    mediaType cs = (String.ofList (Text.trim (Text.beforeFirst ';' cs))).toLower := by
  rw [mediaType, ← headerKey_ofList, headerKey_eq, String.ofList_toList]

theorem isBlank_iff_of_text {b : Bytes} (hb : IsText b) {c : Char} (hc : c ∈ asciiText b) :
    Text.isBlank c = true ↔ SpaceOrTab c := by
  obtain ⟨x, hx, rfl⟩ := List.mem_map.mp hc
  have hrange : (0x20 ≤ x.toNat ∧ x.toNat ≤ 0x7E) ∨ x.toNat = 0x09 := by
    rcases hb x hx with ⟨hlow, hhigh⟩ | rfl
    · exact .inl ⟨UInt8.le_iff_toNat_le.mp hlow, UInt8.le_iff_toNat_le.mp hhigh⟩
    · exact .inr rfl
  have hn : (Char.ofNat x.toNat).toNat = x.toNat := Text.toNat_ofNat (.inl (by omega))
  have hspace : ' '.toNat = 0x20 := rfl
  have htab : '\t'.toNat = 0x09 := rfl
  rw [SpaceOrTab, ← Char.toNat_inj, ← Char.toNat_inj, hn, hspace, htab]
  simp only [Text.isBlank, hn, Bool.or_eq_true, Bool.and_eq_true, decide_eq_true_eq, beq_iff_eq]
  omega

section
variable {b : Bytes} (hb : IsText b)
include hb

theorem blanks_iff_of_text {cs : List Char} (hcs : cs ⊆ asciiText b) :
    Text.Blanks cs ↔ ∀ c ∈ cs, SpaceOrTab c :=
  forall₂_congr fun _ hc => isBlank_iff_of_text hb (hcs hc)

theorem unpadded_iff_of_text {cs : List Char} (hcs : cs ⊆ asciiText b) :
    Text.Unpadded cs ↔ ∀ c, cs.head? = some c ∨ cs.getLast? = some c → ¬ SpaceOrTab c := by
  have hnot : ∀ c ∈ cs, (Text.isBlank c = false ↔ ¬ SpaceOrTab c) := fun c hc => by
    rw [Bool.eq_false_iff, ne_eq, isBlank_iff_of_text hb (hcs hc)]
  constructor
  · rintro ⟨hfirst, hlast⟩ c (hc | hc)
    · exact (hnot c (List.mem_of_head? hc)).mp (hfirst c hc)
    · exact (hnot c (List.mem_of_getLast? hc)).mp (hlast c hc)
  · intro h
    constructor
    · intro c hc
      exact (hnot c (List.mem_of_head? hc)).mpr (h c (.inl hc))
    · intro c hc
      exact (hnot c (List.mem_of_getLast? hc)).mpr (h c (.inr hc))

theorem eq_of_isMediaType {m : String} (h : IsMediaType (asciiText b) m) :
    m = String.ofList (Text.trim (Text.beforeFirst ';' (asciiText b))) := by
  obtain ⟨⟨left, right, rest, hvalue, hpad, hrest⟩, hunmarked, hends⟩ := h
  obtain ⟨hpadLeft, hpadRight⟩ := List.forall_mem_append.mp hpad
  have hpart : left ++ m.toList ++ right ⊆ asciiText b := hvalue ▸ List.subset_append_left _ _
  obtain ⟨hfront, hright⟩ := List.append_subset.mp hpart
  obtain ⟨hleft, hm⟩ := List.append_subset.mp hfront
  have hsemicolon : ';' ∉ left ++ m.toList ++ right := by
    have hnone : ¬ SpaceOrTab ';' := by
      rintro (h | h) <;> exact absurd h (by decide)
    simp only [List.mem_append, not_or]
    exact ⟨⟨fun h => hnone (hpadLeft _ h), hunmarked⟩, fun h => hnone (hpadRight _ h)⟩
  rw [hvalue, Text.beforeFirst_append hsemicolon hrest,
    Text.trim_padded ((blanks_iff_of_text hb hleft).mpr hpadLeft) ((unpadded_iff_of_text hb hm).mpr hends)
      ((blanks_iff_of_text hb hright).mpr hpadRight), String.ofList_toList]

theorem isMediaType_trim :
    IsMediaType (asciiText b) (String.ofList (Text.trim (Text.beforeFirst ';' (asciiText b)))) := by
  obtain ⟨rest, hvalue, hrest⟩ := Text.exists_behind ';' (asciiText b)
  have hsemicolon := Text.notMem_beforeFirst ';' (asciiText b)
  have hpart : Text.beforeFirst ';' (asciiText b) ⊆ asciiText b := List.takeWhile_subset _
  generalize Text.beforeFirst ';' (asciiText b) = part at hvalue hsemicolon hpart ⊢
  obtain ⟨left, right, hleft, hright, hcut⟩ := Text.exists_padding part
  have hinner := Text.unpadded_trim part
  generalize Text.trim part = m at hcut hinner ⊢
  subst hcut
  obtain ⟨hfront, hrightSub⟩ := List.append_subset.mp hpart
  obtain ⟨hleftSub, hm⟩ := List.append_subset.mp hfront
  rw [← String.toList_ofList (l := m)] at hvalue hinner hm hsemicolon
  refine ⟨⟨left, right, rest, hvalue, ?_, hrest⟩, ?_, (unpadded_iff_of_text hb hm).mp hinner⟩
  · exact List.forall_mem_append.mpr
      ⟨(blanks_iff_of_text hb hleftSub).mp hleft, (blanks_iff_of_text hb hrightSub).mp hright⟩
  · exact fun h => hsemicolon (List.mem_append_left _ (List.mem_append_right _ h))

/-- A value has one media type, the one that is looked up. -/
theorem isMediaType_iff {m : String} : IsMediaType (asciiText b) m ↔
    m = String.ofList (Text.trim (Text.beforeFirst ';' (asciiText b))) :=
  ⟨eq_of_isMediaType hb, fun h => h ▸ isMediaType_trim hb⟩

end

/-! The first content type. -/

theorem valueText?_eq (b : Bytes) :
    Headers.valueText? b = if IsText b then some (asciiText b) else none := by
  have hall : (b.all fun x => (0x20 ≤ x && x ≤ 0x7E) || x == 0x09) = true ↔ IsText b := by
    simp only [List.all_eq_true, Bool.or_eq_true, Bool.and_eq_true, decide_eq_true_eq, beq_iff_eq]
    rfl
  rw [Headers.valueText?]
  simp only [hall]
  rfl

theorem lookup_contentType (x : String × Bytes) (headers : List (String × Bytes)) :
    (Headers.ofPairs (x :: headers)).first? "content-type" =
      if x.1.toLower = "content-type" then some x.2
      else (Headers.ofPairs headers).first? "content-type" := by
  have hkey : String.ofList (headerKey x.1) = x.1.toLower := by
    rw [headerKey_eq, String.ofList_toList]
  rw [Headers.ofPairs, List.map_cons, hkey, Headers.first?, List.lookup_cons]
  by_cases h : x.1.toLower = "content-type"
  · rw [if_pos h, h, beq_self_eq_true]
  · rw [if_neg h, beq_false_of_ne (Ne.symm h)]
    rfl

theorem first?_ofPairs {b : Bytes} {headers : List (String × Bytes)} (h : FirstContentType b headers) :
    (Headers.ofPairs headers).first? "content-type" = some b := by
  induction h with
  | here h => rw [lookup_contentType, if_pos h]
  | later h _ ih => rw [lookup_contentType, if_neg h, ih]

theorem first?_ofPairs_eq_none {headers : List (String × Bytes)}
    (h : ∀ x ∈ headers, x.1.toLower ≠ "content-type") :
    (Headers.ofPairs headers).first? "content-type" = none := by
  induction headers with
  | nil => rfl
  | cons x headers ih =>
      obtain ⟨hx, hheaders⟩ := List.forall_mem_cons.mp h
      rw [lookup_contentType, if_neg hx, ih hheaders]

theorem ofMediaType?_eq_some_iff {s : String} {mode : Mode} : Mode.ofMediaType? s = some mode ↔
    (mode = .json ∧ s = "application/json") ∨ (mode = .blob ∧ s = "application/octet-stream") ∨
      (mode = .text ∧ (s = "text/plain" ∨ s = "text/html")) := by
  unfold Mode.ofMediaType?
  split
  · cases mode <;> simp
  · cases mode <;> simp
  · cases mode <;> simp
  · cases mode <;> simp
  · next hjson hblob hplain hhtml =>
    refine iff_of_false nofun ?_
    rintro (⟨-, h⟩ | ⟨-, h⟩ | ⟨-, h | h⟩)
    · exact hjson h
    · exact hblob h
    · exact hplain h
    · exact hhtml h

theorem inferMode_first {b : Bytes} {headers : List (String × Bytes)} (h : FirstContentType b headers) :
    inferMode (.ofPairs headers) =
      if IsText b then Mode.ofMediaType? (mediaType (asciiText b)) else none := by
  rw [inferMode, first?_ofPairs h, Option.bind_some, valueText?_eq]
  split <;> rfl

theorem inferMode_text {b : Bytes} {headers : List (String × Bytes)} (h : FirstContentType b headers)
    (hb : IsText b) {m : String} (hm : IsMediaType (asciiText b) m) :
    inferMode (.ofPairs headers) = Mode.ofMediaType? m.toLower := by
  rw [inferMode_first h, if_pos hb, mediaType_eq, ← (isMediaType_iff hb).mp hm]

/-- Without a content type there is no mode. Otherwise the first one decides alone, whatever the other headers: a
value that is not text implies none, and one that is implies what its media type implies, in whatever case it is
written. -/
theorem mode_follows_media_type (headers : List (String × Bytes)) :
    ((∀ x ∈ headers, x.1.toLower ≠ "content-type") → inferMode (.ofPairs headers) = none) ∧
    ∀ b, FirstContentType b headers →
      (∀ others, FirstContentType b others → inferMode (.ofPairs others) = inferMode (.ofPairs headers)) ∧
      (¬ IsText b → inferMode (.ofPairs headers) = none) ∧
      (IsText b → ∃ m, (∀ other, IsMediaType (asciiText b) other ↔ other = m) ∧
        (inferMode (.ofPairs headers) = some .json ↔ m.toLower = "application/json") ∧
        (inferMode (.ofPairs headers) = some .blob ↔ m.toLower = "application/octet-stream") ∧
        (inferMode (.ofPairs headers) = some .text ↔
          m.toLower = "text/plain" ∨ m.toLower = "text/html")) ∧
      ∀ others b' m m', FirstContentType b' others → IsText b → IsText b' →
        IsMediaType (asciiText b) m → IsMediaType (asciiText b') m' → m.toLower = m'.toLower →
        inferMode (.ofPairs others) = inferMode (.ofPairs headers) := by
  refine ⟨?_, ?_⟩
  · intro hnone
    rw [inferMode, first?_ofPairs_eq_none hnone]
    rfl
  · intro b hfirst
    refine ⟨?_, ?_, ?_, ?_⟩
    · intro others hothers
      rw [inferMode_first hothers, inferMode_first hfirst]
    · intro hb
      rw [inferMode_first hfirst, if_neg hb]
    · intro hb
      refine ⟨_, fun other => isMediaType_iff hb, ?_⟩
      rw [inferMode_text hfirst hb (isMediaType_trim hb)]
      simp [ofMediaType?_eq_some_iff]
    · intro others b' m m' hothers hb hb' hm hm' hsame
      rw [inferMode_text hothers hb' hm', inferMode_text hfirst hb hm, hsame]

theorem toLower_eq_iff {name key : String} : name.toLower = key ↔ headerKey name = key.toList := by
  rw [headerKey_eq, String.toList_inj]

def htmlValue : Bytes := Text.encode "\tText/HTML ;q".toList

/-- A web page whose headers name another content type later on. -/
def pageHeaders : List (String × Bytes) :=
  [("Server", [0xFF]), ("CONTENT-TYPE", htmlValue), ("content-type", Text.encode "application/json".toList)]

theorem mode_follows_media_type_page :
    FirstContentType htmlValue pageHeaders ∧ IsText htmlValue ∧
      inferMode (.ofPairs pageHeaders) = some .text := by
  have hserver : "Server".toLower ≠ "content-type" := mt toLower_eq_iff.mp (by decide)
  have hname : "CONTENT-TYPE".toLower = "content-type" := toLower_eq_iff.mpr (by decide)
  have hfirst : FirstContentType htmlValue pageHeaders := .later hserver (.here hname)
  have hb : IsText htmlValue := by decide
  have hm : IsMediaType (asciiText htmlValue) "Text/HTML" := (isMediaType_iff hb).mpr (by decide)
  have hlower : "Text/HTML".toLower = "text/html" := toLower_eq_iff.mpr (by decide)
  obtain ⟨m, hmedia, -, -, htext⟩ := ((mode_follows_media_type pageHeaders).2 _ hfirst).2.2.1 hb
  rw [(hmedia _).mp hm] at hlower
  exact ⟨hfirst, hb, htext.mpr (.inr hlower)⟩

end TypedEndpoints
