import TypedEndpoints.Http.Request
import Mathlib.Data.List.Nodup
/-! The headers that are sent. A header that is put takes out the earlier ones of its name, so of each name
the one put last is left. The default is put first: it stays until a caller's header has its name. -/
namespace TypedEndpoints

theorem asciiLower_eq (c : Char) : asciiLower c = c.toLower := by
  unfold asciiLower Char.toLower
  by_cases h : 'A' ≤ c ∧ c ≤ 'Z'
  · have hval : c.val ≥ 'A'.val ∧ c.val ≤ 'Z'.val := h
    have hlow : 65 ≤ c.val.toNat := UInt32.le_iff_toNat_le.mp hval.1
    have hhigh : c.val.toNat ≤ 90 := UInt32.le_iff_toNat_le.mp hval.2
    have hvalid : (c.toNat + 32).isValidChar := .inl (by simp only [Char.toNat]; omega)
    have hshift : ('a'.val - 'A'.val).toNat = 32 := by decide
    rw [if_pos h, dif_pos hval, Char.ofNat, dif_pos hvalid]
    apply Char.ext
    apply UInt32.toNat_inj.mp
    change c.val.toNat + 32 = (c.val + ('a'.val - 'A'.val)).toNat
    rw [UInt32.toNat_add, hshift]
    omega
  · have hval : ¬ (c.val ≥ 'A'.val ∧ c.val ≤ 'Z'.val) := h
    rw [if_neg h, dif_neg hval]

@[simp] theorem headerKey_eq (name : String) : headerKey name = name.toLower.toList := by
  have hlower : name.toLower = name.map Char.toLower := rfl
  rw [hlower, String.toList_map, headerKey]
  exact congrArg (List.map · name.toList) (funext asciiLower_eq)

@[simp] theorem sameHeader_iff {a b : String} : sameHeader a b = true ↔ a.toLower = b.toLower := by
  simp [sameHeader, String.toList_inj]

def lowerNames (headers : List (String × String)) : List String := headers.map fun h => h.1.toLower

@[simp] theorem lowerNames_cons (h : String × String) (hs : List (String × String)) :
    lowerNames (h :: hs) = h.1.toLower :: lowerNames hs := rfl

theorem putHeader_eq (headers : List (String × String)) (h : String × String) :
    putHeader headers h = headers.filter (fun x => decide (x.1.toLower ≠ h.1.toLower)) ++ [h] := by
  unfold putHeader
  congr 1
  apply List.filter_congr
  intro x _
  by_cases hx : x.1.toLower = h.1.toLower
  · simp [hx]
  · have hdiffer : sameHeader x.1 h.1 = false := by
      simpa only [Bool.not_eq_true] using mt sameHeader_iff.mp hx
    simp [hx, hdiffer]

/-- Of each name the header that comes last. -/
def lastOfEach : List (String × String) → List (String × String)
  | [] => []
  | h :: hs => if h.1.toLower ∈ lowerNames hs then lastOfEach hs else h :: lastOfEach hs

/-- What the loop has made of the headers it started with, and of those it has come to. -/
theorem foldl_putHeader (headers base : List (String × String)) :
    headers.foldl putHeader base =
      base.filter (fun x => decide (x.1.toLower ∉ lowerNames headers)) ++ lastOfEach headers := by
  induction headers generalizing base with
  | nil => simp [lowerNames, lastOfEach]
  | cons h hs ih =>
      have hbase : base.filter (fun x => decide (x.1.toLower ∉ lowerNames hs) &&
          decide (x.1.toLower ≠ h.1.toLower)) =
          base.filter fun x => decide (x.1.toLower ∉ lowerNames (h :: hs)) := by
        apply List.filter_congr
        intro x _
        simp [Bool.and_comm]
      rw [List.foldl_cons, ih, putHeader_eq, List.filter_append, List.filter_filter, hbase,
        List.append_assoc, lastOfEach]
      by_cases hlater : h.1.toLower ∈ lowerNames hs
      · simp [hlater]
      · simp [hlater]

theorem lastOfEach_sublist (headers : List (String × String)) : (lastOfEach headers).Sublist headers := by
  induction headers with
  | nil => exact .slnil
  | cons h hs ih =>
      rw [lastOfEach]
      split
      · exact ih.cons h
      · exact ih.cons_cons h

@[simp] theorem mem_lowerNames_lastOfEach {headers : List (String × String)} {name : String} :
    name ∈ lowerNames (lastOfEach headers) ↔ name ∈ lowerNames headers := by
  induction headers with
  | nil => exact Iff.rfl
  | cons h hs ih =>
      rw [lastOfEach, lowerNames_cons, List.mem_cons]
      split
      · next hlater =>
        rw [ih]
        constructor
        · exact .inr
        · rintro (rfl | hname)
          · exact hlater
          · exact hname
      · simp [ih]

theorem lastOfEach_distinct (headers : List (String × String)) :
    (lowerNames (lastOfEach headers)).Nodup := by
  induction headers with
  | nil => exact .nil
  | cons h hs ih =>
      rw [lastOfEach]
      split
      · exact ih
      · next hlater =>
        apply List.nodup_cons.mpr
        constructor
        · exact fun h => hlater (mem_lowerNames_lastOfEach.mp h)
        · exact ih

theorem lastOfEach_of_distinct {headers : List (String × String)} (h : (lowerNames headers).Nodup) :
    lastOfEach headers = headers := by
  induction headers with
  | nil => rfl
  | cons x hs ih =>
      rw [lowerNames_cons, List.nodup_cons] at h
      rw [lastOfEach, if_neg h.1, ih h.2]

@[simp] theorem defaultHeader_name : defaultHeader.1.toLower = "content-type" := by
  rw [← String.toList_inj, ← headerKey_eq]
  decide

def addedDefault (multipart : Bool) (headers : List (String × String)) : List (String × String) :=
  if multipart = false ∧ "content-type" ∉ lowerNames headers then [defaultHeader] else []

theorem assembleHeaders_eq (multipart : Bool) (headers : List (String × String)) :
    assembleHeaders multipart headers = addedDefault multipart headers ++ lastOfEach headers := by
  rw [assembleHeaders, foldl_putHeader, addedDefault]
  congr 1
  cases multipart with
  | true => simp
  | false => by_cases h : "content-type" ∈ lowerNames headers <;> simp [h]

theorem addedDefault_cases (multipart : Bool) (headers : List (String × String)) :
    (addedDefault multipart headers = [defaultHeader] ∨ addedDefault multipart headers = []) ∧
      (addedDefault multipart headers = [defaultHeader] ↔
        multipart = false ∧ "content-type" ∉ lowerNames headers) := by
  unfold addedDefault
  split
  · next h => exact ⟨.inl rfl, iff_of_true rfl h⟩
  · next h => exact ⟨.inr rfl, iff_of_false (List.cons_ne_nil _ _).symm h⟩

theorem assembleHeaders_distinct (multipart : Bool) (headers : List (String × String)) :
    (lowerNames (assembleHeaders multipart headers)).Nodup := by
  have hkept := lastOfEach_distinct headers
  rw [assembleHeaders_eq, addedDefault]
  split
  · next h =>
    rw [List.singleton_append, lowerNames_cons, List.nodup_cons, defaultHeader_name]
    constructor
    · exact fun hname => h.2 (mem_lowerNames_lastOfEach.mp hname)
    · exact hkept
  · exact hkept

theorem lowerNames_assembleHeaders (multipart : Bool) (headers : List (String × String)) :
    lowerNames headers ⊆ lowerNames (assembleHeaders multipart headers) := by
  intro name hname
  rw [assembleHeaders_eq, lowerNames, List.map_append]
  exact List.mem_append_right _ (mem_lowerNames_lastOfEach.mpr hname)

/-- The headers sent for a descriptor when its map gives the caller's headers in this order. -/
def Descriptor.sentHeaders (d : Descriptor) (order : List (String × String)) : List (String × String) :=
  ({ d with headers := order } : Descriptor).prepare.headers

theorem sentHeaders_eq (d : Descriptor) {order : List (String × String)} (h : order.Perm d.headers) :
    d.sentHeaders order = addedDefault d.isMultipart d.headers ++ lastOfEach order := by
  have hnames : "content-type" ∈ lowerNames order ↔ "content-type" ∈ lowerNames d.headers :=
    (h.map _).mem_iff
  change assembleHeaders d.isMultipart order = _
  simp only [assembleHeaders_eq, addedDefault, hnames]

/-- Whatever the order of the caller's headers, what is sent is the default, if it is added, and then
headers of the caller: no name twice and none of the caller's left out. The default is added just when the
body is not multipart and no header of the caller has its name; the same pair given by the caller is the
caller's. Names that are distinct to begin with are all kept, and their order makes no difference but order. -/
theorem prepare_headers (d : Descriptor) {order : List (String × String)}
    (horder : order.Perm d.headers) :
    ∃ added kept, d.sentHeaders order = added ++ kept ∧ kept.Sublist order ∧
      (added = [defaultHeader] ∨ added = []) ∧
      (added = [defaultHeader] ↔ d.isMultipart = false ∧ "content-type" ∉ lowerNames d.headers) ∧
      (defaultHeader ∉ d.headers → (defaultHeader ∈ d.sentHeaders order ↔ added = [defaultHeader])) ∧
      (lowerNames (d.sentHeaders order)).Nodup ∧
      lowerNames d.headers ⊆ lowerNames (d.sentHeaders order) ∧
      ((lowerNames d.headers).Nodup → kept = order ∧
        ∀ other, other.Perm d.headers → (d.sentHeaders other).Perm (d.sentHeaders order)) := by
  have hsent := sentHeaders_eq d horder
  have hkept := lastOfEach_sublist order
  obtain ⟨hadded, hwhen⟩ := addedDefault_cases d.isMultipart d.headers
  refine ⟨addedDefault d.isMultipart d.headers, lastOfEach order, hsent, hkept, hadded, hwhen, ?_, ?_, ?_, ?_⟩
  · intro hforeign
    have hnot : defaultHeader ∉ lastOfEach order := fun h =>
      hforeign (horder.mem_iff.mp (hkept.mem h))
    rw [hsent, List.mem_append, or_iff_left hnot]
    rcases hadded with h | h <;> simp [h]
  · exact assembleHeaders_distinct d.isMultipart order
  · intro name hname
    apply lowerNames_assembleHeaders
    exact (horder.map _).mem_iff.mpr hname
  · intro hdistinct
    have hall : ∀ {other : List (String × String)}, other.Perm d.headers → lastOfEach other = other :=
      fun h => lastOfEach_of_distinct ((h.map _).nodup_iff.mpr hdistinct)
    refine ⟨hall horder, ?_⟩
    intro other hother
    rw [hsent, sentHeaders_eq d hother, hall horder, hall hother]
    exact (hother.trans horder.symm).append_left _

/-- A note that is sent as plain text. -/
def plainNote : Descriptor :=
  .ofOptions "https://h" "/notes" .post { headers := [("content-type", "text/plain"), ("X-Trace", "7")] }

theorem prepare_headers_plainNote :
    let order := [("X-Trace", "7"), ("content-type", "text/plain")]
    order.Perm plainNote.headers ∧ plainNote.sentHeaders order = order := by
  have horder : [("X-Trace", "7"), ("content-type", "text/plain")].Perm plainNote.headers := .swap _ _ _
  have hnames : lowerNames plainNote.headers = ["content-type", "x-trace"] := by
    simp only [lowerNames, plainNote, Descriptor.ofOptions, List.map_cons, List.map_nil,
      ← String.toList_inj, List.cons.injEq, ← headerKey_eq]
    decide
  obtain ⟨added, kept, hsent, -, hadded, hwhen, -, -, -, hdistinct⟩ := prepare_headers plainNote horder
  obtain ⟨rfl, -⟩ := hdistinct (by rw [hnames]; decide)
  rcases hadded with h | rfl
  · rw [hnames] at hwhen
    exact absurd (hwhen.mp h).2 (by decide)
  · exact ⟨horder, hsent⟩

end TypedEndpoints
