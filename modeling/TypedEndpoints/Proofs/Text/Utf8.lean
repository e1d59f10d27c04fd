import Mathlib.Data.List.Basic
import TypedEndpoints.Text.Utf8
/-! Bytes and text. Each character has one form in bytes and nothing else is read as it, so reading bytes and
writing text are inverse to each other, and what can be read is what the standard encoding produces. -/
namespace TypedEndpoints.Text

/-- A character and its form. The bounds on the second byte leave out longer forms of the same character,
halves of surrogate pairs and numbers beyond the last character. -/
inductive Form (x : Char) : Bytes → Prop
  | one {a : UInt8} : a.toNat < 0x80 → x.toNat = a.toNat → Form x [a]
  | two {a b : UInt8} : 0xC2 ≤ a.toNat → a.toNat < 0xE0 → isContinuation b = true →
      x.toNat = extend (a.toNat - 0xC0) b → Form x [a, b]
  | three {a b c : UInt8} : 0xE0 ≤ a.toNat → a.toNat < 0xF0 → isSecondOfThree a b = true →
      isContinuation c = true → x.toNat = extend (extend (a.toNat - 0xE0) b) c → Form x [a, b, c]
  | four {a b c d : UInt8} : 0xF0 ≤ a.toNat → a.toNat < 0xF5 → isSecondOfFour a b = true →
      isContinuation c = true → isContinuation d = true →
      x.toNat = extend (extend (extend (a.toNat - 0xF0) b) c) d → Form x [a, b, c, d]

@[simp] theorem isContinuation_iff {b : UInt8} : isContinuation b = true ↔ 0x80 ≤ b.toNat ∧ b.toNat ≤ 0xBF := by
  simp [isContinuation, UInt8.le_iff_toNat_le]

@[simp] theorem isSecondOfThree_iff {a b : UInt8} : isSecondOfThree a b = true ↔
    (0x80 ≤ b.toNat ∧ b.toNat ≤ 0xBF) ∧ (a.toNat = 0xE0 → 0xA0 ≤ b.toNat) ∧
      (a.toNat = 0xED → b.toNat ≤ 0x9F) := by
  unfold isSecondOfThree
  split
  · next h => subst h; simp [UInt8.le_iff_toNat_le]; omega
  · next h =>
    have ha : a.toNat ≠ 0xE0 := fun e => h (UInt8.toNat_inj.mp e)
    split
    · next h => subst h; simp [UInt8.le_iff_toNat_le]; omega
    · next h =>
      have ha' : a.toNat ≠ 0xED := fun e => h (UInt8.toNat_inj.mp e)
      simp [ha, ha']

@[simp] theorem isSecondOfFour_iff {a b : UInt8} : isSecondOfFour a b = true ↔
    (0x80 ≤ b.toNat ∧ b.toNat ≤ 0xBF) ∧ (a.toNat = 0xF0 → 0x90 ≤ b.toNat) ∧
      (a.toNat = 0xF4 → b.toNat ≤ 0x8F) := by
  unfold isSecondOfFour
  split
  · next h => subst h; simp [UInt8.le_iff_toNat_le]; omega
  · next h =>
    have ha : a.toNat ≠ 0xF0 := fun e => h (UInt8.toNat_inj.mp e)
    split
    · next h => subst h; simp [UInt8.le_iff_toNat_le]; omega
    · next h =>
      have ha' : a.toNat ≠ 0xF4 := fun e => h (UInt8.toNat_inj.mp e)
      simp [ha, ha']

theorem toNat_char (c : Char) : c.toNat < 0xD800 ∨ 0xDFFF < c.toNat ∧ c.toNat < 0x110000 := c.valid

theorem toNat_ofNat {n : Nat} (h : n < 0xD800 ∨ 0xDFFF < n ∧ n < 0x110000) : (Char.ofNat n).toNat = n := by
  have hchar : Char.ofNat n = Char.ofNatAux n h := dif_pos h
  rw [hchar]
  rfl

theorem toNat_byte {n : Nat} (h : n < 0x100) : (UInt8.ofNat n).toNat = n := by
  rw [UInt8.toNat_ofNat', Nat.mod_eq_of_lt h]

theorem byte_eq {n : Nat} {b : UInt8} (h : n = b.toNat) : UInt8.ofNat n = b := by
  rw [h, UInt8.ofNat_toNat]

/-- Every character has a form, the one in which it is written. -/
theorem form_encodeChar (x : Char) : Form x (encodeChar x) := by
  have hx := toNat_char x
  rw [encodeChar]
  split
  · have ha := toNat_byte (n := x.toNat) (by omega)
    exact .one (by omega) ha.symm
  · split
    · have ha := toNat_byte (n := 0xC0 + x.toNat / 64) (by omega)
      have hb := toNat_byte (n := 0x80 + x.toNat % 64) (by omega)
      refine .two (by omega) (by omega) (isContinuation_iff.mpr (by omega)) ?_
      unfold extend
      omega
    · split
      · have ha := toNat_byte (n := 0xE0 + x.toNat / 4096) (by omega)
        have hb := toNat_byte (n := 0x80 + x.toNat / 64 % 64) (by omega)
        have hc := toNat_byte (n := 0x80 + x.toNat % 64) (by omega)
        refine .three (by omega) (by omega) (isSecondOfThree_iff.mpr (by omega))
          (isContinuation_iff.mpr (by omega)) ?_
        unfold extend
        omega
      · have ha := toNat_byte (n := 0xF0 + x.toNat / 262144) (by omega)
        have hb := toNat_byte (n := 0x80 + x.toNat / 4096 % 64) (by omega)
        have hc := toNat_byte (n := 0x80 + x.toNat / 64 % 64) (by omega)
        have hd := toNat_byte (n := 0x80 + x.toNat % 64) (by omega)
        refine .four (by omega) (by omega) (isSecondOfFour_iff.mpr (by omega))
          (isContinuation_iff.mpr (by omega)) (isContinuation_iff.mpr (by omega)) ?_
        unfold extend
        omega

/-- A character is written in its one form. -/
theorem Form.encodeChar {x : Char} {bs : Bytes} (h : Form x bs) : encodeChar x = bs := by
  cases h with
  | one ha hx =>
      rw [Text.encodeChar, if_pos (by omega), byte_eq hx]
  | @two a b ha ha' hb hx =>
      rw [isContinuation_iff] at hb
      unfold extend at hx
      rw [Text.encodeChar, if_neg (by omega), if_pos (by omega), byte_eq (b := a) (by omega),
        byte_eq (b := b) (by omega)]
  | @three a b c ha ha' hb hc hx =>
      rw [isSecondOfThree_iff] at hb
      rw [isContinuation_iff] at hc
      unfold extend at hx
      rw [Text.encodeChar, if_neg (by omega), if_neg (by omega), if_pos (by omega),
        byte_eq (b := a) (by omega), byte_eq (b := b) (by omega), byte_eq (b := c) (by omega)]
  | @four a b c d ha ha' hb hc hd hx =>
      rw [isSecondOfFour_iff] at hb
      rw [isContinuation_iff] at hc hd
      unfold extend at hx
      rw [Text.encodeChar, if_neg (by omega), if_neg (by omega), if_neg (by omega),
        byte_eq (b := a) (by omega), byte_eq (b := b) (by omega), byte_eq (b := c) (by omega),
        byte_eq (b := d) (by omega)]

/-- A form in front of other bytes is read as its character. -/
theorem Form.decodeFrom {x : Char} {bs : Bytes} (h : Form x bs) (index : Nat) (rest : Bytes) :
    decodeFrom index (bs ++ rest) = (x :: ·) <$> decodeFrom (index + bs.length) rest := by
  have hback := Char.ofNat_toNat x
  rw [Text.decodeFrom.eq_def]
  cases h with
  | one ha hx =>
      simp only [List.cons_append, List.nil_append, UInt8.lt_iff_toNat_lt, UInt8.reduceToNat, ← hx, hback]
      rw [if_pos (by omega)]
      rfl
  | two ha ha' hb hx =>
      simp only [List.cons_append, List.nil_append, UInt8.lt_iff_toNat_lt, UInt8.reduceToNat, hb, ← hx,
        hback]
      rw [if_neg (by omega), if_neg (by omega), if_pos ha']
      rfl
  | three ha ha' hb hc hx =>
      simp only [List.cons_append, List.nil_append, UInt8.lt_iff_toNat_lt, UInt8.reduceToNat, hb, hc, ← hx,
        hback]
      rw [if_neg (by omega), if_neg (by omega), if_neg (by omega), if_pos ha']
      rfl
  | four ha ha' hb hc hd hx =>
      simp only [List.cons_append, List.nil_append, UInt8.lt_iff_toNat_lt, UInt8.reduceToNat, hb, hc, hd,
        ← hx, hback]
      rw [if_neg (by omega), if_neg (by omega), if_neg (by omega), if_neg (by omega), if_pos ha']
      rfl

theorem map_cons_eq_ok {ε α : Type} {x : α} {e : Except ε (List α)} {cs : List α}
    (h : (x :: ·) <$> e = .ok cs) : ∃ r, e = .ok r ∧ cs = x :: r := by
  cases e with
  | error e => cases h
  | ok r => exact ⟨r, rfl, (Except.ok.inj h).symm⟩

/-- Bytes that are read as a text are this text as it is written: nothing is passed over. -/
theorem encode_of_decodeFrom {index : Nat} {b : Bytes} {cs : List Char}
    (h : Text.decodeFrom index b = .ok cs) : encode cs = b := by
  have step : ∀ {x : Char} {form rest : Bytes} {cs : List Char}, Form x form → encode cs = rest →
      encode (x :: cs) = form ++ rest := by
    rintro x form rest cs hform rfl
    rw [encode, List.flatMap_cons, hform.encodeChar]
    rfl
  fun_induction Text.decodeFrom index b generalizing cs
  case case1 =>
    cases h
    rfl
  case case2 index a r ha ih =>
    obtain ⟨r, hr, rfl⟩ := map_cons_eq_ok h
    simp only [UInt8.lt_iff_toNat_lt, UInt8.reduceToNat] at ha
    have hx := toNat_ofNat (n := a.toNat) (by omega)
    exact step (.one ha hx) (ih hr)
  case case5 index a h1 h2 ha b r hb ih =>
    obtain ⟨r, hr, rfl⟩ := map_cons_eq_ok h
    simp only [UInt8.lt_iff_toNat_lt, UInt8.reduceToNat, Nat.not_lt] at h2 ha
    have hb' := isContinuation_iff.mp hb
    have hx := toNat_ofNat (n := extend (a.toNat - 0xC0) b) (by unfold extend; omega)
    exact step (.two h2 ha hb hx) (ih hr)
  case case11 index a h1 h2 h3 ha b c r hb hc ih =>
    obtain ⟨r, hr, rfl⟩ := map_cons_eq_ok h
    simp only [UInt8.lt_iff_toNat_lt, UInt8.reduceToNat, Nat.not_lt] at h3 ha
    simp only [Bool.not_eq_true', Bool.not_eq_false] at hb hc
    have hb' := isSecondOfThree_iff.mp hb
    have hc' := isContinuation_iff.mp hc
    have hx := toNat_ofNat (n := extend (extend (a.toNat - 0xE0) b) c) (by unfold extend; omega)
    exact step (.three h3 ha hb hc hx) (ih hr)
  case case18 index a h1 h2 h3 h4 ha b c d r hb hc hd ih =>
    obtain ⟨r, hr, rfl⟩ := map_cons_eq_ok h
    simp only [UInt8.lt_iff_toNat_lt, UInt8.reduceToNat, Nat.not_lt] at h4 ha
    simp only [Bool.not_eq_true', Bool.not_eq_false] at hb hc hd
    have hb' := isSecondOfFour_iff.mp hb
    have hc' := isContinuation_iff.mp hc
    have hd' := isContinuation_iff.mp hd
    have hx := toNat_ofNat (n := extend (extend (extend (a.toNat - 0xF0) b) c) d) (by unfold extend; omega)
    exact step (.four h4 ha hb hc hd hx) (ih hr)
  -- the other ways end in a fault
  all_goals cases h

@[simp] theorem decodeFrom_encode (index : Nat) (cs : List Char) : Text.decodeFrom index (encode cs) = .ok cs := by
  induction cs generalizing index with
  | nil => rfl
  | cons c cs ih =>
      rw [encode, List.flatMap_cons, (form_encodeChar c).decodeFrom]
      change _ <$> Text.decodeFrom _ (encode cs) = _
      rw [ih]
      rfl

/-- The bytes of a character are those of the standard. -/
theorem encodeChar_eq_utf8 (c : Char) : encodeChar c = String.utf8EncodeChar c := by
  have hc := toNat_char c
  unfold encodeChar String.utf8EncodeChar
  simp only [Char.toNat_val, ← Nat.lt_succ_iff, Nat.reduceSucc]
  generalize c.toNat = n at hc
  split
  · rfl
  · split
    · have ha : n / 64 % 32 = n / 64 := by omega
      simp only [ha, Nat.add_comm]
    · split
      · have ha : n / 4096 % 16 = n / 4096 := by omega
        simp only [ha, Nat.add_comm]
      · have ha : n / 262144 % 8 = n / 262144 := by omega
        simp only [ha, Nat.add_comm]

theorem encode_eq_iff {cs : List Char} {b : Bytes} :
    encode cs = b ↔ (String.ofList cs).toUTF8 = b.toByteArray := by
  have hchars : encode cs = cs.flatMap String.utf8EncodeChar :=
    List.flatMap_congr fun c _ => encodeChar_eq_utf8 c
  rw [String.toUTF8, String.toByteArray_ofList, List.utf8Encode, List.toByteArray_inj, hchars]

/-- Bytes are read as a text exactly when they are its encoding. -/
theorem decode_eq_ok_iff {b : Bytes} {cs : List Char} :
    decode b = .ok cs ↔ (String.ofList cs).toUTF8 = b.toByteArray := by
  rw [← encode_eq_iff]
  exact ⟨encode_of_decodeFrom, fun h => h ▸ decodeFrom_encode 0 cs⟩

theorem decode_isOk_iff {b : Bytes} : (∃ cs, decode b = .ok cs) ↔ b.toByteArray.IsValidUTF8 := by
  constructor
  · rintro ⟨cs, h⟩
    rw [← decode_eq_ok_iff.mp h]
    exact (String.ofList cs).isValidUTF8
  · rintro ⟨cs, h⟩
    refine ⟨cs, decode_eq_ok_iff.mpr ?_⟩
    rw [h, String.toUTF8, String.toByteArray_ofList]

end TypedEndpoints.Text
