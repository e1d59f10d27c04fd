import Mathlib.Data.List.TakeWhile
import TypedEndpoints.Json.Printer
import TypedEndpoints.Proofs.Json.Grammar
/-! Texts, truth values and integers as the printer writes them are read back as the same value. A float is
not treated here: whether its digits name it again is a matter of decimal notation. -/
namespace TypedEndpoints.Json

namespace Reader

/-! ### Texts -/

theorem assemble_unit {n : Nat} (h : n < 0xD800) (us : List Unit16) :
    assemble (.unit n :: us) = (assemble us).map (Char.ofNat n :: ·) := by
  have hhigh : isHighSurrogate n = false := by
    simp only [isHighSurrogate, Bool.and_eq_false_iff, decide_eq_false_iff_not]
    omega
  have hlow : isLowSurrogate n = false := by
    simp only [isLowSurrogate, Bool.and_eq_false_iff, decide_eq_false_iff_not]
    omega
  cases us with
  | nil => simp [assemble, hhigh, hlow]
  | cons u us => cases u <;> simp [assemble, hhigh, hlow]

theorem hex4?_control {n : Nat} (h : n < 0x20) :
    hex4? '0' '0' (Nat.digitChar (n / 16)) (Nat.digitChar (n % 16)) = some n := by
  have all : ∀ n < 0x20,
      hex4? '0' '0' (Nat.digitChar (n / 16)) (Nat.digitChar (n % 16)) = some n := by decide
  exact all n h

theorem escapeChar_cases (c : Char) :
    (∃ e, escapeChar c = ['\\', e] ∧ simpleEscape? e = some c) ∨
    (c.toNat < 0x20 ∧ escapeChar c =
      ['\\', 'u', '0', '0', Nat.digitChar (c.toNat / 16), Nat.digitChar (c.toNat % 16)]) ∨
    (c ≠ '"' ∧ c ≠ '\\' ∧ 0x20 ≤ c.toNat ∧ escapeChar c = [c]) := by
  by_cases hletter : c ∈ ['"', '\\', '\x08', '\x0c', '\n', '\r', '\t']
  · left
    simp only [List.mem_cons, List.not_mem_nil, or_false] at hletter
    rcases hletter with rfl | rfl | rfl | rfl | rfl | rfl | rfl
    all_goals exact ⟨_, rfl, rfl⟩
  · right
    simp only [List.mem_cons, List.not_mem_nil, or_false, not_or] at hletter
    by_cases hcontrol : c.toNat < 0x20
    · left
      refine ⟨hcontrol, ?_⟩
      simp [escapeChar, hletter, hcontrol]
    · right
      refine ⟨hletter.1, hletter.2.1, Nat.not_lt.mp hcontrol, ?_⟩
      simp [escapeChar, hletter, hcontrol]

/-- Of an escaped character one unit is read, and the unit is put together to the character. -/
theorem units_escapeChar (c : Char) : ∃ u,
    (∀ acc r, units acc (escapeChar c ++ r) = units (u :: acc) r) ∧
      ∀ us, assemble (u :: us) = (assemble us).map (c :: ·) := by
  obtain ⟨e, hc, he⟩ | ⟨hcontrol, hc⟩ | ⟨hquote, hslash, hplain, hc⟩ := escapeChar_cases c
  · refine ⟨.char c, ?_, fun us => rfl⟩
    intro acc r
    have hu : e ≠ 'u' := by
      rintro rfl
      cases he
    simp [hc, units, hu, he]
  · refine ⟨.unit c.toNat, ?_, ?_⟩
    · intro acc r
      simp [hc, units, hex4?_control hcontrol]
    · intro us
      rw [assemble_unit (by omega), Char.ofNat_toNat]
  · refine ⟨.char c, ?_, fun us => rfl⟩
    intro acc r
    simp [hc, units, hslash, Nat.not_lt.mpr hplain]

/-- The induction is on the text; the units come out in reverse, on top of those read before. -/
theorem units_escaped (s : List Char) (r : List Char) : ∀ acc, ∃ us,
    units acc (s.flatMap escapeChar ++ '"' :: r) = some (us.reverse ++ acc, r) ∧ assemble us = some s := by
  induction s with
  | nil =>
      intro acc
      exact ⟨[], rfl, rfl⟩
  | cons c s ih =>
      intro acc
      obtain ⟨u, hread, hstand⟩ := units_escapeChar c
      obtain ⟨us, hus, hs⟩ := ih (u :: acc)
      refine ⟨u :: us, ?_, ?_⟩
      · rw [List.flatMap_cons, List.append_assoc, hread, hus]
        simp
      · rw [hstand, hs]
        rfl

@[simp] theorem string?_escaped (s : String) (r : List Char) :
    string? (s.toList.flatMap escapeChar ++ '"' :: r) = some (some s, r) := by
  obtain ⟨us, hus, hs⟩ := units_escaped s.toList r []
  simp [string?, hus, hs]

@[simp] theorem tree?_quoted (fuel : Nat) (s : String) (r : List Char) :
    tree? (fuel + 1) (quoted s ++ r) = some (.text (some s), r) := by
  have hquoted : quoted s ++ r = '"' :: (s.toList.flatMap escapeChar ++ '"' :: r) := by simp [quoted]
  have hskip : ∀ cs, skipBlanks ('"' :: cs) = '"' :: cs := fun cs => rfl
  rw [hquoted, tree?, hskip]
  simp

/-! ### Integers -/

theorem whole?_of_wholeText {ds : List Char} (h : WholeText ds) : whole? ds = some (ds, []) := by
  obtain ⟨⟨hne, hdigits⟩, hzero⟩ := h
  have htake : ds.takeWhile Char.isDigit = ds := List.takeWhile_eq_self_iff.mpr hdigits
  have hdrop : ds.dropWhile Char.isDigit = [] := List.dropWhile_eq_nil_iff.mpr hdigits
  have hnone : ¬ (ds.head? = some '0' ∧ ds.length ≠ 1) := by
    rintro ⟨hhead, hlength⟩
    exact hlength (by rw [hzero hhead]; rfl)
  simp [whole?, digits?, htake, hdrop, hne, hnone]

theorem numeral?_of_wholeText {ds : List Char} (h : WholeText ds) :
    numeral? ds = some (⟨false, ds, [], none⟩, []) ∧
      numeral? ('-' :: ds) = some (⟨true, ds, [], none⟩, []) := by
  have hwhole := whole?_of_wholeText h
  have hsign : ∀ r, ds ≠ '-' :: r := by
    rintro r rfl
    exact absurd (h.1.2 '-' List.mem_cons_self) (by decide)
  constructor
  · unfold numeral?
    split
    next hneg =>
    split at hneg
    · exact absurd rfl (hsign _)
    · cases hneg
      simp [hwhole, fraction?, exponent?]
  · simp [numeral?, hwhole, fraction?, exponent?]

theorem tree?_number {c : Char} (h : c = '-' ∨ c.isDigit = true) (fuel : Nat) (r : List Char) :
    tree? (fuel + 1) (c :: r) = (numeral? (c :: r)).map fun p => (.number p.1, p.2) := by
  have hne : ∀ x : Char, x ≠ '-' → x.isDigit = false → c ≠ x := by
    rintro x hminus hdigit rfl
    rcases h with rfl | h
    · exact hminus rfl
    · rw [h] at hdigit
      cases hdigit
  have hskip : skipBlanks (c :: r) = c :: r := by
    have hblank : isBlank c = false := by
      simp [isBlank, hne ' ', hne '\n', hne '\t', hne '\r']
    simp [skipBlanks, hblank]
  rw [tree?, hskip]
  split
  all_goals try (next heq => cases heq; exact absurd rfl (hne _ (by decide) (by decide)))
  rfl

end Reader

theorem Tree.parse?_of_tree? {cs : List Char} {t : Tree} (h : ∀ fuel, Reader.tree? (fuel + 1) cs = some (t, [])) :
    Tree.parse? cs = some t := by
  rw [Tree.parse?, h]
  rfl

@[simp] theorem Value.parse?_quoted (s : String) : Value.parse? (quoted s) = some (.text s) := by
  have htree : Tree.parse? (quoted s) = some (.text (some s)) := by
    apply Tree.parse?_of_tree?
    intro fuel
    simpa using Reader.tree?_quoted fuel s []
  rw [Value.parse?, htree]
  rfl

@[simp] theorem Value.parse?_bool (b : Bool) : Value.parse? (Value.chars (.bool b)) = some (.bool b) := by
  cases b <;> rfl

/-! ### Integers as numerals -/

theorem isDigit_of_mem_digitsOf {n : Nat} {d : Char} (h : d ∈ Decimal.digitsOf n) : d.isDigit = true :=
  Nat.isDigit_of_mem_toDigits (by decide) (by decide) h

/-- By induction on the number without its last digit. -/
theorem head?_digitsOf {n : Nat} (h : n ≠ 0) : (Decimal.digitsOf n).head? ≠ some '0' := by
  induction n using Nat.strongRecOn with
  | ind n ih =>
      by_cases hsmall : n < 10
      · rw [Decimal.digitsOf, Nat.toDigits_of_lt_base hsmall]
        simp [h]
      · have hlarge : 10 ≤ n := Nat.not_lt.mp hsmall
        rw [Decimal.digitsOf, Nat.toDigits_of_base_le (by decide) hlarge,
          List.head?_append_of_ne_nil _ Nat.toDigits_ne_nil]
        exact ih (n / 10) (Nat.div_lt_self (by omega) (by decide)) (by omega)

theorem wholeText_digitsOf (n : Nat) : WholeText (Decimal.digitsOf n) := by
  refine ⟨⟨Nat.toDigits_ne_nil, fun d hd => isDigit_of_mem_digitsOf hd⟩, ?_⟩
  intro hhead
  by_cases hn : n = 0
  · subst hn
    rfl
  · exact absurd hhead (head?_digitsOf hn)

namespace Numeral

theorem wholeDigits_of_le (ds : List Char) : ∀ acc, Nat.ofDigitChars 10 ds acc ≤ maxWord →
    wholeDigits acc ds = (Nat.ofDigitChars 10 ds acc, 0) := by
  induction ds with
  | nil =>
      intro acc _
      rw [wholeDigits, Nat.ofDigitChars_nil]
  | cons d ds ih =>
      intro acc hfits
      have hvalue : acc * 10 + Decimal.digitValue d = 10 * acc + (d.toNat - '0'.toNat) := by
        rw [Decimal.digitValue, Nat.mul_comm]
      rw [Nat.ofDigitChars_cons, ← hvalue] at hfits ⊢
      have hstep : acc * 10 + Decimal.digitValue d ≤ maxWord := by
        rw [Nat.ofDigitChars_eq_ofDigitChars_zero] at hfits
        have hpow : 1 ≤ 10 ^ ds.length := Nat.one_le_pow _ _ (by decide)
        calc acc * 10 + Decimal.digitValue d
            ≤ 10 ^ ds.length * (acc * 10 + Decimal.digitValue d) := Nat.le_mul_of_pos_left _ hpow
          _ ≤ 10 ^ ds.length * (acc * 10 + Decimal.digitValue d) + Nat.ofDigitChars 10 ds 0 :=
              Nat.le_add_right _ _
          _ ≤ maxWord := hfits
      simp only [wholeDigits, hstep, if_true]
      exact ih _ hfits

@[simp] theorem wholeDigits_digitsOf {n : Nat} (h : n ≤ maxWord) : wholeDigits 0 (Decimal.digitsOf n) = (n, 0) := by
  have hvalue : Nat.ofDigitChars 10 (Decimal.digitsOf n) 0 = n := Nat.ofDigitChars_ten_toDigits
  have hword : Nat.ofDigitChars 10 (Decimal.digitsOf n) 0 ≤ maxWord := by
    rw [hvalue]
    exact h
  rw [wholeDigits_of_le _ _ hword, hvalue]

theorem value?_digitsOf {n : Nat} (h : n ≤ maxWord) :
    value? ⟨false, Decimal.digitsOf n, [], none⟩ = some (.int (Int.ofNat n)) := by
  simp [value?, h]

theorem value?_minus_digitsOf {n : Nat} (hpos : n ≠ 0) (h : n ≤ Nat.pow 2 63) :
    value? ⟨true, Decimal.digitsOf n, [], none⟩ = some (.int (-Int.ofNat n)) := by
  have hword : n ≤ maxWord := Nat.le_trans h (by decide)
  have hsigned : n ≠ 0 ∧ n ≤ Nat.pow 2 63 := ⟨hpos, h⟩
  simp [value?, hword, hsigned]

end Numeral

theorem Value.parse?_of_numeral? {c : Char} {cs : List Char} {n : Numeral} {v : Number}
    (hc : c = '-' ∨ c.isDigit = true) (hn : Reader.numeral? (c :: cs) = some (n, []))
    (hv : n.value? = some v) : Value.parse? (c :: cs) = some (.number v) := by
  have htree : Tree.parse? (c :: cs) = some (.number n) := by
    apply Tree.parse?_of_tree?
    intro fuel
    rw [Reader.tree?_number hc, hn]
    rfl
  rw [Value.parse?, htree]
  simp [Tree.value?, hv]

/-- Every integer of 64 bits, signed or not. -/
theorem Value.parse?_intText {i : Int} (hlow : -Int.pow 2 63 ≤ i) (hhigh : i < Int.pow 2 64) :
    Value.parse? (intText i) = some (.number (.int i)) := by
  obtain ⟨hplain, hminus⟩ := Reader.numeral?_of_wholeText (wholeText_digitsOf i.natAbs)
  unfold intText
  split
  · next hneg =>
    have hsize : i.natAbs ≤ Nat.pow 2 63 := by
      have hpow : (Nat.pow 2 63 : Int) = Int.pow 2 63 := rfl
      omega
    have hvalue := Numeral.value?_minus_digitsOf (Int.natAbs_ne_zero.mpr (Int.ne_of_lt hneg)) hsize
    have hi : -Int.ofNat i.natAbs = i := by
      rw [Int.ofNat_eq_natCast]
      omega
    rw [hi] at hvalue
    exact Value.parse?_of_numeral? (.inl rfl) hminus hvalue
  · next hpos =>
    have hsize : i.natAbs ≤ Numeral.maxWord := by
      have hpow : (Numeral.maxWord : Int) + 1 = Int.pow 2 64 := rfl
      omega
    have hvalue := Numeral.value?_digitsOf hsize
    have hi : Int.ofNat i.natAbs = i := by
      rw [Int.ofNat_eq_natCast]
      omega
    rw [hi] at hvalue
    obtain ⟨d, ds, hds⟩ := List.exists_cons_of_ne_nil (wholeText_digitsOf i.natAbs).1.1
    have hd : d.isDigit = true := isDigit_of_mem_digitsOf (hds ▸ List.mem_cons_self)
    rw [hds] at hplain hvalue ⊢
    exact Value.parse?_of_numeral? (.inr hd) hplain hvalue

end TypedEndpoints.Json
