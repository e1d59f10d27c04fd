import Mathlib.Data.List.Basic
import TypedEndpoints.Json.Reader
/-! The grammar of JSON, stated apart from the reader: no depth limit, no values, no order of attempts. What
the reader takes off the front of a text is a text of the grammar, so it accepts well-formed texts only. -/
namespace TypedEndpoints.Json

def Blanks (cs : List Char) : Prop := ∀ c ∈ cs, c ∈ [' ', '\t', '\n', '\r']

def IsHexDigit (c : Char) : Prop :=
  ('0' ≤ c ∧ c ≤ '9') ∨ ('a' ≤ c ∧ c ≤ 'f') ∨ ('A' ≤ c ∧ c ≤ 'F')

/-- What stands between the quotes of a string. -/
inductive StringBody : List Char → Prop
  | nil : StringBody []
  | plain {c cs} : 0x20 ≤ c.toNat → c ≠ '"' → c ≠ '\\' → StringBody cs → StringBody (c :: cs)
  | escape {c cs} : c ∈ ['"', '\\', '/', 'b', 'f', 'n', 'r', 't'] → StringBody cs →
      StringBody ('\\' :: c :: cs)
  | unit {a b c d cs} : (∀ x ∈ [a, b, c, d], IsHexDigit x) → StringBody cs →
      StringBody ('\\' :: 'u' :: a :: b :: c :: d :: cs)

def Digits (ds : List Char) : Prop := ds ≠ [] ∧ ∀ d ∈ ds, d.isDigit = true

/-- No zero in front of other digits. -/
def WholeText (ds : List Char) : Prop := Digits ds ∧ (ds.head? = some '0' → ds = ['0'])

inductive FractionText : List Char → Prop
  | none : FractionText []
  | digits {ds} : Digits ds → FractionText ('.' :: ds)

inductive ExponentText : List Char → Prop
  | none : ExponentText []
  | digits {e sign ds} : e ∈ ['e', 'E'] → sign ∈ [[], ['+'], ['-']] → Digits ds →
      ExponentText (e :: sign ++ ds)

inductive NumberText : List Char → Prop
  | mk {sign whole fraction exponent} : sign ∈ [[], ['-']] → WholeText whole → FractionText fraction →
      ExponentText exponent → NumberText (sign ++ whole ++ fraction ++ exponent)

mutual
inductive ValueText : List Char → Prop
  | null : ValueText ['n', 'u', 'l', 'l']
  | true : ValueText ['t', 'r', 'u', 'e']
  | false : ValueText ['f', 'a', 'l', 's', 'e']
  | number {cs} : NumberText cs → ValueText cs
  | string {cs} : StringBody cs → ValueText ('"' :: cs ++ ['"'])
  | emptyList {bs} : Blanks bs → ValueText ('[' :: bs ++ [']'])
  | list {cs} : ItemsText cs → ValueText ('[' :: cs ++ [']'])
  | emptyObject {bs} : Blanks bs → ValueText ('{' :: bs ++ ['}'])
  | object {cs} : MembersText cs → ValueText ('{' :: cs ++ ['}'])

/-- A value between blanks. -/
inductive ElementText : List Char → Prop
  | mk {bs cs bs'} : Blanks bs → ValueText cs → Blanks bs' → ElementText (bs ++ cs ++ bs')

inductive ItemsText : List Char → Prop
  | last {cs} : ElementText cs → ItemsText cs
  | more {cs ds} : ElementText cs → ItemsText ds → ItemsText (cs ++ ',' :: ds)

inductive MemberText : List Char → Prop
  | mk {bs key bs' cs} : Blanks bs → StringBody key → Blanks bs' → ElementText cs →
      MemberText (bs ++ '"' :: key ++ '"' :: bs' ++ ':' :: cs)

inductive MembersText : List Char → Prop
  | last {cs} : MemberText cs → MembersText cs
  | more {cs ds} : MemberText cs → MembersText ds → MembersText (cs ++ ',' :: ds)
end

theorem Blanks.append {bs cs : List Char} (hb : Blanks bs) (hc : Blanks cs) : Blanks (bs ++ cs) := by
  intro c h
  rcases List.mem_append.mp h with h | h
  · exact hb c h
  · exact hc c h

theorem ElementText.pad {bs cs : List Char} (hb : Blanks bs) (h : ElementText cs) : ElementText (bs ++ cs) := by
  obtain ⟨hb', hv, ha⟩ := h
  simpa using ElementText.mk (hb.append hb') hv ha

theorem ItemsText.pad {bs cs : List Char} (hb : Blanks bs) (h : ItemsText cs) : ItemsText (bs ++ cs) := by
  cases h with
  | last h => exact .last (h.pad hb)
  | more h hs => simpa using ItemsText.more (h.pad hb) hs

theorem MembersText.pad {bs cs : List Char} (hb : Blanks bs) (h : MembersText cs) :
    MembersText (bs ++ cs) := by
  have member : ∀ {ds}, MemberText ds → MemberText (bs ++ ds) := by
    rintro _ ⟨hb', hkey, ha, he⟩
    simpa using MemberText.mk (hb.append hb') hkey ha he
  cases h with
  | last h => exact .last (member h)
  | more h hs => simpa using MembersText.more (member h) hs

/-! ### Strings and numbers -/

namespace Reader

theorem exists_blanks (cs : List Char) : ∃ bs, Blanks bs ∧ cs = bs ++ skipBlanks cs := by
  refine ⟨cs.takeWhile isBlank, fun c hc => ?_, List.takeWhile_append_dropWhile.symm⟩
  have hblank := List.all_eq_true.mp List.all_takeWhile c hc
  simp only [isBlank, Bool.or_eq_true, beq_iff_eq] at hblank
  simp only [List.mem_cons, List.not_mem_nil, or_false]
  tauto

theorem isHexDigit_of_hexValue? {c : Char} {n : Nat} (h : Decimal.hexValue? c = some n) : IsHexDigit c := by
  unfold Decimal.hexValue? at h
  split at h
  · next hc =>
    simp only [Char.isDigit, Bool.and_eq_true, decide_eq_true_eq] at hc
    exact .inl hc
  · split at h
    · next hc => exact .inr (.inl hc)
    · split at h
      · next hc => exact .inr (.inr hc)
      · cases h

theorem isHexDigit_of_hex4? {a b c d : Char} {n : Nat} (h : hex4? a b c d = some n) :
    ∀ x ∈ [a, b, c, d], IsHexDigit x := by
  simp only [hex4?, Decimal.hexDigitsValue?, List.foldl_cons, List.foldl_nil, Option.bind_eq_bind,
    Option.bind_eq_some_iff, Option.some.injEq] at h
  obtain ⟨_, ⟨_, ⟨_, ⟨_, _, _, ha, _⟩, _, hb, _⟩, _, hc, _⟩, _, hd, _⟩ := h
  simp only [List.forall_mem_cons, List.not_mem_nil, false_imp_iff, implies_true, and_true]
  exact ⟨isHexDigit_of_hexValue? ha, isHexDigit_of_hexValue? hb, isHexDigit_of_hexValue? hc,
    isHexDigit_of_hexValue? hd⟩

theorem mem_of_simpleEscape? {c x : Char} (h : simpleEscape? c = some x) :
    c ∈ ['"', '\\', '/', 'b', 'f', 'n', 'r', 't'] := by
  unfold simpleEscape? at h
  split at h <;> first | decide | cases h

theorem units_text {acc us : List Unit16} {cs rest : List Char} (h : units acc cs = some (us, rest)) :
    ∃ body, StringBody body ∧ cs = body ++ '"' :: rest := by
  fun_induction units acc cs
  case case2 acc r =>
    cases h
    exact ⟨[], .nil, rfl⟩
  case case3 acc a b c d r n hn ih =>
    obtain ⟨body, hbody, rfl⟩ := ih h
    exact ⟨_, .unit (isHexDigit_of_hex4? hn) hbody, rfl⟩
  case case5 acc e r hunit x hx ih =>
    obtain ⟨body, hbody, rfl⟩ := ih h
    exact ⟨_, .escape (mem_of_simpleEscape? hx) hbody, rfl⟩
  case case8 acc c r hquote hunit hescape hc ih =>
    obtain ⟨body, hbody, rfl⟩ := ih h
    rw [not_or, Nat.not_lt] at hc
    exact ⟨_, .plain hc.1 hquote hc.2 hbody, rfl⟩
  all_goals cases h

theorem string?_text {cs rest : List Char} {s : Option String} (h : string? cs = some (s, rest)) :
    ∃ body, StringBody body ∧ cs = body ++ '"' :: rest := by
  obtain ⟨⟨us, r⟩, hunits, he⟩ := Option.map_eq_some_iff.mp h
  cases he
  exact units_text hunits

theorem digits?_text {cs ds rest : List Char} (h : digits? cs = some (ds, rest)) :
    Digits ds ∧ cs = ds ++ rest := by
  simp only [digits?] at h
  split at h
  · cases h
  · next hne =>
    cases h
    rw [List.isEmpty_iff] at hne
    exact ⟨⟨hne, List.all_eq_true.mp List.all_takeWhile⟩, List.takeWhile_append_dropWhile.symm⟩

theorem whole?_text {cs ds rest : List Char} (h : whole? cs = some (ds, rest)) :
    WholeText ds ∧ cs = ds ++ rest := by
  obtain ⟨⟨ds', rest'⟩, hdigits, h⟩ := Option.bind_eq_some_iff.mp h
  change (if ds'.head? = some '0' ∧ ds'.length ≠ 1 then none else some (ds', rest')) = _ at h
  split at h
  · cases h
  · next hzero =>
    cases h
    obtain ⟨hds, rfl⟩ := digits?_text hdigits
    refine ⟨⟨hds, fun hhead => ?_⟩, rfl⟩
    have hlength : ds.length = 1 := by
      by_contra hne
      exact hzero ⟨hhead, hne⟩
    obtain ⟨d, rfl⟩ := List.length_eq_one_iff.mp hlength
    cases hhead
    rfl

theorem fraction?_text {cs ds rest : List Char} (h : fraction? cs = some (ds, rest)) :
    ∃ text, FractionText text ∧ cs = text ++ rest := by
  unfold fraction? at h
  split at h
  · obtain ⟨hds, rfl⟩ := digits?_text h
    exact ⟨_, .digits hds, rfl⟩
  · cases h
    exact ⟨[], .none, rfl⟩

theorem exponentDigits?_text {cs rest : List Char} {x : Option (Bool × List Char)}
    (h : exponentDigits? cs = some (x, rest)) :
    ∃ sign ds, sign ∈ [[], ['+'], ['-']] ∧ Digits ds ∧ cs = sign ++ ds ++ rest := by
  unfold exponentDigits? at h
  split at h
  all_goals
    obtain ⟨⟨ds, r⟩, hdigits, he⟩ := Option.map_eq_some_iff.mp h
    cases he
    obtain ⟨hds, rfl⟩ := digits?_text hdigits
  · exact ⟨['-'], ds, by simp, hds, rfl⟩
  · exact ⟨['+'], ds, by simp, hds, rfl⟩
  · exact ⟨[], ds, by simp, hds, rfl⟩

theorem exponent?_text {cs rest : List Char} {x : Option (Bool × List Char)}
    (h : exponent? cs = some (x, rest)) : ∃ text, ExponentText text ∧ cs = text ++ rest := by
  unfold exponent? at h
  split at h
  · obtain ⟨sign, ds, hsign, hds, rfl⟩ := exponentDigits?_text h
    exact ⟨_, .digits (e := 'e') (by simp) hsign hds, rfl⟩
  · obtain ⟨sign, ds, hsign, hds, rfl⟩ := exponentDigits?_text h
    exact ⟨_, .digits (e := 'E') (by simp) hsign hds, rfl⟩
  · cases h
    exact ⟨[], .none, rfl⟩

theorem number_text {sign whole fraction r r1 r2 rest : List Char} {exponent : Option (Bool × List Char)}
    (hsign : sign ∈ [[], ['-']]) (hwhole : whole? r = some (whole, r1))
    (hfraction : fraction? r1 = some (fraction, r2)) (hexponent : exponent? r2 = some (exponent, rest)) :
    ∃ text, NumberText text ∧ sign ++ r = text ++ rest := by
  obtain ⟨hw, rfl⟩ := whole?_text hwhole
  obtain ⟨ftext, hf, rfl⟩ := fraction?_text hfraction
  obtain ⟨etext, he, rfl⟩ := exponent?_text hexponent
  exact ⟨_, .mk hsign hw hf he, by simp⟩

theorem numeral?_text {cs rest : List Char} {n : Numeral} (h : numeral? cs = some (n, rest)) :
    ∃ text, NumberText text ∧ cs = text ++ rest := by
  unfold numeral? at h
  split at h
  next hsign =>
  obtain ⟨⟨whole, r1⟩, hwhole, h⟩ := Option.bind_eq_some_iff.mp h
  obtain ⟨⟨fraction, r2⟩, hfraction, h⟩ := Option.bind_eq_some_iff.mp h
  obtain ⟨⟨exponent, r3⟩, hexponent, h⟩ := Option.bind_eq_some_iff.mp h
  cases h
  split at hsign
  · cases hsign
    exact @number_text ['-'] _ _ _ _ _ _ _ (by simp) hwhole hfraction hexponent
  · cases hsign
    exact @number_text [] _ _ _ _ _ _ _ (by simp) hwhole hfraction hexponent

mutual
/-- A value is taken with the blanks before it. The induction is on the fuel, as the reader is. -/
theorem tree?_text {fuel : Nat} {cs rest : List Char} {t : Tree} (h : tree? fuel cs = some (t, rest)) :
    ∃ bs text, Blanks bs ∧ ValueText text ∧ cs = bs ++ (text ++ rest) := by
  cases fuel with
  | zero => cases h
  | succ fuel =>
      obtain ⟨bs, hbs, hcs⟩ := exists_blanks cs
      have done : ∀ {text : List Char}, ValueText text → skipBlanks cs = text ++ rest →
          ∃ bs text, Blanks bs ∧ ValueText text ∧ cs = bs ++ (text ++ rest) := by
        intro text htext hskip
        exact ⟨bs, text, hbs, htext, by rw [← hskip, ← hcs]⟩
      rw [tree?] at h
      split at h
      · next r hskip =>
        obtain ⟨⟨s, r'⟩, hs, he⟩ := Option.map_eq_some_iff.mp h
        cases he
        obtain ⟨body, hbody, rfl⟩ := string?_text hs
        exact done (.string hbody) (by simpa using hskip)
      · next r hskip =>
        obtain ⟨bs', hbs', hr⟩ := exists_blanks r
        split at h
        · next r' hskip' =>
          cases h
          rw [hskip'] at hr
          exact done (.emptyList hbs') (by simp [hskip, hr])
        · obtain ⟨text, htext, hitems⟩ := items?_text h
          rw [hitems] at hr
          exact done (.list (htext.pad hbs')) (by simp [hskip, hr])
      · next r hskip =>
        obtain ⟨bs', hbs', hr⟩ := exists_blanks r
        split at h
        · next r' hskip' =>
          cases h
          rw [hskip'] at hr
          exact done (.emptyObject hbs') (by simp [hskip, hr])
        · obtain ⟨text, htext, hmembers⟩ := members?_text h
          rw [hmembers] at hr
          exact done (.object (htext.pad hbs')) (by simp [hskip, hr])
      · next r hskip =>
        cases h
        exact done .null hskip
      · next r hskip =>
        cases h
        exact done .true hskip
      · next r hskip =>
        cases h
        exact done .false hskip
      · obtain ⟨⟨n, r'⟩, hn, he⟩ := Option.map_eq_some_iff.mp h
        cases he
        obtain ⟨text, htext, hr⟩ := numeral?_text hn
        exact done (.number htext) hr

theorem items?_text {fuel : Nat} {acc : List Tree} {cs rest : List Char} {t : Tree}
    (h : items? fuel acc cs = some (t, rest)) : ∃ text, ItemsText text ∧ cs = text ++ ']' :: rest := by
  cases fuel with
  | zero => cases h
  | succ fuel =>
      rw [items?] at h
      split at h
      · cases h
      · next t' r hitem =>
        obtain ⟨bs, text, hbs, htext, rfl⟩ := tree?_text hitem
        obtain ⟨bs', hbs', hr⟩ := exists_blanks r
        have element := ElementText.mk hbs htext hbs'
        split at h
        · next r' hskip =>
          obtain ⟨more, hmore, rfl⟩ := items?_text h
          rw [hskip] at hr
          exact ⟨_, .more element hmore, by simp [hr]⟩
        · next r' hskip =>
          cases h
          rw [hskip] at hr
          exact ⟨_, .last element, by simp [hr]⟩
        · cases h

theorem members?_text {fuel : Nat} {acc : List (Option String × Tree)} {cs rest : List Char} {t : Tree}
    (h : members? fuel acc cs = some (t, rest)) : ∃ text, MembersText text ∧ cs = text ++ '}' :: rest := by
  cases fuel with
  | zero => cases h
  | succ fuel =>
      obtain ⟨bs, hbs, hcs⟩ := exists_blanks cs
      rw [members?] at h
      split at h
      · next r hskip =>
        split at h
        · cases h
        · next key r' hkey =>
          obtain ⟨body, hbody, rfl⟩ := string?_text hkey
          obtain ⟨bs1, hbs1, hr1⟩ := exists_blanks r'
          split at h
          · next r1 hcolon =>
            split at h
            · cases h
            · next t' r2 hvalue =>
              obtain ⟨bs2, text, hbs2, htext, rfl⟩ := tree?_text hvalue
              obtain ⟨bs3, hbs3, hr3⟩ := exists_blanks r2
              have member := MemberText.mk hbs hbody hbs1 (.mk hbs2 htext hbs3)
              rw [hcolon] at hr1
              rw [hcs, hskip]
              split at h
              · next r3 hcomma =>
                obtain ⟨more, hmore, rfl⟩ := members?_text h
                rw [hcomma] at hr3
                exact ⟨_, .more member hmore, by simp [hr1, hr3]⟩
              · next r3 hbrace =>
                cases h
                rw [hbrace] at hr3
                exact ⟨_, .last member, by simp [hr1, hr3]⟩
              · cases h
          · cases h
      · cases h
end

end Reader

theorem Tree.parse?_text {cs : List Char} {t : Tree} (h : Tree.parse? cs = some t) : ElementText cs := by
  unfold Tree.parse? at h
  split at h
  · next t' rest htree =>
    split at h
    · next hend =>
      obtain ⟨bs, text, hbs, htext, rfl⟩ := Reader.tree?_text htree
      obtain ⟨bs', hbs', hrest⟩ := Reader.exists_blanks rest
      rw [List.isEmpty_iff.mp hend, List.append_nil] at hrest
      rw [hrest, ← List.append_assoc]
      exact .mk hbs htext hbs'
    · cases h
  · cases h

/-- Bytes are well-formed JSON when they are the encoding of a text that is. -/
def WellFormed (b : Bytes) : Prop := ∃ s : String, s.toUTF8 = b.toByteArray ∧ ElementText s.toList

end TypedEndpoints.Json
