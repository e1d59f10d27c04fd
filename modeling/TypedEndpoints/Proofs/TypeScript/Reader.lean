import TypedEndpoints.TypeScript.Layout
import Mathlib.Data.List.Basic
/-! Reading types back from text. The reader knows no layout: between the parts of an object type any
blanks may stand, and a member is closed by `;` or by the end of its object. `TypeText` is the grammar,
stated apart from the reader, and every text of the grammar is read as the type it is a text of. -/
namespace TypedEndpoints.TypeScript

def isBlank (c : Char) : Bool := c == ' ' || c == '\t' || c == '\n'

def skipBlanks (cs : List Char) : List Char := cs.dropWhile isBlank

/-- The text up to the closing quote. A backslash stands for the character after it. -/
def readQuoted : List Char → Option (List Char × List Char)
  | [] => none
  | '\'' :: cs => some ([], cs)
  | ['\\'] => none
  | '\\' :: c :: cs => (readQuoted cs).map fun r => (c :: r.1, r.2)
  | c :: cs => (readQuoted cs).map fun r => (c :: r.1, r.2)

def readWord (cs : List Char) : Option (List Char × List Char) :=
  let word := cs.takeWhile isIdentifierPart
  if isIdentifier word then some (word, cs.dropWhile isIdentifierPart) else none

def readKey : List Char → Option (String × List Char)
  | '\'' :: cs => (readQuoted cs).map fun r => (String.ofList r.1, r.2)
  | cs => (readWord cs).map fun r => (String.ofList r.1, r.2)

def readMark : List Char → Option (Bool × List Char)
  | ':' :: ' ' :: cs => some (false, cs)
  | '?' :: ':' :: ' ' :: cs => some (true, cs)
  | _ => none

def Primitive.all : List Primitive := [.string, .number, .boolean, .any, .undefined]

def Primitive.ofName? (name : String) : Option Primitive := all.find? (·.name = name)

/-- The type of a word: a keyword, or else a declared name. -/
def wordType (word : List Char) : TypeExpr :=
  match Primitive.ofName? (String.ofList word) with
  | some p => .primitive p
  | none => .ref (String.ofList word)

def readSuffixes : TypeExpr → List Char → TypeExpr × List Char
  | t, '[' :: ']' :: cs => readSuffixes (.array t) cs
  | t, cs => (t, cs)

def readMember (read : List Char → Option (TypeExpr × List Char)) (cs : List Char) :
    Option (Member TypeExpr × List Char) := do
  let (name, cs) ← readKey cs
  let (optional, cs) ← readMark cs
  let (type, cs) ← read cs
  return (⟨name, type, optional⟩, cs)

mutual
def readType : Nat → List Char → Option (TypeExpr × List Char)
  | 0, _ => none
  | fuel + 1, '{' :: cs => do
    let (xs, cs) ← readMembers fuel cs
    return readSuffixes (.object xs) cs
  | _ + 1, cs => do
    let (word, cs) ← readWord cs
    return readSuffixes (wordType word) cs

/-- The members of an object type, with its closing brace. -/
def readMembers : Nat → List Char → Option (List (Member TypeExpr) × List Char)
  | 0, _ => none
  | fuel + 1, cs =>
    match skipBlanks cs with
    | '}' :: cs => some ([], cs)
    | cs => do
      let (x, cs) ← readMember (readType fuel) cs
      match skipBlanks cs with
      | ';' :: cs => do
        let (xs, cs) ← readMembers fuel cs
        return (x :: xs, cs)
      | '}' :: cs => return ([x], cs)
      | _ => none
end

def TypeExpr.read (text : String) : Option TypeExpr :=
  match readType (text.toList.length + 1) text.toList with
  | some (t, []) => some t
  | _ => none

def Blanks (cs : List Char) : Prop := ∀ c ∈ cs, isBlank c = true

mutual
inductive TypeText : TypeExpr → List Char → Prop
  | primitive (p : Primitive) : TypeText (.primitive p) p.name.toList
  | ref {name : String} : needsQuoting name = false → (∀ p : Primitive, p.name ≠ name) →
      TypeText (.ref name) name.toList
  | array {t cs} : TypeText t cs → TypeText (.array t) (cs ++ ['[', ']'])
  | object {xs cs} : MembersText xs cs → TypeText (.object xs) ('{' :: cs)

/-- A text of members, with the closing brace of their object. -/
inductive MembersText : List (Member TypeExpr) → List Char → Prop
  | close {bs} : Blanks bs → MembersText [] (bs ++ ['}'])
  | last {x : Member TypeExpr} {bs cs bs'} : Blanks bs → TypeText x.type cs → Blanks bs' →
      MembersText [x] (bs ++ (keyChars x.name ++ (mark x.optional ++ (cs ++ (bs' ++ ['}'])))))
  | more {x : Member TypeExpr} {xs bs cs ms} : Blanks bs → TypeText x.type cs → MembersText xs ms →
      MembersText (x :: xs) (bs ++ (keyChars x.name ++ (mark x.optional ++ (cs ++ ';' :: ms))))
end

/-! ### Words and keys -/

/-- A word can end before such a text. -/
def WordEnds (rest : List Char) : Prop := ∀ c ∈ rest.head?, isIdentifierPart c = false

theorem isIdentifier_all {word : List Char} (h : isIdentifier word = true) :
    ∀ c ∈ word, isIdentifierPart c = true := by
  cases word with
  | nil => cases h
  | cons c cs =>
      obtain ⟨hc, hcs⟩ := Bool.and_eq_true_iff.mp h
      intro d hd
      rcases List.mem_cons.mp hd with rfl | hd
      · simp [isIdentifierPart, hc]
      · exact List.all_eq_true.mp hcs d hd

theorem takeWhile_of_wordEnds {rest : List Char} (h : WordEnds rest) :
    rest.takeWhile isIdentifierPart = [] ∧ rest.dropWhile isIdentifierPart = rest := by
  cases rest with
  | nil => exact ⟨rfl, rfl⟩
  | cons c cs =>
      have hc : isIdentifierPart c = false := h c rfl
      exact ⟨List.takeWhile_cons_of_neg (by simp [hc]), List.dropWhile_cons_of_neg (by simp [hc])⟩

theorem readWord_append {word rest : List Char} (hw : isIdentifier word = true)
    (hr : WordEnds rest) : readWord (word ++ rest) = some (word, rest) := by
  obtain ⟨htake, hdrop⟩ := takeWhile_of_wordEnds hr
  have hall := isIdentifier_all hw
  simp only [readWord, List.takeWhile_append_of_pos hall, List.dropWhile_append_of_pos hall, htake,
    hdrop, List.append_nil, hw, if_true]

@[simp] theorem readQuoted_escaped (cs rest : List Char) :
    readQuoted (cs.flatMap escapeChar ++ '\'' :: rest) = some (cs, rest) := by
  induction cs with
  | nil => rw [List.flatMap_nil, List.nil_append, readQuoted]
  | cons c cs ih =>
      rw [List.flatMap_cons, List.append_assoc, escapeChar]
      split
      · -- the backslash hides what `c` would mean alone
        simp only [List.cons_append, List.nil_append, readQuoted, ih, Option.map_some]
      · next hc =>
        rw [not_or] at hc
        simp only [List.cons_append, List.nil_append]
        rw [readQuoted, ih, Option.map_some]
        · exact hc.2
        · exact fun h => absurd h hc.1
        · exact fun _ _ h => absurd h hc.1

theorem isIdentifier_of_needsQuoting {name : String} (h : needsQuoting name = false) :
    isIdentifier name.toList = true := by
  simpa [needsQuoting] using h

theorem isIdentifierPart_ne {c d : Char} (hc : isIdentifierPart c = true)
    (hd : isIdentifierPart d = false) : c ≠ d := by
  rintro rfl
  rw [hc] at hd
  cases hd

theorem isBlank_not_part {c : Char} (h : isBlank c = true) : isIdentifierPart c = false := by
  simp only [isBlank, Bool.or_eq_true, beq_iff_eq] at h
  rcases h with (rfl | rfl) | rfl <;> decide

theorem identifier_cons {word : List Char} (h : isIdentifier word = true) :
    ∃ c cs, word = c :: cs ∧ isIdentifierPart c = true := by
  cases word with
  | nil => cases h
  | cons c cs => exact ⟨c, cs, rfl, isIdentifier_all h c List.mem_cons_self⟩

/-- A key starts a member: it is no blank and no end of an object. -/
theorem keyChars_cons (name : String) :
    ∃ c cs, keyChars name = c :: cs ∧ isBlank c = false ∧ c ≠ '}' := by
  unfold keyChars
  split
  · exact ⟨_, _, rfl, rfl, by decide⟩
  · next h =>
    obtain ⟨c, cs, hword, hc⟩ := identifier_cons
      (isIdentifier_of_needsQuoting (Bool.eq_false_iff.mpr h))
    refine ⟨c, cs, hword, ?_, isIdentifierPart_ne hc rfl⟩
    refine Bool.eq_false_iff.mpr fun hb => ?_
    rw [isBlank_not_part hb] at hc
    cases hc

theorem readKey_keyChars (name : String) {rest : List Char} (hr : WordEnds rest) :
    readKey (keyChars name ++ rest) = some (name, rest) := by
  unfold keyChars
  split
  · have hq := readQuoted_escaped name.toList rest
    simp only [quoted, List.cons_append, List.append_assoc, List.nil_append, readKey, hq,
      Option.map_some, String.ofList_toList]
  · next h =>
    have hw := isIdentifier_of_needsQuoting (Bool.eq_false_iff.mpr h)
    obtain ⟨c, cs, hword, hc⟩ := identifier_cons hw
    have hread := readWord_append hw hr
    rw [hword, List.cons_append] at hread ⊢
    -- an identifier does not start with a quote, so the key is read as a word
    rw [readKey, hread, Option.map_some, ← hword, String.ofList_toList]
    exact fun _ h => isIdentifierPart_ne hc rfl (List.cons.inj h).1

theorem wordEnds_mark (optional : Bool) (rest : List Char) : WordEnds (mark optional ++ rest) := by
  cases optional <;> rintro _ ⟨⟩ <;> rfl

@[simp] theorem readMark_append (optional : Bool) (rest : List Char) :
    readMark (mark optional ++ rest) = some (optional, rest) := by
  cases optional <;> rfl

/-- Whatever its name, a key ends where its mark begins. -/
theorem readMember_append {read : List Char → Option (TypeExpr × List Char)} {cs rest : List Char}
    (x : Member TypeExpr) (h : read cs = some (x.type, rest)) :
    readMember read (keyChars x.name ++ (mark x.optional ++ cs)) = some (x, rest) := by
  simp only [readMember, readKey_keyChars x.name (wordEnds_mark x.optional cs),
    readMark_append x.optional cs, h, Option.bind_eq_bind, Option.bind_some, Option.pure_def]

/-! ### Blanks and words -/

theorem skipBlanks_append {bs rest : List Char} (h : Blanks bs) :
    skipBlanks (bs ++ rest) = skipBlanks rest := by
  induction bs with
  | nil => rfl
  | cons b bs ih =>
      have hb : isBlank b = true := h b List.mem_cons_self
      have hbs : Blanks bs := fun c hc => h c (List.mem_cons_of_mem b hc)
      rw [List.cons_append, skipBlanks, List.dropWhile_cons_of_pos hb]
      exact ih hbs

theorem skipBlanks_cons {c : Char} {rest : List Char} (h : isBlank c = false) :
    skipBlanks (c :: rest) = c :: rest :=
  List.dropWhile_cons_of_neg (by simp [h])

theorem wordEnds_cons {c : Char} (h : isIdentifierPart c = false) (rest : List Char) :
    WordEnds (c :: rest) := by
  rintro _ ⟨⟩
  exact h

theorem wordEnds_blanks {bs rest : List Char} (h : Blanks bs) (hr : WordEnds rest) :
    WordEnds (bs ++ rest) := by
  cases bs with
  | nil => exact hr
  | cons b bs => exact wordEnds_cons (isBlank_not_part (h b List.mem_cons_self)) _

theorem readSuffixes_cons (t : TypeExpr) {c : Char} (h : c ≠ '[') (rest : List Char) :
    readSuffixes t (c :: rest) = (t, c :: rest) := by
  rw [readSuffixes]
  exact fun _ hc => h (List.cons.inj hc).1

theorem readSuffixes_blanks (t : TypeExpr) {bs : List Char} (hbs : Blanks bs) {c : Char}
    (hc : c ≠ '[') (rest : List Char) :
    readSuffixes t (bs ++ c :: rest) = (t, bs ++ c :: rest) := by
  cases bs with
  | nil => exact readSuffixes_cons t hc rest
  | cons b bs =>
      refine readSuffixes_cons t ?_ _
      rintro rfl
      cases hbs _ List.mem_cons_self

@[simp] theorem ofName?_name (p : Primitive) : Primitive.ofName? p.name = some p := by
  cases p <;> decide

@[simp] theorem wordType_primitive (p : Primitive) : wordType p.name.toList = .primitive p := by
  simp [wordType]

theorem wordType_ref {name : String} (h : ∀ p : Primitive, p.name ≠ name) :
    wordType name.toList = .ref name := by
  have hnone : Primitive.ofName? name = none := by
    refine List.find?_eq_none.mpr fun p _ => ?_
    simpa using h p
  simp only [wordType, String.ofList_toList, hnone]

theorem primitive_isIdentifier (p : Primitive) : isIdentifier p.name.toList = true := by
  cases p <;> decide

/-! ### Texts of the grammar -/

theorem readType_word {word rest : List Char} (hw : isIdentifier word = true) (hr : WordEnds rest)
    (fuel : Nat) :
    readType (fuel + 1) (word ++ rest) = some (readSuffixes (wordType word) rest) := by
  obtain ⟨c, cs, rfl, hc⟩ := identifier_cons hw
  have hread := readWord_append hw hr
  rw [List.cons_append] at hread ⊢
  rw [readType, hread]
  · rfl
  · exact fun _ h => isIdentifierPart_ne hc rfl (List.cons.inj h).1

theorem readMembers_close {bs : List Char} (hbs : Blanks bs) (rest : List Char) (fuel : Nat) :
    readMembers (fuel + 1) (bs ++ '}' :: rest) = some ([], rest) := by
  rw [readMembers, skipBlanks_append hbs, skipBlanks_cons rfl]
  rfl

/-- What follows a member decides whether there are more. -/
theorem readMembers_member {x : Member TypeExpr} {bs cs after rest : List Char}
    {xs : List (Member TypeExpr)} {fuel : Nat} (hbs : Blanks bs)
    (htype : readType fuel cs = some (x.type, after))
    (hafter : (skipBlanks after = '}' :: rest ∧ xs = []) ∨
      ∃ more, skipBlanks after = ';' :: more ∧ readMembers fuel more = some (xs, rest)) :
    readMembers (fuel + 1) (bs ++ (keyChars x.name ++ (mark x.optional ++ cs))) =
      some (x :: xs, rest) := by
  obtain ⟨c, key, hkey, hblank, hbrace⟩ := keyChars_cons x.name
  have hmember := readMember_append x htype
  rw [hkey, List.cons_append] at hmember ⊢
  rw [readMembers, skipBlanks_append hbs, skipBlanks_cons hblank]
  split
  · next h => exact absurd (List.cons.inj h).1 hbrace
  · rw [hmember]
    rcases hafter with ⟨hskip, rfl⟩ | ⟨more, hskip, hmore⟩
    · simp only [Option.bind_eq_bind, Option.bind_some, hskip, Option.pure_def]
    · simp only [Option.bind_eq_bind, Option.bind_some, hskip, hmore, Option.pure_def]

mutual
/-- A text of a type is read as this type, with the suffixes after it. The induction is on the grammar;
each step down leaves a shorter text, so the length bounds the fuel. -/
theorem readType_text {t : TypeExpr} {cs : List Char} (h : TypeText t cs) {rest : List Char}
    (hr : WordEnds rest) {fuel : Nat} (hfuel : cs.length < fuel) :
    readType fuel (cs ++ rest) = some (readSuffixes t rest) := by
  obtain ⟨fuel, rfl⟩ : ∃ n, fuel = n + 1 := ⟨fuel - 1, by omega⟩
  cases h with
  | primitive p => rw [readType_word (primitive_isIdentifier p) hr, wordType_primitive]
  | ref hq hp => rw [readType_word (isIdentifier_of_needsQuoting hq) hr, wordType_ref hp]
  | @array t cs h =>
      have hend : WordEnds ('[' :: ']' :: rest) := wordEnds_cons rfl _
      have hlen : cs.length < fuel + 1 := by
        rw [List.length_append] at hfuel
        omega
      rw [List.append_assoc]
      exact readType_text h hend hlen
  | @object xs cs h =>
      have hlen : cs.length < fuel := by simpa using hfuel
      rw [List.cons_append, readType, readMembers_text h rest hlen]
      rfl

theorem readMembers_text {xs : List (Member TypeExpr)} {cs : List Char} (h : MembersText xs cs)
    (rest : List Char) {fuel : Nat} (hfuel : cs.length < fuel) :
    readMembers fuel (cs ++ rest) = some (xs, rest) := by
  obtain ⟨fuel, rfl⟩ : ∃ n, fuel = n + 1 := ⟨fuel - 1, by omega⟩
  cases h with
  | close hbs =>
      rw [List.append_assoc]
      exact readMembers_close hbs rest fuel
  | @last x bs cs bs' hbs h hbs' =>
      simp only [List.append_assoc, List.length_append, List.length_singleton] at hfuel ⊢
      have hend : WordEnds (bs' ++ '}' :: rest) := wordEnds_blanks hbs' (wordEnds_cons rfl rest)
      have hlen : cs.length < fuel := by omega
      have hread := readType_text h hend hlen
      rw [readSuffixes_blanks _ hbs' (by decide)] at hread
      refine readMembers_member hbs hread (.inl ⟨?_, rfl⟩)
      rw [skipBlanks_append hbs', skipBlanks_cons rfl]
  | @more x xs bs cs ms hbs h hms =>
      simp only [List.append_assoc, List.length_append, List.length_cons] at hfuel ⊢
      have hend : WordEnds (';' :: (ms ++ rest)) := wordEnds_cons rfl _
      have hlen : cs.length < fuel := by omega
      have hlenMore : ms.length < fuel := by omega
      have hread := readType_text h hend hlen
      rw [readSuffixes_cons _ (by decide)] at hread
      exact readMembers_member hbs hread
        (.inr ⟨_, skipBlanks_cons rfl, readMembers_text hms rest hlenMore⟩)
end

theorem read_text {t : TypeExpr} {cs : List Char} (h : TypeText t cs) :
    TypeExpr.read (String.ofList cs) = some t := by
  have hend : WordEnds [] := nofun
  have hread := readType_text h hend (Nat.lt_succ_self cs.length)
  rw [List.append_nil, readSuffixes] at hread
  · rw [TypeExpr.read, String.toList_ofList, hread]
  · nofun

end TypedEndpoints.TypeScript
