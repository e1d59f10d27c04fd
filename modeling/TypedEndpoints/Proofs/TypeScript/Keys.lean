import TypedEndpoints.Decimal.Reading
import TypedEndpoints.Proofs.Text.Utf8
import TypedEndpoints.Proofs.TypeScript.Reader
/-! What a property key denotes: an identifier denotes itself, a string literal the units its characters and
escapes stand for. The key of a name denotes this name and no other; only a line break, which may not stand
between quotes, makes it no key at all. -/
namespace TypedEndpoints.TypeScript

/-- The 16-bit units of a code point: a pair beyond the first plane. -/
def unitsOf (n : Nat) : List Nat :=
  if n < 0x10000 then [n] else [0xD800 + (n - 0x10000) / 0x400, 0xDC00 + (n - 0x10000) % 0x400]

def units (cs : List Char) : List Nat := cs.flatMap fun c => unitsOf c.toNat

def isLineTerminator (c : Char) : Bool := c == '\n' || c == '\r' || c == '\u2028' || c == '\u2029'

/-- What one character after a backslash stands for. A line break is passed over; digits, `x` and `u` mean
nothing alone. -/
def escaped? : Char → Option (List Nat)
  | 'b' => some [8]
  | 't' => some [9]
  | 'n' => some [10]
  | 'v' => some [11]
  | 'f' => some [12]
  | 'r' => some [13]
  | 'x' => none
  | 'u' => none
  | c => if isLineTerminator c then some [] else if c.isDigit then none else some (unitsOf c.toNat)

def behind (us : List Nat) (read : Option (List Nat × List Char)) : Option (List Nat × List Char) :=
  read.map fun r => (us ++ r.1, r.2)

mutual
/-- The units of a literal after its opening quote, with what follows the closing one. -/
def readLiteral : List Char → Option (List Nat × List Char)
  | [] => none
  | '\'' :: cs => some ([], cs)
  | '\\' :: cs => readEscape cs
  | c :: cs => if c = '\n' ∨ c = '\r' then none else behind (unitsOf c.toNat) (readLiteral cs)

def readEscape : List Char → Option (List Nat × List Char)
  | [] => none
  | '\r' :: '\n' :: cs => readLiteral cs
  | '0' :: c :: cs => if c.isDigit then none else behind [0] (readLiteral (c :: cs))
  | 'x' :: a :: b :: cs => (Decimal.hexDigitsValue? [a, b]).bind fun n => behind [n] (readLiteral cs)
  | 'u' :: '{' :: a :: cs => (Decimal.hexValue? a).bind fun n => readCodePoint n cs
  | 'u' :: a :: b :: c :: d :: cs =>
    (Decimal.hexDigitsValue? [a, b, c, d]).bind fun n => behind [n] (readLiteral cs)
  | c :: cs => (escaped? c).bind fun us => behind us (readLiteral cs)

/-- The digits of a code point after the first, up to the closing brace. -/
def readCodePoint (n : Nat) : List Char → Option (List Nat × List Char)
  | [] => none
  | '}' :: cs => behind (unitsOf n) (readLiteral cs)
  | c :: cs => (Decimal.hexValue? c).bind fun d =>
    if n * 16 + d ≤ 0x10FFFF then readCodePoint (n * 16 + d) cs else none
end

/-- An identifier of ASCII letters, digits, `_` and `$`. -/
structure IdentifierText (cs : List Char) : Prop where
  nonempty : cs ≠ []
  chars : ∀ c ∈ cs, ('A' ≤ c ∧ c ≤ 'Z') ∨ ('a' ≤ c ∧ c ≤ 'z') ∨ ('0' ≤ c ∧ c ≤ '9') ∨ c = '_' ∨ c = '$'
  start : ∀ c ∈ cs.head?, ¬ ('0' ≤ c ∧ c ≤ '9')

def NoBreak (cs : List Char) : Prop := ∀ c ∈ cs, c ≠ '\n' ∧ c ≠ '\r'

/-- A text is a property key for a name. In a literal the first quote that is not escaped is the last
character. -/
inductive KeyFor (name text : String) : Prop
  | bare (hname : IdentifierText name.toList) (htext : text = name) : KeyFor name text
  | literal {body : List Char} (htext : text.toList = '\'' :: body) (hbreak : NoBreak body)
      (hclose : (readQuoted body).map Prod.snd = some [])
      (hvalue : readLiteral body = some (units name.toList, [])) : KeyFor name text

@[simp] theorem isIdentifierPart_iff {c : Char} : isIdentifierPart c = true ↔
    ('A' ≤ c ∧ c ≤ 'Z') ∨ ('a' ≤ c ∧ c ≤ 'z') ∨ ('0' ≤ c ∧ c ≤ '9') ∨ c = '_' ∨ c = '$' := by
  simp only [isIdentifierPart, isIdentifierStart, isAsciiLetter, Bool.or_eq_true, Bool.and_eq_true,
    decide_eq_true_eq, beq_iff_eq]
  tauto

@[simp] theorem isIdentifierStart_iff {c : Char} :
    isIdentifierStart c = true ↔ isIdentifierPart c = true ∧ ¬ ('0' ≤ c ∧ c ≤ '9') := by
  have hdigit : isIdentifierStart c = true → ¬ ('0' ≤ c ∧ c ≤ '9') := by
    intro h
    simp only [isIdentifierStart, isAsciiLetter, Bool.or_eq_true, Bool.and_eq_true, decide_eq_true_eq,
      beq_iff_eq] at h
    rcases h with ((h | h) | rfl) | rfl
    · simp only [Char.le_def, UInt32.le_iff_toNat_le, Char.reduceVal, UInt32.reduceToNat] at h ⊢
      omega
    · simp only [Char.le_def, UInt32.le_iff_toNat_le, Char.reduceVal, UInt32.reduceToNat] at h ⊢
      omega
    · decide
    · decide
  rw [isIdentifierPart, Bool.or_eq_true, Bool.and_eq_true, decide_eq_true_eq, decide_eq_true_eq]
  tauto

@[simp] theorem isIdentifier_iff {cs : List Char} : isIdentifier cs = true ↔ IdentifierText cs := by
  cases cs with
  | nil => exact ⟨nofun, fun h => absurd rfl h.nonempty⟩
  | cons c cs =>
      rw [isIdentifier, Bool.and_eq_true, isIdentifierStart_iff, List.all_eq_true]
      constructor
      · rintro ⟨⟨hc, hdigit⟩, hcs⟩
        refine ⟨List.cons_ne_nil c cs, fun d hd => ?_, ?_⟩
        · rcases List.mem_cons.mp hd with rfl | hd
          · exact isIdentifierPart_iff.mp hc
          · exact isIdentifierPart_iff.mp (hcs d hd)
        · rintro d ⟨⟩
          exact hdigit
      · intro h
        have hpart := fun d hd => isIdentifierPart_iff.mpr (h.chars d hd)
        exact ⟨⟨hpart c List.mem_cons_self, h.start c rfl⟩, fun d hd => hpart d (List.mem_cons_of_mem c hd)⟩

/-! ### Units -/

theorem unitsOf_append {c d : Char} {us vs : List Nat} (h : unitsOf c.toNat ++ us = unitsOf d.toNat ++ vs) :
    c = d ∧ us = vs := by
  have hc := Text.toNat_char c
  have hd := Text.toNat_char d
  rw [← Char.toNat_inj]
  unfold unitsOf at h
  split at h <;> split at h <;>
    simp only [List.cons_append, List.nil_append, List.cons.injEq] at h
  · exact h
  · omega
  · omega
  · obtain ⟨hhigh, hlow, hrest⟩ := h
    exact ⟨by omega, hrest⟩

theorem units_cons_ne_nil (c : Char) (cs : List Char) : units (c :: cs) ≠ [] := by
  rw [units, List.flatMap_cons, unitsOf]
  split <;> exact List.cons_ne_nil _ _

theorem units_injective : Function.Injective units := by
  intro cs ds h
  induction cs generalizing ds with
  | nil =>
      cases ds with
      | nil => rfl
      | cons d ds => exact absurd h.symm (units_cons_ne_nil d ds)
  | cons c cs ih =>
      cases ds with
      | nil => exact absurd h (units_cons_ne_nil c cs)
      | cons d ds =>
          rw [units, units, List.flatMap_cons, List.flatMap_cons] at h
          obtain ⟨rfl, hrest⟩ := unitsOf_append h
          rw [ih hrest]

/-! ### Keys -/

theorem readLiteral_escaped {cs : List Char} (h : NoBreak cs) (rest : List Char) :
    readLiteral (cs.flatMap escapeChar ++ '\'' :: rest) = some (units cs, rest) := by
  induction cs with
  | nil => rfl
  | cons c cs ih =>
      have hcs : NoBreak cs := fun d hd => h d (List.mem_cons_of_mem c hd)
      have hc := h c List.mem_cons_self
      rw [List.flatMap_cons, List.append_assoc, escapeChar, units, List.flatMap_cons]
      split
      · next hescape =>
        -- both escapes stand for the character after the backslash
        have hread : readLiteral ('\\' :: c :: (cs.flatMap escapeChar ++ '\'' :: rest)) =
            behind (unitsOf c.toNat) (readLiteral (cs.flatMap escapeChar ++ '\'' :: rest)) := by
          rcases hescape with rfl | rfl <;> rfl
        rw [List.cons_append, List.cons_append, List.nil_append, hread, ih hcs]
        rfl
      · next hplain =>
        rw [not_or] at hplain
        rw [List.singleton_append, readLiteral, if_neg (not_or.mpr hc), ih hcs]
        · rfl
        · exact hplain.2
        · exact hplain.1

theorem mem_escapeChar {c d : Char} : d ∈ escapeChar c → d = c ∨ d = '\\' := by
  rw [escapeChar]
  split
  · rw [List.mem_pair]
    exact Or.symm
  · rw [List.mem_singleton]
    exact Or.inl

theorem self_mem_escapeChar (c : Char) : c ∈ escapeChar c := by
  rw [escapeChar]
  split
  · exact List.mem_pair.mpr (.inr rfl)
  · exact List.mem_singleton_self c

/-- Escapes neither hide a line break nor bring one in. -/
theorem noBreak_escaped {cs : List Char} : NoBreak (cs.flatMap escapeChar ++ ['\'']) ↔ NoBreak cs := by
  constructor
  · intro h c hc
    exact h c (List.mem_append_left _ (List.mem_flatMap_of_mem hc (self_mem_escapeChar c)))
  · intro h d hd
    rcases List.mem_append.mp hd with hd | hd
    · obtain ⟨c, hc, hcd⟩ := List.mem_flatMap.mp hd
      rcases mem_escapeChar hcd with rfl | rfl
      · exact h d hc
      · decide
    · obtain rfl := List.mem_singleton.mp hd
      decide

theorem key_toList (name : String) : (key name).toList =
    if needsQuoting name then '\'' :: (name.toList.flatMap escapeChar ++ ['\'']) else name.toList := by
  rw [key, String.toList_ofList, keyChars]
  rfl

@[simp] theorem needsQuoting_eq_false_iff {name : String} :
    needsQuoting name = false ↔ IdentifierText name.toList := by
  simp [needsQuoting]

theorem KeyFor.identifier_ne_quote {name : String} (h : IdentifierText name.toList) (body : List Char) :
    name.toList ≠ '\'' :: body := by
  intro hname
  have hquote := h.chars '\'' (hname ▸ List.mem_cons_self)
  revert hquote
  decide

theorem KeyFor.unique {name other text : String} (h : KeyFor name text) (h' : KeyFor other text) :
    other = name := by
  cases h with
  | bare hname htext =>
      cases h' with
      | bare _ htext' => rw [← htext, ← htext']
      | literal htext' _ _ _ => exact absurd (htext ▸ htext') (KeyFor.identifier_ne_quote hname _)
  | literal htext _ _ hvalue =>
      cases h' with
      | bare hname' htext' => exact absurd (htext' ▸ htext) (KeyFor.identifier_ne_quote hname' _)
      | literal htext' _ _ hvalue' =>
          obtain rfl := (List.cons.inj (htext.symm.trans htext')).2
          have hunits := congrArg Prod.fst (Option.some.inj (hvalue'.symm.trans hvalue))
          exact String.toList_injective (units_injective hunits)

theorem key_of_identifier {name : String} (h : IdentifierText name.toList) : key name = name := by
  have hquoting := needsQuoting_eq_false_iff.mpr h
  refine String.toList_injective ?_
  rw [key_toList, hquoting, if_neg Bool.false_ne_true]

theorem key_of_not_identifier {name : String} (h : ¬ IdentifierText name.toList) :
    (key name).toList = '\'' :: (name.toList.flatMap escapeChar ++ ['\'']) := by
  have hquoting := mt needsQuoting_eq_false_iff.mp h
  rw [key_toList, if_pos (Bool.of_not_eq_false hquoting)]

theorem IdentifierText.noBreak {cs : List Char} (h : IdentifierText cs) : NoBreak cs := by
  intro c hc
  have hpart := isIdentifierPart_iff.mpr (h.chars c hc)
  exact ⟨isIdentifierPart_ne hpart rfl, isIdentifierPart_ne hpart rfl⟩

theorem keyFor_key {name : String} (h : NoBreak name.toList) : KeyFor name (key name) := by
  by_cases hname : IdentifierText name.toList
  · exact .bare hname (key_of_identifier hname)
  · refine .literal (key_of_not_identifier hname) (noBreak_escaped.mpr h) ?_ (readLiteral_escaped h [])
    simp

theorem noBreak_of_keyFor {name other : String} (h : KeyFor other (key name)) : NoBreak name.toList := by
  by_cases hname : IdentifierText name.toList
  · exact hname.noBreak
  · have hkey := key_of_not_identifier hname
    cases h with
    | bare hother htext => exact absurd (htext ▸ hkey) (KeyFor.identifier_ne_quote hother _)
    | literal htext hbreak _ _ =>
        obtain rfl := (List.cons.inj (hkey.symm.trans htext)).2
        exact noBreak_escaped.mp hbreak

/-- The key of a name is a legal one for it exactly when the name has no line break. Nothing else keeps it from
being one: an identifier stands as it is, and in every other key the first quote that is not escaped is the
last character, and escapes hide no more than quotes and backslashes. -/
theorem key_denotes (name : String) :
    (KeyFor name (key name) ↔ NoBreak name.toList) ∧
    (∀ other, KeyFor other (key name) → other = name) ∧
    (IdentifierText name.toList → key name = name) ∧
    (¬ IdentifierText name.toList → ∃ body, (key name).toList = '\'' :: body ∧
      readQuoted body = some (name.toList, [])) :=
  ⟨⟨noBreak_of_keyFor, keyFor_key⟩, fun _ h => KeyFor.unique (keyFor_key (noBreak_of_keyFor h)) h,
    key_of_identifier, fun h => ⟨_, key_of_not_identifier h, readQuoted_escaped _ []⟩⟩

theorem key_denotes_its : key "it's" = "'it\\'s'" ∧ KeyFor "it's" "'it\\'s'" := by
  have hkey : key "it's" = "'it\\'s'" := by decide
  have hbreak : NoBreak "it's".toList := by
    change NoBreak ['i', 't', '\'', 's']
    simp [NoBreak]
  exact ⟨hkey, hkey ▸ (key_denotes "it's").1.mpr hbreak⟩

/-- A line feed is not escaped: it stands in the literal as it is. -/
theorem line_feed_not_escaped : key "a\nb" = "'a\nb'" ∧ ¬ KeyFor "a\nb" (key "a\nb") := by
  refine ⟨by decide, fun h => ?_⟩
  have hbreak : '\n' ≠ '\n' ∧ '\n' ≠ '\r' := noBreak_of_keyFor h '\n' (by decide)
  exact hbreak.1 rfl

end TypedEndpoints.TypeScript
