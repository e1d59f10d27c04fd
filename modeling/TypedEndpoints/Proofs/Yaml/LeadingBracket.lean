import Mathlib.Data.List.Basic
import TypedEndpoints.Yaml.Node
/-! The tokens of a text that starts with an opening bracket. The bracket opens a sequence, and whatever follows, the
scanner puts nothing in front of it later but the marks of a key. -/
namespace TypedEndpoints.Yaml

theorem ok_of_bind {ε α β : Type} {x : Except ε α} {f : α → Except ε β} {b : β}
    (h : (x >>= f) = .ok b) : ∃ a, x = .ok a ∧ f a = .ok b := by
  cases x with
  | error e => cases h
  | ok a => exact ⟨a, rfl, h⟩

/-- A token that is put in front of what was read before its colon. -/
inductive IsKeyMark : Token → Prop
  | key : IsKeyMark .key
  | blockMapping : IsKeyMark .blockMapping

/-- The first token opens a sequence, marks of keys apart. -/
def ListFirst (ts : List Token) : Prop :=
  ∃ marks rest, ts = marks ++ .openSequence :: rest ∧ ∀ t ∈ marks, IsKeyMark t

theorem ListFirst.push {ts : List Token} (h : ListFirst ts) (t : Token) : ListFirst (ts ++ [t]) := by
  obtain ⟨marks, rest, rfl, hmarks⟩ := h
  exact ⟨marks, rest ++ [t], by simp, hmarks⟩

theorem ListFirst.insert {as bs : List Token} {t : Token} (h : ListFirst (as ++ bs)) (ht : IsKeyMark t) :
    ListFirst (as ++ t :: bs) := by
  obtain ⟨marks, rest, htokens, hmarks⟩ := h
  rcases List.append_eq_append_iff.mp htokens with ⟨ms, rfl, rfl⟩ | ⟨ms, rfl, hrest⟩
  · -- before the bracket
    refine ⟨as ++ t :: ms, rest, by simp, ?_⟩
    intro u hu
    rcases List.mem_append.mp hu with hu | hu
    · exact hmarks u (List.mem_append_left _ hu)
    · rcases List.mem_cons.mp hu with rfl | hu
      · exact ht
      · exact hmarks u (List.mem_append_right _ hu)
  · cases ms with
    | nil =>
        refine ⟨marks ++ [t], rest, ?_, ?_⟩
        · rw [List.nil_append] at hrest
          rw [← hrest]
          simp
        · intro u hu
          rcases List.mem_append.mp hu with hu | hu
          · exact hmarks u hu
          · rw [List.mem_singleton.mp hu]
            exact ht
    | cons m ms =>
        obtain ⟨rfl, rfl⟩ := List.cons.inj hrest
        exact ⟨marks, ms ++ t :: bs, by simp, hmarks⟩

namespace Scanner
variable {s s' : Scanner}

def StartsList (s : Scanner) : Prop := ListFirst s.tokens.reverse

/-- What a step comes to, unless it fails, starts with the list. -/
def Leads (x : Except Fault Scanner) : Prop := ∀ s, x = .ok s → s.StartsList

theorem Leads.ok (h : s.StartsList) : Leads (.ok s) := by
  rintro _ ⟨⟩
  exact h

theorem Leads.error (e : Fault) : Leads (.error e) := nofun

theorem Leads.ite {c : Prop} [Decidable c] {x y : Except Fault Scanner} (hx : Leads x) (hy : Leads y) :
    Leads (if c then x else y) := by
  split
  · exact hx
  · exact hy

theorem Leads.bind {α : Type} {x : Except Fault α} {f : α → Except Fault Scanner}
    (h : ∀ a, x = .ok a → Leads (f a)) : Leads (x >>= f) := by
  cases x with
  | error e => exact .error e
  | ok a => exact h a rfl

theorem Leads.next {x : Except Fault Scanner} {f : Scanner → Except Fault Scanner} (hx : Leads x)
    (hf : ∀ t, t.StartsList → Leads (f t)) : Leads (x >>= f) :=
  .bind fun t ht => hf t (hx t ht)

theorem startsList_of_tokens (h : s.StartsList) (htokens : s'.tokens = s.tokens) : s'.StartsList := by
  rw [StartsList, htokens]
  exact h

theorem startsList_of_push (h : s.StartsList) {t : Token} (htokens : s'.tokens = t :: s.tokens) :
    s'.StartsList := by
  rw [StartsList, htokens, List.reverse_cons]
  exact ListFirst.push h t

theorem insertAt_startsList (h : s.StartsList) (before : Nat) {t : Token} (ht : IsKeyMark t) :
    (s.insertAt before t).StartsList := by
  rw [StartsList, insertAt, List.reverse_append, List.reverse_cons, List.append_assoc, List.singleton_append]
  refine ListFirst.insert ?_ ht
  rw [← List.reverse_append, List.take_append_drop]
  exact h

/-- The key of a value may stand in front of other tokens. -/
theorem openBlock_key_startsList (h : s.StartsList) (column before : Nat) {t : Token} (ht : IsKeyMark t) :
    (s.openBlock column before t).StartsList := by
  let opened : Scanner := { s with indent := Int.ofNat column, outer := s.indent :: s.outer }
  have hinsert : (opened.insertAt before t).StartsList :=
    insertAt_startsList (startsList_of_tokens h rfl) before ht
  unfold openBlock
  split
  · exact hinsert
  · exact h

/-- A block collection that opens here comes after all tokens. -/
theorem openBlock_here_startsList (h : s.StartsList) (column : Nat) (t : Token) :
    (s.openBlock column s.count t).StartsList := by
  let opened : Scanner := { s with indent := Int.ofNat column, outer := s.indent :: s.outer }
  have hinsert : (opened.insertAt s.count t).tokens = t :: s.tokens := by
    simp [opened, insertAt]
  unfold openBlock
  split
  · exact startsList_of_push h hinsert
  · exact h

theorem closeBlocks_startsList (column : Int) (outer : List Int) (h : s.StartsList) :
    (closeBlocks column outer s).StartsList := by
  induction outer generalizing s with
  | nil => exact h
  | cons i is ih =>
      rw [closeBlocks]
      split
      · exact h
      · exact ih (startsList_of_push h rfl)

theorem unroll_startsList (column : Int) (h : s.StartsList) : (s.unroll column).StartsList := by
  unfold unroll
  split
  · exact h
  · exact closeBlocks_startsList column s.outer h

theorem skipToToken_tokens (fuel : Nat) (s : Scanner) : (skipToToken fuel s).tokens = s.tokens := by
  induction fuel generalizing s with
  | zero => rfl
  | succ fuel ih =>
      unfold skipToToken
      extract_lets
      split
      · split
        · rw [ih]
        · rfl
      · rfl

theorem dropStale_leads (h : s.StartsList) : Leads s.dropStale :=
  .ite (.error _) (.ok (startsList_of_tokens h rfl))

theorem dropKey_tokens (hs : s.dropKey = .ok s') : s'.tokens = s.tokens := by
  unfold dropKey at hs
  split at hs
  · rcases ite_eq_iff.mp hs with ⟨_, hs⟩ | ⟨_, hs⟩
    · cases hs
    · cases hs
      rfl
  · cases hs
    rfl

theorem saveKey_tokens (hs : s.saveKey = .ok s') : s'.tokens = s.tokens := by
  rcases ite_eq_iff.mp hs with ⟨_, hs⟩ | ⟨_, hs⟩
  · obtain ⟨t, ht, hs⟩ := ok_of_bind hs
    cases hs
    have htokens : t.tokens = s.tokens := dropKey_tokens ht
    exact htokens
  · cases hs
    rfl

theorem dropKey_leads (h : s.StartsList) : Leads s.dropKey := fun _ ht => startsList_of_tokens h (dropKey_tokens ht)

theorem saveKey_leads (h : s.StartsList) : Leads s.saveKey := fun _ ht => startsList_of_tokens h (saveKey_tokens ht)

/-! ### Tokens -/

theorem content_leads {scan : Cursor → Except Fault (Token × Cursor)} (h : s.StartsList) : Leads (s.content scan) :=
  (saveKey_leads h).next fun _ ht => .bind fun _ _ => .ok (startsList_of_push ht rfl)

theorem plain_leads {fuel : Nat} (h : s.StartsList) : Leads (s.plain fuel) :=
  (saveKey_leads h).next fun _ ht => .bind fun _ _ => .ok (startsList_of_push ht rfl)

theorem blockScalar_leads {fuel : Nat} {literal : Bool} (h : s.StartsList) : Leads (s.blockScalar fuel literal) :=
  (dropKey_leads h).next fun _ ht => .bind fun _ _ => .ok (startsList_of_push ht rfl)

theorem documentLevel_leads (h : s.StartsList) : Leads s.documentLevel :=
  (dropKey_leads (unroll_startsList (-1) h)).next fun _ ht => .ok (startsList_of_tokens ht rfl)

theorem openFlow_leads (h : s.StartsList) (t : Token) : Leads (s.openFlow t) :=
  (saveKey_leads h).next fun _ ht => .ok (startsList_of_push ht rfl)

theorem closeFlow_leads (h : s.StartsList) (t : Token) : Leads (s.closeFlow t) :=
  (dropKey_leads h).next fun _ ht => .ok (startsList_of_push ht rfl)

theorem flowEntry_leads (h : s.StartsList) : Leads s.flowEntry :=
  (dropKey_leads h).next fun _ ht => .ok (startsList_of_push ht rfl)

theorem blockEntry_leads (h : s.StartsList) : Leads s.blockEntry := by
  refine .ite (.error _) ?_
  have hopen := openBlock_here_startsList h s.cursor.column .blockSequence
  exact (dropKey_leads hopen).next fun _ ht => .ok (startsList_of_push ht rfl)

theorem explicitKey_leads (h : s.StartsList) : Leads s.explicitKey := by
  refine .ite (.error _) ?_
  have hopen := openBlock_here_startsList h s.cursor.column .blockMapping
  exact (dropKey_leads hopen).next fun _ ht => .ok (startsList_of_push ht rfl)

theorem value_leads (h : s.StartsList) : Leads s.value := by
  unfold value
  split
  · next k ks _ =>
    have hkeys : StartsList { s with keys := none :: ks } := startsList_of_tokens h rfl
    have hkey := insertAt_startsList hkeys k.before .key
    have hopen := openBlock_key_startsList hkey k.column k.before .blockMapping
    exact .ok (startsList_of_push hopen rfl)
  · have hopen := openBlock_here_startsList h s.cursor.column .blockMapping
    exact .ite (.error _) (.ok (startsList_of_push hopen rfl))

theorem token_leads {fuel : Nat} (h : s.StartsList) : Leads (s.token fuel) := by
  unfold token
  extract_lets c
  split
  · exact .ok h
  · have hdirective : Leads (s.documentLevel >>= fun s => Mark.directive fuel s.cursor >>= fun p =>
        .ok ({ s with cursor := p.2 }.push p.1)) :=
      (documentLevel_leads h).next fun _ ht => .bind fun _ _ => .ok (startsList_of_push ht rfl)
    have hmarker : ∀ t, Leads (s.documentLevel >>= fun s => .ok ((s.skipBy 3).push t)) := fun t =>
      (documentLevel_leads h).next fun _ ht => .ok (startsList_of_push ht rfl)
    exact .ite hdirective <| .ite (hmarker _) <| .ite (hmarker _) <|
      .ite (openFlow_leads h _) <| .ite (openFlow_leads h _) <| .ite (closeFlow_leads h _) <|
      .ite (closeFlow_leads h _) <| .ite (flowEntry_leads h) <| .ite (blockEntry_leads h) <|
      .ite (explicitKey_leads h) <| .ite (value_leads h) <| .ite (content_leads h) <| .ite (content_leads h) <|
      .ite (content_leads h) <| .ite (blockScalar_leads h) <| .ite (blockScalar_leads h) <|
      .ite (content_leads h) <| .ite (content_leads h) <| .ite (plain_leads h) (.error _)

theorem run_leads (fuel : Nat) (h : s.StartsList) : Leads (Scanner.run fuel s) := by
  induction fuel generalizing s with
  | zero => exact .error _
  | succ fuel ih =>
      refine (dropStale_leads (startsList_of_tokens h (skipToToken_tokens fuel s))).next fun t ht => ?_
      have hunroll := unroll_startsList (Int.ofNat t.cursor.column) ht
      refine .ite (dropKey_leads (unroll_startsList (-1) hunroll)) ?_
      exact (token_leads hunroll).next fun u hu => ih hu

end Scanner

/-! ### The first token -/

/-- Blanks and breaks, and then an opening bracket. -/
def BracketText (rest cs : List Char) : Prop :=
  ∃ bs, cs = bs ++ '[' :: rest ∧ ∀ c ∈ bs, (isSpace c || isBreak c) = true

theorem BracketText.cases {rest cs : List Char} (h : BracketText rest cs) : cs = '[' :: rest ∨
    ∃ c cs', cs = c :: cs' ∧ (isSpace c || isBreak c) = true ∧ BracketText rest cs' := by
  obtain ⟨bs, rfl, hbs⟩ := h
  cases bs with
  | nil => exact .inl rfl
  | cons b bs =>
      obtain ⟨hb, hbs⟩ := List.forall_mem_cons.mp hbs
      exact .inr ⟨b, bs ++ '[' :: rest, rfl, hb, bs, rfl, hbs⟩

theorem BracketText.dropWhile {rest cs : List Char} (h : BracketText rest cs) {p : Char → Bool} (hp : p '[' = false) :
    BracketText rest (cs.dropWhile p) := by
  obtain ⟨bs, rfl, hbs⟩ := h
  induction bs with
  | nil =>
      rw [List.nil_append, List.dropWhile_cons_of_neg (by rw [hp]; exact Bool.false_ne_true)]
      exact ⟨[], rfl, nofun⟩
  | cons b bs ih =>
      rw [List.cons_append, List.dropWhile_cons]
      split
      · exact ih (List.forall_mem_cons.mp hbs).2
      · exact ⟨b :: bs, rfl, hbs⟩

theorem skipWhile_rest (p : Char → Bool) (c : Cursor) : (c.skipWhile p).rest = c.rest.dropWhile p :=
  calc c.rest.drop (c.rest.takeWhile p).length
      = (c.rest.takeWhile p ++ c.rest.dropWhile p).drop (c.rest.takeWhile p).length := by
        rw [List.takeWhile_append_dropWhile]
    _ = c.rest.dropWhile p := List.drop_left

theorem BracketText.ne {rest cs r : List Char} {c x : Char} (h : BracketText rest cs) (hcs : cs = c :: r)
    (hbracket : x ≠ '[') (hx : (isSpace x || isBreak x) = false) : c ≠ x := by
  rintro rfl
  rcases h.cases with rfl | ⟨b, _, rfl, hb, _⟩
  · exact hbracket (List.cons.inj hcs).1.symm
  · rw [(List.cons.inj hcs).1, hx] at hb
    cases hb

theorem skipComment_bracket {rest : List Char} {c : Cursor} (h : BracketText rest c.rest) :
    c.skipComment = c := by
  unfold Cursor.skipComment
  split
  · next r hr => exact absurd rfl (h.ne hr (by decide) (by decide))
  · rfl

theorem skipBreak_bracket {rest r : List Char} {x : Char} {c : Cursor} (h : BracketText rest c.rest)
    (hc : c.rest = x :: r) (hx : isBreak x = true) : BracketText rest c.skipBreak.rest := by
  have hbehind : ∀ {cs y r}, BracketText rest cs → cs = y :: r → isBreak y = true → BracketText rest r := by
    intro cs y r hcs hr hy
    rcases hcs.cases with rfl | ⟨b, cs', rfl, _, hcs'⟩
    · obtain ⟨rfl, rfl⟩ := List.cons.inj hr
      cases hy
    · obtain ⟨rfl, rfl⟩ := List.cons.inj hr
      exact hcs'
  unfold Cursor.skipBreak Cursor.takeBreak
  split
  · next r' hr =>
    -- a carriage return and a line feed are one break
    exact hbehind (hbehind h hr rfl) rfl rfl
  · next y r' _ hr =>
    obtain ⟨rfl, rfl⟩ := List.cons.inj (hc.symm.trans hr)
    rw [if_pos hx]
    exact hbehind h hc hx
  · next hr =>
    rw [hc] at hr
    cases hr

namespace Scanner
variable {s : Scanner} {rest : List Char}

/-- Nothing is read yet but blanks before the bracket. -/
structure BeforeBracket (rest : List Char) (s : Scanner) : Prop where
  tokens : s.tokens = []
  outer : s.outer = []
  rest : BracketText rest s.cursor.rest

theorem skipToToken_bracket (fuel : Nat) (h : BeforeBracket rest s) : BeforeBracket rest (skipToToken fuel s) := by
  induction fuel generalizing s with
  | zero => exact h
  | succ fuel ih =>
      unfold skipToToken
      extract_lets tabs start c
      have hstart : start = s.cursor := by
        unfold start
        split
        · next r hr => exact absurd rfl (h.rest.ne hr (by decide) (by decide))
        · rfl
      have hblanks : BracketText rest (start.skipWhile fun x => x == ' ' || (tabs && x == '\t')).rest := by
        rw [hstart, skipWhile_rest]
        exact h.rest.dropWhile (by simp)
      have hc : BracketText rest c.rest := by
        unfold c
        rw [skipComment_bracket hblanks]
        exact hblanks
      split
      · next x r hr =>
        split
        · next hx => exact ih ⟨h.tokens, h.outer, skipBreak_bracket hc hr hx⟩
        · exact ⟨h.tokens, h.outer, hc⟩
      · exact ⟨h.tokens, h.outer, hc⟩

theorem dropStale_bracket {s' : Scanner} (h : BeforeBracket rest s) (hs : s.dropStale = .ok s') :
    BeforeBracket rest s' := by
  unfold dropStale at hs
  extract_lets at hs
  split at hs
  · cases hs
  · cases hs
    exact ⟨h.tokens, h.outer, h.rest⟩

theorem unroll_bracket (column : Int) (h : BeforeBracket rest s) : s.unroll column = s := by
  unfold unroll
  rw [h.outer, closeBlocks]
  split <;> rfl

theorem Leads.skip {c : Prop} [Decidable c] {x y : Except Fault Scanner} (hc : ¬ c) (hy : Leads y) :
    Leads (if c then x else y) := by
  rw [if_neg hc]
  exact hy

theorem atMarker_eq_false {c : Cursor} {x mark : Char} {r : List Char} (hc : c.rest = x :: r) (hx : x ≠ mark) :
    c.atMarker mark = false := by
  unfold Cursor.atMarker
  rw [hc, Bool.and_eq_false_iff]
  refine .inr ?_
  split
  · next y _ _ _ hr =>
    obtain ⟨rfl, rfl⟩ := List.cons.inj hr
    simp [hx]
  · rfl

/-- No token starts with a blank. -/
theorem token_blank {x : Char} {r : List Char} (fuel : Nat) (hrest : s.cursor.rest = x :: r)
    (hx : (isSpace x || isBreak x) = true) : s.token fuel = .error .unexpectedCharacter := by
  have hne : ∀ y, (isSpace y || isBreak y) = false → (x == y) = false := by
    intro y hy
    refine beq_false_of_ne ?_
    rintro rfl
    rw [hx] at hy
    cases hy
  have hplain : startsPlain s.inFlow (x :: r) = false := by
    simp [startsPlain, hx, hne '-' rfl, hne '?' rfl, hne ':' rfl]
  have hmarker : ∀ mark, (isSpace mark || isBreak mark) = false → s.cursor.atMarker mark = false := fun mark hmark =>
    atMarker_eq_false hrest (beq_eq_false_iff_ne.mp (hne mark hmark))
  unfold token
  simp only [hrest, hne '%' rfl, hmarker '-' rfl, hmarker '.' rfl, hne '[' rfl, hne '{' rfl, hne ']' rfl, hne '}' rfl,
    hne ',' rfl, hne '-' rfl, hne '?' rfl, hne ':' rfl, hne '*' rfl, hne '&' rfl, hne '!' rfl, hne '|' rfl,
    hne '>' rfl, hne '\'' rfl, hne '"' rfl, hplain, Bool.and_false, Bool.false_and, Bool.false_eq_true, if_false]

theorem token_bracket (fuel : Nat) (h : BeforeBracket rest s) : Leads (s.token fuel) := by
  rcases h.rest.cases with hrest | ⟨x, r, hrest, hx, _⟩
  · have hdirective : ¬ (s.cursor.column == 0 && '[' == '%') = true := by simp
    have hmarker : ∀ mark, '[' ≠ mark → ¬ s.cursor.atMarker mark = true := fun mark hmark =>
      Bool.eq_false_iff.mp (atMarker_eq_false hrest hmark)
    have hopen : s.token fuel = s.openFlow .openSequence := by
      unfold token
      simp only [hrest]
      rw [if_neg hdirective, if_neg (hmarker _ (by decide)), if_neg (hmarker _ (by decide))]
      exact if_pos (by decide)
    rw [hopen]
    refine .bind fun t ht => .ok ?_
    refine ⟨[], [], ?_, nofun⟩
    change (Token.openSequence :: t.tokens).reverse = _
    rw [saveKey_tokens ht, h.tokens]
    rfl
  · rw [token_blank fuel hrest hx]
    exact .error _

theorem run_bracket (fuel : Nat) (h : BeforeBracket rest s) : Leads (Scanner.run fuel s) := by
  cases fuel with
  | zero => exact .error _
  | succ fuel =>
      refine .bind fun t ht => ?_
      have hbracket := dropStale_bracket (skipToToken_bracket fuel h) ht
      rw [unroll_bracket _ hbracket]
      obtain ⟨bs, hbs, _⟩ := hbracket.rest
      have hmore : ¬ t.cursor.rest.isEmpty = true := by simp [hbs]
      exact .skip hmore ((token_bracket fuel hbracket).next fun u hu => run_leads fuel hu)

end Scanner

theorem scan_bracket {rest cs : List Char} (h : BracketText rest cs) {ts : List Token}
    (hs : Token.scan cs = .ok ts) : ListFirst ts := by
  unfold Token.scan at hs
  split at hs
  · cases hs
  · obtain ⟨s, hrun, hts⟩ := ok_of_bind hs
    have hbracket : Scanner.BeforeBracket rest { cursor := { rest := cs } } := ⟨rfl, rfl, h⟩
    have hstarts := Scanner.run_bracket _ hbracket s hrun
    cases hts
    exact hstarts

end TypedEndpoints.Yaml
