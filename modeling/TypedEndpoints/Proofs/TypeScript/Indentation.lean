import TypedEndpoints.Proofs.Text.Cut
import TypedEndpoints.Proofs.TypeScript.Keys
import TypedEndpoints.Proofs.TypeScript.Lines
/-! The indentation of types over lines. A type at the next level is the same text with one more tab on every line
after its first, and between its braces every line is a whole member or starts or ends a nested object. -/
namespace TypedEndpoints.TypeScript

/-- No line feed in the names and texts of a type. -/
inductive TypeExpr.OneLine : TypeExpr → Prop
  | primitive (p : Primitive) : OneLine (.primitive p)
  | array {t} : OneLine t → OneLine (.array t)
  | object {xs : List (Member TypeExpr)} : (∀ x ∈ xs, '\n' ∉ x.name.toList) → (∀ x ∈ xs, OneLine x.type) →
      OneLine (.object xs)
  | ref {name : String} : '\n' ∉ name.toList → OneLine (.ref name)
  | verbatim {text : String} : '\n' ∉ text.toList → OneLine (.verbatim text)

/-- No object with members, so nothing to spread over lines. -/
def TypeExpr.Flat (t : TypeExpr) : Prop := ∀ x xs, t ≠ .object (x :: xs)

/-- One more tab after every line feed. -/
def indented (cs : List Char) : List Char := cs.flatMap fun c => if c = '\n' then ['\n', '\t'] else [c]

/-- A line between braces, behind this many tabs or more. -/
structure BodyLine (indent : Nat) (line : List Char) : Prop where
  single : '\n' ∉ line
  starts : tabs indent <+: line
  ends : line.getLast? = some ';' ∨ line.getLast? = some '{'

def lineTexts (lines : List (List Char)) : List Char := lines.flatMap fun line => line ++ ['\n']

/-- Lines between a brace and the brace that closes it. -/
def braced (indent : Nat) (body : List (List Char)) : List Char :=
  '{' :: '\n' :: lineTexts body ++ tabs indent ++ ['}']

/-- A text at its place: on one line, or over lines between braces. -/
inductive Placed (indent : Nat) : List Char → Prop
  | line {cs} : '\n' ∉ cs → Placed indent cs
  | lines {body} : (∀ line ∈ body, BodyLine (indent + 1) line) → Placed indent (braced indent body)

/-! ### Texts without a line feed -/

theorem keyChars_single {name : String} (h : '\n' ∉ name.toList) : '\n' ∉ keyChars name := by
  have hbody : '\n' ∉ name.toList.flatMap escapeChar := by
    intro hmem
    obtain ⟨c, hc, hcd⟩ := List.mem_flatMap.mp hmem
    rcases mem_escapeChar hcd with rfl | heq
    · exact h hc
    · cases heq
  rw [keyChars]
  split
  · simp [quoted, hbody]
  · exact h

theorem tabs_single (n : Nat) : '\n' ∉ tabs n := fun h => by
  cases List.eq_of_mem_replicate h

theorem memberHead_single {name : String} (h : '\n' ∉ name.toList) (indent : Nat) (optional : Bool) :
    '\n' ∉ tabs indent ++ keyChars name ++ mark optional := by
  have hmark : '\n' ∉ mark optional := by
    cases optional <;> decide
  simp [tabs_single, keyChars_single h, hmark]

theorem inlineMembers_single {xs : List (Member TypeExpr)} (hnames : ∀ x ∈ xs, '\n' ∉ x.name.toList)
    (htypes : ∀ x ∈ xs, '\n' ∉ x.type.inline) : '\n' ∉ inlineMembers xs := by
  induction xs with
  | nil => exact List.not_mem_nil
  | cons x xs ih =>
      obtain ⟨hname, hnames⟩ := List.forall_mem_cons.mp hnames
      obtain ⟨htype, htypes⟩ := List.forall_mem_cons.mp htypes
      have hhead : '\n' ∉ keyChars x.name ++ mark x.optional := memberHead_single hname 0 x.optional
      have hmember : '\n' ∉ inlineMember x := by
        rw [inlineMember, List.mem_append, not_or]
        exact ⟨hhead, htype⟩
      simp [inlineMembers, hmember, ih hnames htypes]

theorem inline_single {t : TypeExpr} (h : t.OneLine) : '\n' ∉ t.inline := by
  induction h with
  | primitive p => cases p <;> decide
  | @array t h ih =>
      by_cases hverbatim : ∃ text, t = .verbatim text
      · obtain ⟨text, rfl⟩ := hverbatim
        have htext : '\n' ∉ text.toList := ih
        simp only [TypeExpr.inline]
        split <;> simp [htext]
      · rw [TypeExpr.inline]
        · simp [ih]
        · exact fun text e => hverbatim ⟨text, e⟩
  | @object xs hnames h ih =>
      cases xs with
      | nil => decide
      | cons x xs =>
          have hmembers := inlineMembers_single hnames ih
          rw [inlineMembers] at hmembers
          rw [TypeExpr.inline]
          simp_all
  | ref h =>
      rw [TypeExpr.inline]
      exact h
  | verbatim h =>
      rw [TypeExpr.inline]
      exact h

theorem block_flat {t : TypeExpr} (h : t.Flat) (indent depth : Nat) : t.block indent depth = t.inline := by
  rw [TypeExpr.block]
  exact h

/-! ### One more tab -/

@[simp] theorem indented_append (as bs : List Char) : indented (as ++ bs) = indented as ++ indented bs :=
  List.flatMap_append

theorem indented_single {cs : List Char} (h : '\n' ∉ cs) : indented cs = cs := by
  have hsame : ∀ c ∈ cs, (if c = '\n' then ['\n', '\t'] else [c]) = [c] := by
    intro c hc
    refine if_neg ?_
    rintro rfl
    exact h hc
  rw [indented, List.flatMap_congr hsame, List.flatMap_singleton']

section
variable {xs : List (String × Bool × List Char)} (hnames : ∀ x ∈ xs, '\n' ∉ x.1.toList)
include hnames

/-- The tab that each line takes from the line feed before it. -/
theorem indented_memberLines (indent : Nat) :
    '\t' :: indented (xs.flatMap (memberLine indent)) =
      (xs.map fun x => (x.1, x.2.1, indented x.2.2)).flatMap (memberLine (indent + 1)) ++ ['\t'] := by
  induction xs with
  | nil => rfl
  | cons x xs ih =>
      obtain ⟨hname, hnames⟩ := List.forall_mem_cons.mp hnames
      have hhead := indented_single (memberHead_single hname indent x.2.1)
      have hend : indented [';', '\n'] = [';', '\n', '\t'] := rfl
      have hline : '\t' :: indented (memberLine indent x) =
          memberLine (indent + 1) (x.1, x.2.1, indented x.2.2) ++ ['\t'] := by
        rw [memberLine, indented_append, indented_append, hhead, hend, memberLine, tabs, tabs, List.replicate_succ]
        simp only [List.cons_append, List.append_assoc, List.nil_append]
      rw [List.flatMap_cons, indented_append, ← List.cons_append, hline, List.append_assoc, List.singleton_append,
        ih hnames, List.map_cons, List.flatMap_cons, List.append_assoc]

theorem indented_bracedLines (indent : Nat) : indented (bracedLines indent xs) =
    bracedLines (indent + 1) (xs.map fun x => (x.1, x.2.1, indented x.2.2)) := by
  have hopen : indented ['{', '\n'] = ['{', '\n', '\t'] := rfl
  have hclose : indented (tabs indent ++ ['}']) = tabs indent ++ ['}'] :=
    indented_single (by simp [tabs_single])
  have hlines := indented_memberLines hnames (indent + 1)
  calc indented (bracedLines indent xs)
      = indented (['{', '\n'] ++ xs.flatMap (memberLine (indent + 1)) ++ (tabs indent ++ ['}'])) := by
        rw [bracedLines, List.append_assoc]
        rfl
    _ = '{' :: '\n' :: ('\t' :: indented (xs.flatMap (memberLine (indent + 1)))) ++ (tabs indent ++ ['}']) := by
        rw [indented_append, indented_append, hopen, hclose]
        rfl
    _ = bracedLines (indent + 1) (xs.map fun x => (x.1, x.2.1, indented x.2.2)) := by
        rw [hlines, bracedLines, tabs, tabs, List.replicate_succ]
        simp only [List.cons_append, List.append_assoc, List.nil_append]

end

theorem block_object_cons (x : Member TypeExpr) (xs : List (Member TypeExpr)) (indent depth : Nat) :
    (TypeExpr.object (x :: xs)).block indent (depth + 1) =
      bracedLines indent ((x :: xs).map fun x => (x.name, x.optional, x.type.block (indent + 1) depth)) :=
  block_object (x :: xs) indent depth

/-- A type stands on one line, or it is an object with members that are one depth less deep. -/
theorem block_cases (t : TypeExpr) (depth : Nat) : ((t.Flat ∨ depth = 0) ∧ ∀ indent, t.block indent depth = t.inline) ∨
    ∃ x xs d, t = .object (x :: xs) ∧ depth = d + 1 := by
  cases depth with
  | zero => exact .inl ⟨.inr rfl, block_zero t⟩
  | succ d =>
      by_cases h : t.Flat
      · exact .inl ⟨.inl h, fun indent => block_flat h indent (d + 1)⟩
      · simp only [TypeExpr.Flat, not_forall, not_not] at h
        obtain ⟨x, xs, rfl⟩ := h
        exact .inr ⟨x, xs, d, rfl, rfl⟩

theorem TypeExpr.OneLine.members {xs : List (Member TypeExpr)} (h : (TypeExpr.object xs).OneLine) :
    (∀ x ∈ xs, '\n' ∉ x.name.toList) ∧ ∀ x ∈ xs, x.type.OneLine := by
  cases h with
  | object hnames htypes => exact ⟨hnames, htypes⟩

theorem block_indented {t : TypeExpr} (h : t.OneLine) (indent depth : Nat) :
    t.block (indent + 1) depth = indented (t.block indent depth) := by
  induction depth generalizing t indent with
  | zero => simp [indented_single (inline_single h)]
  | succ d ih =>
      rcases block_cases t (d + 1) with ⟨_, hline⟩ | ⟨x, xs, _, rfl, _⟩
      · rw [hline, hline, indented_single (inline_single h)]
      · obtain ⟨hnames, htypes⟩ := h.members
        rw [block_object_cons, block_object_cons, indented_bracedLines, List.map_map]
        · refine congrArg (bracedLines (indent + 1)) (List.map_congr_left fun y hy => ?_)
          rw [ih (htypes y hy)]
          rfl
        · intro y hy
          obtain ⟨z, hz, rfl⟩ := List.mem_map.mp hy
          exact hnames z hz

/-! ### Lines between braces -/

theorem BodyLine.outer {indent : Nat} {line : List Char} (h : BodyLine (indent + 1) line) : BodyLine indent line := by
  have hprefix : tabs indent <+: tabs (indent + 1) := by
    rw [tabs, tabs, List.replicate_succ']
    exact List.prefix_append _ _
  exact ⟨h.single, hprefix.trans h.starts, h.ends⟩

/-- A line that goes on behind its tabs and ends as lines between braces end. -/
theorem bodyLine_of_tabs {indent : Nat} {rest : List Char} {last : Char} (hrest : '\n' ∉ rest)
    (hlast : last = ';' ∨ last = '{') : BodyLine indent (tabs indent ++ rest ++ [last]) := by
  have hsingle : '\n' ≠ last := by
    rcases hlast with rfl | rfl <;> decide
  refine ⟨by simp [tabs_single, hrest, hsingle], ?_, ?_⟩
  · rw [List.append_assoc]
    exact List.prefix_append _ _
  · rw [List.getLast?_concat]
    simpa using hlast

theorem placed_memberLine {indent : Nat} {x : String × Bool × List Char} (hname : '\n' ∉ x.1.toList)
    (h : Placed indent x.2.2) : ∃ lines, memberLine indent x = lineTexts lines ∧
      ∀ line ∈ lines, BodyLine indent line := by
  obtain ⟨name, optional, text⟩ := x
  have hhead : '\n' ∉ keyChars name ++ mark optional := memberHead_single hname 0 optional
  cases h with
  | line htext =>
      have htail : '\n' ∉ keyChars name ++ mark optional ++ text := by
        rw [List.mem_append, not_or]
        exact ⟨hhead, htext⟩
      refine ⟨[tabs indent ++ (keyChars name ++ mark optional ++ text) ++ [';']], ?_, ?_⟩
      · simp [memberLine, lineTexts]
      · rw [List.forall_mem_singleton]
        exact bodyLine_of_tabs htail (.inl rfl)
  | @lines body hbody =>
      -- the line that opens the object, the lines inside, and the line that closes it
      refine ⟨(tabs indent ++ (keyChars name ++ mark optional) ++ ['{']) :: body ++ [tabs indent ++ ['}'] ++ [';']],
        ?_, ?_⟩
      · simp [memberLine, lineTexts]
      · intro line hline
        rcases List.mem_append.mp hline with hline | hline
        · rcases List.mem_cons.mp hline with rfl | hline
          · exact bodyLine_of_tabs hhead (.inr rfl)
          · exact (hbody line hline).outer
        · rw [List.mem_singleton.mp hline]
          exact bodyLine_of_tabs (by decide) (.inl rfl)

theorem placed_memberLines {indent : Nat} {xs : List (String × Bool × List Char)}
    (hnames : ∀ x ∈ xs, '\n' ∉ x.1.toList) (h : ∀ x ∈ xs, Placed indent x.2.2) :
    ∃ lines, xs.flatMap (memberLine indent) = lineTexts lines ∧
      ∀ line ∈ lines, BodyLine indent line := by
  induction xs with
  | nil => exact ⟨[], rfl, nofun⟩
  | cons x xs ih =>
      obtain ⟨hname, hnames⟩ := List.forall_mem_cons.mp hnames
      obtain ⟨hx, hxs⟩ := List.forall_mem_cons.mp h
      obtain ⟨lines, hlines, hbody⟩ := placed_memberLine hname hx
      obtain ⟨more, hmore, hrest⟩ := ih hnames hxs
      refine ⟨lines ++ more, ?_, List.forall_mem_append.mpr ⟨hbody, hrest⟩⟩
      rw [List.flatMap_cons, hlines, hmore, lineTexts, lineTexts, lineTexts, List.flatMap_append]

theorem exists_braced {indent : Nat} {xs : List (String × Bool × List Char)}
    (hnames : ∀ x ∈ xs, '\n' ∉ x.1.toList) (h : ∀ x ∈ xs, Placed (indent + 1) x.2.2) :
    ∃ body, bracedLines indent xs = braced indent body ∧ ∀ line ∈ body, BodyLine (indent + 1) line := by
  obtain ⟨lines, hlines, hbody⟩ := placed_memberLines hnames h
  exact ⟨lines, by rw [bracedLines, hlines, braced], hbody⟩

theorem block_object_braced {x : Member TypeExpr} {xs : List (Member TypeExpr)} {indent depth : Nat}
    (hnames : ∀ y ∈ x :: xs, '\n' ∉ y.name.toList)
    (hplaced : ∀ y ∈ x :: xs, Placed (indent + 1) (y.type.block (indent + 1) depth)) :
    ∃ body, (TypeExpr.object (x :: xs)).block indent (depth + 1) = braced indent body ∧
      ∀ line ∈ body, BodyLine (indent + 1) line := by
  rw [block_object_cons]
  refine exists_braced ?_ ?_
  · exact List.forall_mem_map.mpr hnames
  · exact List.forall_mem_map.mpr hplaced

theorem block_placed {t : TypeExpr} (h : t.OneLine) (indent depth : Nat) : Placed indent (t.block indent depth) := by
  induction depth generalizing t indent with
  | zero =>
      rw [block_zero]
      exact .line (inline_single h)
  | succ d ih =>
      rcases block_cases t (d + 1) with ⟨_, hline⟩ | ⟨x, xs, _, rfl, _⟩
      · rw [hline]
        exact .line (inline_single h)
      · obtain ⟨hnames, htypes⟩ := h.members
        obtain ⟨body, hbraced, hbody⟩ := block_object_braced hnames fun y hy => ih (htypes y hy) (indent + 1)
        rw [hbraced]
        exact .lines hbody

theorem lineTexts_append (lines : List (List Char)) (last : List Char) :
    lineTexts lines ++ last = ['\n'].intercalate (lines ++ [last]) := by
  induction lines with
  | nil =>
      rw [List.nil_append, List.intercalate_singleton]
      rfl
  | cons line lines ih =>
      obtain ⟨next, rest, hnext⟩ := List.exists_cons_of_ne_nil (List.concat_ne_nil last lines)
      rw [List.cons_append, hnext, List.intercalate_cons_cons, ← hnext, ← ih, lineTexts, List.flatMap_cons,
        List.append_assoc, List.append_assoc, List.append_assoc, lineTexts]

theorem pieces_braced {indent : Nat} {body : List (List Char)} (h : ∀ line ∈ body, '\n' ∉ line) :
    Text.pieces '\n' (braced indent body) = ['{'] :: body ++ [tabs indent ++ ['}']] := by
  have htext : braced indent body = ['\n'].intercalate ((['{'] :: body) ++ [tabs indent ++ ['}']]) := by
    rw [← lineTexts_append, lineTexts, List.flatMap_cons, braced, lineTexts]
    simp only [List.cons_append, List.nil_append, List.append_assoc]
  rw [htext]
  refine Text.pieces_intercalate (by simp) ?_
  intro line hline
  rcases List.mem_append.mp hline with hline | hline
  · rcases List.mem_cons.mp hline with rfl | hline
    · decide
    · exact h line hline
  · rw [List.mem_singleton.mp hline]
    simp [tabs_single]

/-- One more level of indentation is one more tab after every line feed. A type without members, or without a
level to spread, takes no line feed; every other one starts with a brace, ends with a brace behind its own tabs,
and has one tab more on all lines between, each of which ends a member or opens an object. -/
theorem block_indentation {t : TypeExpr} (h : t.OneLine) (indent depth : Nat) :
    t.emitBlock (indent + 1) depth = String.ofList (indented (t.emitBlock indent depth).toList) ∧
    (t.Flat ∨ depth = 0 → '\n' ∉ (t.emitBlock indent depth).toList) ∧
    (¬ (t.Flat ∨ depth = 0) → ∃ body,
      Text.pieces '\n' (t.emitBlock indent depth).toList = ['{'] :: body ++ [tabs indent ++ ['}']] ∧
      ∀ line ∈ body, BodyLine (indent + 1) line) := by
  simp only [TypeExpr.emitBlock, String.toList_ofList]
  refine ⟨congrArg String.ofList (block_indented h indent depth), ?_⟩
  rcases block_cases t depth with ⟨hflat, hline⟩ | ⟨x, xs, d, rfl, rfl⟩
  · rw [hline]
    exact ⟨fun _ => inline_single h, fun hspread => absurd hflat hspread⟩
  · obtain ⟨hnames, htypes⟩ := h.members
    obtain ⟨body, hbraced, hbody⟩ := block_object_braced hnames fun y hy =>
      block_placed (htypes y hy) (indent + 1) d
    refine ⟨?_, fun _ => ⟨body, ?_, hbody⟩⟩
    · rintro (hflat | hzero)
      · exact absurd rfl (hflat x xs)
      · cases hzero
    · rw [hbraced, pieces_braced fun line hline => (hbody line hline).single]

/-- Two levels over lines, and below them an array of objects; beside it an object without members. -/
def nestedPaths : TypeExpr :=
  .object [
    ⟨"/a b", .object [
      ⟨"get", .object [⟨"response", .array (.object [⟨"id", .primitive .number, true⟩]), false⟩], false⟩,
      ⟨"put", .object [], false⟩], false⟩,
    ⟨"tag", .array (.verbatim "A | B"), true⟩]

theorem nestedPaths_oneLine : nestedPaths.OneLine := by
  have hresponse : (TypeExpr.array (.object [⟨"id", .primitive .number, true⟩])).OneLine := by
    refine .array (.object ?_ ?_)
    · simp only [List.forall_mem_singleton]
      decide
    · simp only [List.forall_mem_singleton]
      exact .primitive .number
  have hget :
      (TypeExpr.object [⟨"response", .array (.object [⟨"id", .primitive .number, true⟩]), false⟩]).OneLine := by
    refine .object ?_ ?_
    · simp only [List.forall_mem_singleton]
      decide
    · simp only [List.forall_mem_singleton]
      exact hresponse
  refine .object ?_ ?_
  · simp only [List.forall_mem_cons, List.not_mem_nil, false_imp_iff, implies_true, and_true]
    decide
  · simp only [List.forall_mem_cons, List.not_mem_nil, false_imp_iff, implies_true, and_true]
    refine ⟨.object ?_ ?_, .array (.verbatim (by decide))⟩
    · simp only [List.forall_mem_cons, List.not_mem_nil, false_imp_iff, implies_true, and_true]
      decide
    · simp only [List.forall_mem_cons, List.not_mem_nil, false_imp_iff, implies_true, and_true]
      exact ⟨hget, .object nofun nofun⟩

theorem block_indentation_nestedPaths : nestedPaths.OneLine ∧
    nestedPaths.emitBlock 0 2 = "\x7b\n\t'/a b': \x7b\n\t\tget: \x7b response: \x7b id?: number \x7d[] \x7d;\n" ++
      "\t\tput: \x7b\x7d;\n\t\x7d;\n\ttag?: (A | B)[];\n\x7d" ∧
    nestedPaths.emitBlock 1 2 = "\x7b\n\t\t'/a b': \x7b\n\t\t\tget: \x7b response: \x7b id?: number \x7d[] \x7d;\n" ++
      "\t\t\tput: \x7b\x7d;\n\t\t\x7d;\n\t\ttag?: (A | B)[];\n\t\x7d" ∧
    '\n' ∉ (nestedPaths.emitBlock 1 0).toList ∧
    ∃ body, Text.pieces '\n' (nestedPaths.emitBlock 1 2).toList = ['{'] :: body ++ [['\t', '}']] ∧
      ∀ line ∈ body, BodyLine 2 line := by
  have hspread : ¬ (nestedPaths.Flat ∨ 2 = 0) := by
    rintro (hflat | hzero)
    · exact hflat _ _ rfl
    · cases hzero
  have hsource : nestedPaths.emitBlock 0 2 =
      "\x7b\n\t'/a b': \x7b\n\t\tget: \x7b response: \x7b id?: number \x7d[] \x7d;\n" ++
        "\t\tput: \x7b\x7d;\n\t\x7d;\n\ttag?: (A | B)[];\n\x7d" := by decide
  refine ⟨nestedPaths_oneLine, hsource, ?_, ?_, ?_⟩
  · rw [(block_indentation nestedPaths_oneLine 0 2).1, hsource]
    decide
  · exact (block_indentation nestedPaths_oneLine 1 0).2.1 (.inr rfl)
  · exact (block_indentation nestedPaths_oneLine 1 2).2.2 hspread

end TypedEndpoints.TypeScript
