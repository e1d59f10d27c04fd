import TypedEndpoints.Build.FileSystem
/-! What builds rely on from their files. Only a write that succeeds changes the content of a file, and
only of the file its path leads to; reading and making directories change none, even when they fail
half-way. The laws hold of the file system as a value, and of any files that fail more often. -/
namespace TypedEndpoints.Build

/-- `file` is where a path leads and `content` what a state has there. -/
structure Files.Frame {σ ι : Type} (files : Files (StateM σ)) (file : String → ι)
    (content : σ → ι → Option Bytes) : Prop where
  readText : ∀ path s, content ((files.readText path).run s).2 = content s
  fetchText : ∀ source s, content ((files.fetchText source).run s).2 = content s
  makeDirs : ∀ path s, content ((files.makeDirs path).run s).2 = content s
  refused : ∀ path text s e, ((files.writeText path text).run s).1 = .error e →
    content ((files.writeText path text).run s).2 = content s
  written : ∀ path text s, ((files.writeText path text).run s).1 = .ok () →
    content ((files.writeText path text).run s).2 (file path) = some (Text.encode text.toList)
  others : ∀ path text s i, i ≠ file path →
    content ((files.writeText path text).run s).2 i = content s i

namespace FileSystem

/-- The content of the file at a location. -/
def content (fs : FileSystem) (l : Location) : Option Bytes :=
  match fs.get? l with
  | some (.file b) => some b
  | _ => none

def follow (here : Location) (c : String) : Location :=
  if c = "." then here else if c = ".." then here.dropLast else here ++ [c]

/-- Where a path leads if it leads anywhere. -/
def place (path : String) : Location := (Path.components path).foldl follow []

theorem walk_place {fs : FileSystem} {here l : Location} {cs : List String}
    (h : fs.walk here cs = .ok l) : l = cs.foldl follow here := by
  induction cs generalizing here with
  | nil =>
      cases h
      rfl
  | cons c cs ih =>
      unfold walk at h
      rw [List.foldl_cons]
      split at h
      · next hc =>
        rw [follow, if_pos hc]
        exact ih h
      · next hdot =>
        split at h
        · next hc =>
          rw [follow, if_neg hdot, if_pos hc]
          exact ih h
        · next hdots =>
          rw [follow, if_neg hdot, if_neg hdots]
          split at h
          · cases h
          · split at h
            · next hempty =>
              -- the last component need not be there: it is appended unseen
              cases h
              rw [List.isEmpty_iff.mp hempty, List.foldl_nil]
            · split at h
              · exact ih h
              · cases h
              · cases h

theorem locate_place {fs : FileSystem} {path : String} {l : Location} (h : fs.locate path = .ok l) :
    l = place path := by
  unfold locate at h
  split at h
  · cases h
  · split at h
    · cases h
    · exact walk_place h

theorem lookup_cons_if (p : Location × Entry) (entries : List (Location × Entry)) (k : Location) :
    (p :: entries).lookup k = if k = p.1 then some p.2 else entries.lookup k := by
  rw [List.lookup_cons]
  by_cases h : k = p.1
  · simp [h]
  · rw [beq_false_of_ne h, if_neg h]

theorem lookup_replace (entries : List (Location × Entry)) (l k : Location) (e : Entry) :
    (entries.map fun p => if p.1 == l then (l, e) else p).lookup k =
      if k = l then if entries.any (·.1 == l) then some e else none else entries.lookup k := by
  induction entries with
  | nil => simp
  | cons p entries ih =>
      rw [List.map_cons, lookup_cons_if, lookup_cons_if, List.any_cons, ih]
      by_cases hp : p.1 = l
      · by_cases hk : k = l <;> simp [hp, hk]
      · rw [beq_false_of_ne hp, Bool.false_or]
        by_cases hk : k = l
        · subst hk
          simp [Ne.symm hp]
        · simp [hk]

theorem lookup_snoc {entries : List (Location × Entry)} {l : Location}
    (hl : ¬ entries.any (·.1 == l) = true) (k : Location) (e : Entry) :
    (entries ++ [(l, e)]).lookup k = if k = l then some e else entries.lookup k := by
  induction entries with
  | nil => rw [List.nil_append, lookup_cons_if]
  | cons p entries ih =>
      rw [List.any_cons, Bool.or_eq_true, not_or, beq_iff_eq] at hl
      rw [List.cons_append, lookup_cons_if, lookup_cons_if, ih hl.2]
      by_cases hk : k = p.1
      · subst hk
        simp [hl.1]
      · simp [hk]

theorem get?_put {fs : FileSystem} {l : Location} (hl : l ≠ []) (e : Entry) (k : Location) :
    (fs.put l e).get? k = if k = l then some e else fs.get? k := by
  unfold put get?
  by_cases hk : k = []
  · subst hk
    simp [Ne.symm hl]
  · simp only [hk, if_false]
    split
    · next hany =>
      rw [lookup_replace, if_pos hany]
    · next hany => exact lookup_snoc hany k e

theorem content_put_file {fs : FileSystem} {l : Location} (hl : l ≠ []) (b : Bytes) (k : Location) :
    (fs.put l (.file b)).content k = if k = l then some b else fs.content k := by
  unfold content
  rw [get?_put hl]
  by_cases h : k = l <;> simp [h]

theorem ne_nil_of_get?_ne {fs : FileSystem} {l : Location} (h : fs.get? l ≠ some .directory) :
    l ≠ [] := by
  rintro rfl
  exact h rfl

/-- A directory that is made where nothing was hides no file. -/
theorem content_put_directory {fs : FileSystem} {l : Location} (h : fs.get? l = none) :
    (fs.put l .directory).content = fs.content := by
  funext k
  have hl : l ≠ [] := by
    rintro rfl
    cases h
  unfold content
  rw [get?_put hl]
  by_cases hk : k = l
  · simp [hk, h]
  · simp [hk]

theorem content_makeDir {fs fs' : FileSystem} {path : String} (h : fs.makeDir path = .ok fs') :
    fs'.content = fs.content := by
  cases hl : fs.locate path with
  | error e =>
      rw [makeDir, hl] at h
      cases h
  | ok l =>
      simp only [makeDir, hl, bind, Except.bind] at h
      split at h
      · cases h
      · next hnone =>
        cases h
        exact content_put_directory hnone

theorem content_ensureDir {fs fs' : FileSystem} {path : String} (h : fs.ensureDir path = .ok fs') :
    fs'.content = fs.content := by
  unfold ensureDir at h
  split at h
  · next hmade =>
    cases h
    exact content_makeDir hmade
  · split at h
    · cases h
      rfl
    · cases h

@[simp] theorem content_makeDirs (fuel : Nat) (fs : FileSystem) (path : String) :
    (makeDirs fuel fs path).1.content = fs.content := by
  induction fuel generalizing fs path with
  | zero => rfl
  | succ fuel ih =>
      unfold makeDirs
      split
      · rfl
      · split
        · next hmade => exact content_ensureDir hmade
        · split
          · rfl
          · next parent _ =>
            -- what making the parents left behind stays, also when the directory itself fails
            have hparent := ih fs parent
            split
            · next fs' hmade =>
              rw [hmade] at hparent
              split
              · next hmade' => exact (content_ensureDir hmade').trans hparent
              · exact hparent
            · next hmade =>
              rw [hmade] at hparent
              exact hparent
        · rfl

theorem write_content {fs fs' : FileSystem} {path : String} {b : Bytes}
    (h : fs.write path b = .ok fs') (k : Location) :
    fs'.content k = if k = place path then some b else fs.content k := by
  unfold write at h
  cases hl : fs.locate path with
  | error e => rw [hl] at h; cases h
  | ok l =>
      rw [hl] at h
      change (if fs.get? l = some .directory then Except.error AccessFault.isDirectory
        else .ok (fs.put l (.file b))) = .ok fs' at h
      split at h
      · cases h
      · next hfile =>
        cases h
        rw [content_put_file (ne_nil_of_get?_ne hfile), locate_place hl]

theorem writeText_run (path text : String) (fs : FileSystem) :
    (files.writeText path text).run fs = match fs.write path (Text.encode text.toList) with
      | .ok fs' => (.ok (), fs')
      | .error e => (.error e, fs) := by
  change (match fs.write path (Text.encode text.toList) with
    | .ok fs' => do
      set fs'
      return .ok ()
    | .error e => return .error e : StateM FileSystem (Except AccessFault Unit)).run fs = _
  split <;> rfl

/-- The file system as a value keeps the laws, with paths followed component by component. -/
theorem files_frame : files.Frame place content where
  readText _ _ := rfl
  fetchText _ _ := rfl
  makeDirs path fs := content_makeDirs (path.length + 1) fs path
  refused path text fs e h := by
    rw [writeText_run] at h ⊢
    split at h
    · cases h
    · rfl
  written path text fs h := by
    rw [writeText_run] at h ⊢
    split at h
    · next hw => rw [write_content hw, if_pos rfl]
    · cases h
  others path text fs l hl := by
    rw [writeText_run]
    split
    · next hw => rw [write_content hw, if_neg hl]
    · rfl

end FileSystem

/-- An operation that is not carried out, and answered at once, in the turns that `refuse` names. -/
def attempt {σ α : Type} (refuse : Nat → Option α) (op : StateM σ α) : StateM (σ × Nat) α :=
  fun x => match refuse x.2 with
    | some a => (a, (x.1, x.2 + 1))
    | none => ((op.run x.1).1, ((op.run x.1).2, x.2 + 1))

/-- Files that fail in any pattern: at each turn an operation may be refused with a fault, and a remote
text may come or not. -/
def Files.failing {σ : Type} (files : Files (StateM σ)) (refuse : Nat → Option AccessFault)
    (remote : String → Nat → Option String) : Files (StateM (σ × Nat)) where
  readText path := attempt (fun n => (refuse n).map .error) (files.readText path)
  isFile path := attempt (fun n => (refuse n).map fun _ => false) (files.isFile path)
  makeDirs path := attempt (fun n => (refuse n).map .error) (files.makeDirs path)
  writeText path text := attempt (fun n => (refuse n).map .error) (files.writeText path text)
  fetchText source := attempt (fun n => some (remote source n)) (files.fetchText source)

theorem attempt_cases {σ α : Type} (refuse : Nat → Option α) (op : StateM σ α) (x : σ × Nat) :
    (∃ a, refuse x.2 = some a ∧ (attempt refuse op).run x = (a, (x.1, x.2 + 1))) ∨
      (attempt refuse op).run x = ((op.run x.1).1, ((op.run x.1).2, x.2 + 1)) := by
  change (∃ a, refuse x.2 = some a ∧ attempt refuse op x = _) ∨ attempt refuse op x = _
  unfold attempt
  split
  · next a ha => exact .inl ⟨a, ha, rfl⟩
  · exact .inr rfl

namespace Files.Frame
variable {σ ι : Type} {files : Files (StateM σ)} {file : String → ι} {content : σ → ι → Option Bytes}

theorem attempt {α : Type} {refuse : Nat → Option α} {op : StateM σ α} {x : σ × Nat} {i : ι}
    (h : content (op.run x.1).2 i = content x.1 i) :
    content ((Build.attempt refuse op).run x).2.1 i = content x.1 i := by
  rcases attempt_cases refuse op x with ⟨a, -, hrun⟩ | hrun
  · rw [hrun]
  · rw [hrun]
    exact h

theorem failing (h : files.Frame file content) (refuse : Nat → Option AccessFault)
    (remote : String → Nat → Option String) :
    (files.failing refuse remote).Frame file fun x => content x.1 where
  readText path x := funext fun i => attempt (congrFun (h.readText path x.1) i)
  fetchText source x := funext fun i => attempt (congrFun (h.fetchText source x.1) i)
  makeDirs path x := funext fun i => attempt (congrFun (h.makeDirs path x.1) i)
  refused path text x e he := by
    change ((Build.attempt _ _).run x).1 = _ at he
    change content ((Build.attempt _ _).run x).2.1 = _
    rcases attempt_cases (fun n => (refuse n).map .error) (files.writeText path text) x with
      ⟨a, -, hrun⟩ | hrun
    · rw [hrun]
    · rw [hrun] at he ⊢
      exact h.refused path text x.1 e he
  written path text x he := by
    change ((Build.attempt _ _).run x).1 = _ at he
    change content ((Build.attempt _ _).run x).2.1 _ = _
    rcases attempt_cases (fun n => (refuse n).map .error) (files.writeText path text) x with
      ⟨a, ha, hrun⟩ | hrun
    · obtain ⟨e, -, rfl⟩ := Option.map_eq_some_iff.mp ha
      rw [hrun] at he
      cases he
    · rw [hrun] at he ⊢
      exact h.written path text x.1 he
  others path text x i hi := attempt (h.others path text x.1 i hi)

end Files.Frame
end TypedEndpoints.Build
