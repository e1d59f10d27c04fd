import TypedEndpoints.Build.Config
import TypedEndpoints.Proofs.OrderedMap
import TypedEndpoints.Proofs.Source.TomlRecords
import TypedEndpoints.Proofs.Text.Blank
/-! Configurations against the texts they are read from. Which texts are accepted is stated on TOML tables;
a configuration has the inputs of its text, in order, and in none of them the source or the output is
blank. -/
namespace TypedEndpoints.Text

@[simp] theorem isAllBlank_iff (s : String) : isAllBlank s = true ↔ trimmed s = "" := by
  rw [trimmed, String.ofList_eq_empty_iff, isAllBlank, List.all_eq_true, trim_eq_nil_iff]
  rfl

end TypedEndpoints.Text

namespace TypedEndpoints.Build
open Source Node Outcomes OrderedMap
open Toml (Value Entries)

/-- Something is left of the source and of the output when they are trimmed. -/
def InputSpec.Filled (x : InputSpec) : Prop := Text.trimmed x.input ≠ "" ∧ Text.trimmed x.output ≠ ""

/-- What a value of a configuration is read as. -/
structure InputSpec.ReadAs (v : Value) (x : InputSpec) : Prop where
  input : v.field? 0 "input" = some (.text x.input)
  output : v.field? 1 "output" = some (.text x.output)
  mappings : Keeps (fun w type => w = .text type) ((v.field? 2 "mappings").elim [] Value.entries) x.mappings

structure Config.ReadAs (es : Entries) (c : Config) : Prop where
  inputs : List.Forall₂ InputSpec.ReadAs ((es.lookup "inputs").elim [] Value.items) c.inputs
  strictRefs : c.strictRefs = true ↔ es.lookup "strict_refs" = some (.bool true)

/-- An input that is accepted: a source and an output that are not blank, and types as texts. Keys of other
names may stand beside these, with any value. -/
structure InputSpec.Accepts (v : Value) : Prop where
  once : ((v.entries.map Prod.fst).filter (· ∈ ["input", "output", "mappings"])).Nodup
  input : ∃ s, v.field? 0 "input" = some (.text s) ∧ Text.trimmed s ≠ ""
  output : ∃ s, v.field? 1 "output" = some (.text s) ∧ Text.trimmed s ≠ ""
  mappings : ∀ w, v.field? 2 "mappings" = some w → w.IsTable ∧ ∀ e ∈ w.entries, ∃ s, e.2 = .text s

/-- A configuration that is accepted has no other keys than these two. -/
structure Config.Accepts (es : Entries) : Prop where
  known : ∀ e ∈ es, e.1 = "inputs" ∨ e.1 = "strict_refs"
  once : (es.map Prod.fst).Nodup
  inputs : ∀ v, es.lookup "inputs" = some v → v.IsList ∧ ∀ w ∈ v.items, InputSpec.Accepts w
  strictRefs : ∀ v, es.lookup "strict_refs" = some v → ∃ b, v = .bool b

section
variable {α : Type} {fs : Fields Empty} {name : String} {v : Option Value}

theorem requiredField_ofToml_iff (hv : fs.lookup name = v.map ofToml) {read : Node Empty → Except Fault α} {a : α} :
    requiredField fs name read = .ok a ↔ ∃ w, v = some w ∧ read (ofToml w) = .ok a := by
  rw [requiredField, hv]
  cases v with
  | none => exact iff_of_false nofun nofun
  | some w => simp

theorem defaultField_ofToml_iff (hv : fs.lookup name = v.map ofToml) {fallback : α}
    {read : Node Empty → Except Fault α} {a : α} : defaultField fs name fallback read = .ok a ↔
      (v = none ∧ a = fallback) ∨ ∃ w, v = some w ∧ read (ofToml w) = .ok a := by
  rw [defaultField, hv]
  cases v with
  | none => simp [pure, Except.pure, eq_comm]
  | some w => simp

end

section
variable {depth d : Nat} {v : Value} {fs : Fields Empty}

theorem InputSpec.fields_ofToml (hfs : record (m := Except Fault) InputSpec.fields depth (ofToml v) = .ok (d, fs)) :
    fs.lookup "input" = (v.field? 0 "input").map ofToml ∧ fs.lookup "output" = (v.field? 1 "output").map ofToml ∧
      fs.lookup "mappings" = (v.field? 2 "mappings").map ofToml :=
  ⟨record_ofToml hfs (by decide) rfl, record_ofToml hfs (by decide) rfl, record_ofToml hfs (by decide) rfl⟩

theorem InputSpec.read_ok_iff {x : InputSpec} : InputSpec.read (m := Except Fault) depth (ofToml v) = .ok x ↔
    ∃ d fs pairs, record (m := Except Fault) InputSpec.fields depth (ofToml v) = .ok (d, fs) ∧
      v.field? 0 "input" = some (.text x.input) ∧ v.field? 1 "output" = some (.text x.output) ∧
      ((v.field? 2 "mappings" = none ∧ pairs = []) ∨ ∃ w, v.field? 2 "mappings" = some w ∧
        pairsOf (m := Except Fault) (fun _ => text) d (ofToml w) = .ok pairs) ∧
      x.mappings = OrderedMap.ofPairs pairs := by
  constructor
  · intro h
    obtain ⟨⟨d, fs⟩, hfs, h⟩ := of_bind (m := Except Fault) h
    obtain ⟨hi, ho, hm⟩ := fields_ofToml hfs
    obtain ⟨input, hinput, h⟩ := of_bind (m := Except Fault) h
    obtain ⟨output, houtput, h⟩ := of_bind (m := Except Fault) h
    obtain ⟨pairs, hpairs, h⟩ := of_bind (m := Except Fault) h
    obtain ⟨w, hw, htext⟩ := (requiredField_ofToml_iff hi).mp hinput
    obtain ⟨w', hw', htext'⟩ := (requiredField_ofToml_iff ho).mp houtput
    obtain rfl := text_ofToml_iff.mp htext
    obtain rfl := text_ofToml_iff.mp htext'
    rw [of_pure (m := Except Fault) h]
    exact ⟨d, fs, pairs, hfs, hw, hw', (defaultField_ofToml_iff hm).mp hpairs, rfl⟩
  · rintro ⟨d, fs, pairs, hfs, hinput, houtput, hpairs, hmappings⟩
    obtain ⟨hi, ho, hm⟩ := fields_ofToml hfs
    have hinput := (requiredField_ofToml_iff hi).mpr ⟨_, hinput, text_ofToml_iff.mpr rfl⟩
    have houtput := (requiredField_ofToml_iff ho).mpr ⟨_, houtput, text_ofToml_iff.mpr rfl⟩
    have hpairs := (defaultField_ofToml_iff hm).mpr hpairs
    obtain ⟨input, output, mappings⟩ := x
    cases hmappings
    simp only [InputSpec.read, bind, Except.bind, hfs, hinput, houtput, hpairs]
    rfl

theorem InputSpec.read_ofToml {x : InputSpec}
    (h : InputSpec.read (m := Except Fault) depth (ofToml v) = .ok x) : InputSpec.ReadAs v x := by
  obtain ⟨d, fs, pairs, -, hinput, houtput, hpairs, hmappings⟩ := InputSpec.read_ok_iff.mp h
  refine ⟨hinput, houtput, ?_⟩
  rw [hmappings]
  rcases hpairs with ⟨hnone, rfl⟩ | ⟨w, hw, hread⟩
  · rw [hnone]
    exact keeps_ofPairs .nil
  · rw [hw]
    obtain ⟨_, -, -, hall⟩ := pairsOf_ofToml_iff.mp hread
    exact keeps_ofPairs (hall.imp fun _ _ hp => ⟨hp.1, text_ofToml_iff.mp hp.2⟩)

theorem exists_texts_iff : (∃ pairs, pairsOf (m := Except Fault) (fun _ => text) (depth + 1) (ofToml v) = .ok pairs) ↔
    v.IsTable ∧ ∀ e ∈ v.entries, ∃ s, e.2 = .text s := by
  constructor
  · rintro ⟨pairs, hpairs⟩
    obtain ⟨d, -, hv, hall⟩ := pairsOf_ofToml_iff.mp hpairs
    refine ⟨hv, fun e he => ?_⟩
    obtain ⟨p, ⟨-, htext⟩, -⟩ := exists_forall₂_iff.mp ⟨pairs, hall, fun _ _ => trivial⟩ e he
    exact ⟨p.2, text_ofToml_iff.mp htext⟩
  · rintro ⟨hv, hall⟩
    have hread : ∀ e ∈ v.entries, ∃ p : String × String,
        (e.1 = p.1 ∧ text (m := Except Fault) (ofToml e.2) = .ok p.2) ∧ True := by
      intro e he
      obtain ⟨s, hs⟩ := hall e he
      exact ⟨(e.1, s), ⟨rfl, text_ofToml_iff.mpr hs⟩, trivial⟩
    obtain ⟨pairs, hpairs, -⟩ := exists_forall₂_iff.mpr hread
    exact ⟨pairs, pairsOf_ofToml_iff.mpr ⟨depth, rfl, hv, hpairs⟩⟩

/-- Where the depth suffices, what is accepted is what can be read and is not blank. -/
theorem InputSpec.accepts_iff : InputSpec.Accepts v ↔
    ∃ x, InputSpec.read (m := Except Fault) (depth + 2) (ofToml v) = .ok x ∧ x.Filled := by
  constructor
  · rintro ⟨honce, ⟨input, hinput, hfilled⟩, ⟨output, houtput, hfilled'⟩, hmappings⟩
    have hgiven : ∀ i f, InputSpec.fields[i]? = some f → f.hasDefault = false → v.field? i f.name ≠ none := by
      rintro (_ | _ | _ | i) f hf hdefault
      · cases hf
        simp [hinput]
      · cases hf
        simp [houtput]
      · cases hf
        cases hdefault
      · cases hf
    obtain ⟨fs, hfs⟩ : ∃ fs, record (m := Except Fault) InputSpec.fields (depth + 2) (ofToml v) =
        .ok (depth + 1, fs) := exists_record (Value.isTable_or_isList hinput) honce hgiven
    have hpairs : ∃ pairs, (v.field? 2 "mappings" = none ∧ pairs = []) ∨ ∃ w, v.field? 2 "mappings" = some w ∧
        pairsOf (m := Except Fault) (fun _ => text) (depth + 1) (ofToml w) = .ok pairs := by
      cases hw : v.field? 2 "mappings" with
      | none => exact ⟨[], .inl ⟨rfl, rfl⟩⟩
      | some w =>
          obtain ⟨pairs, hpairs⟩ := exists_texts_iff.mpr (hmappings w hw)
          exact ⟨pairs, .inr ⟨w, rfl, hpairs⟩⟩
    obtain ⟨pairs, hpairs⟩ := hpairs
    exact ⟨⟨input, output, OrderedMap.ofPairs pairs⟩,
      InputSpec.read_ok_iff.mpr ⟨_, fs, pairs, hfs, hinput, houtput, hpairs, rfl⟩, hfilled, hfilled'⟩
  · rintro ⟨x, hread, hfilled⟩
    obtain ⟨d, fs, pairs, hfs, hinput, houtput, hpairs, -⟩ := InputSpec.read_ok_iff.mp hread
    refine ⟨record_once hfs, ⟨_, hinput, hfilled.1⟩, ⟨_, houtput, hfilled.2⟩, ?_⟩
    intro w hw
    rcases hpairs with ⟨hnone, -⟩ | ⟨w', hw', hpairs⟩
    · cases hnone.symm.trans hw
    · cases hw'.symm.trans hw
      obtain ⟨d', rfl, -⟩ := pairsOf_ofToml_iff.mp hpairs
      exact exists_texts_iff.mp ⟨pairs, hpairs⟩

end

theorem refuseUnknown_ok_iff {known : List Field} {es : Entries} :
    refuseUnknown (m := Except Fault) known (ofTomlEntries es) = .ok () ↔
      ∀ e ∈ es, e.1 ∈ known.map Field.name := by
  induction es with
  | nil => exact iff_of_true rfl (List.forall_mem_nil _)
  | cons e es ih =>
      obtain ⟨k, v⟩ := e
      have hstep : refuseUnknown (m := Except Fault) known (ofTomlEntries ((k, v) :: es)) =
          if known.any (·.name == k) then refuseUnknown known (ofTomlEntries es)
          else throw (.expected "a known field") := rfl
      have hknown : known.any (·.name == k) = true ↔ k ∈ known.map Field.name := any_key_iff Field.name
      rw [hstep, List.forall_mem_cons, ← ih]
      split
      · next h => exact (and_iff_right (hknown.mp h)).symm
      · next h => exact iff_of_false nofun fun hk => h (hknown.mpr hk.1)

section
variable {depth : Nat} {es : Entries}

@[simp] theorem Config.mem_fields {k : String} :
    k ∈ Config.fields.map Field.name ↔ k = "inputs" ∨ k = "strict_refs" := by
  simp [Config.fields]

/-- The keys that may stand in a configuration are all looked at, so none of them is repeated. -/
theorem Config.exists_fields_iff (hknown : ∀ e ∈ es, e.1 ∈ Config.fields.map Field.name) :
    (∃ fs, knownFields (m := Except Fault) Config.fields (ofTomlEntries es) [] = .ok fs) ↔
      (es.map Prod.fst).Nodup := by
  rw [@exists_knownFields_iff Config.fields es [] List.nodup_nil, List.map_nil, List.nil_append,
    List.filter_eq_self.mpr]
  rw [List.forall_mem_map]
  exact fun e he => decide_eq_true (hknown e he)

theorem Config.read_ok_iff {c : Config} : Config.read (m := Except Fault) depth (ofTomlEntries es) = .ok c ↔
    (∀ e ∈ es, e.1 = "inputs" ∨ e.1 = "strict_refs") ∧ (es.map Prod.fst).Nodup ∧
      ((es.lookup "inputs" = none ∧ c.inputs = []) ∨ ∃ v, es.lookup "inputs" = some v ∧
        listOf (m := Except Fault) InputSpec.read depth (ofToml v) = .ok c.inputs) ∧
      ((es.lookup "strict_refs" = none ∧ c.strictRefs = false) ∨
        es.lookup "strict_refs" = some (.bool c.strictRefs)) := by
  have hkeys : (∀ e ∈ es, e.1 = "inputs" ∨ e.1 = "strict_refs") ↔
      ∀ e ∈ es, e.1 ∈ Config.fields.map Field.name := by simp
  have hlookups {fs : Fields Empty}
      (hfs : knownFields (m := Except Fault) Config.fields (ofTomlEntries es) [] = .ok fs) :
      fs.lookup "inputs" = (es.lookup "inputs").map ofToml ∧
        fs.lookup "strict_refs" = (es.lookup "strict_refs").map ofToml :=
    ⟨knownFields_ofToml (i := 0) hfs rfl, knownFields_ofToml (i := 1) hfs rfl⟩
  have hflag {b : Bool} : (∃ v, es.lookup "strict_refs" = some v ∧
      flag (m := Except Fault) (ofToml v) = .ok b) ↔ es.lookup "strict_refs" = some (.bool b) := by
    simp
  rw [hkeys]
  constructor
  · intro h
    obtain ⟨⟨⟩, hknown, h⟩ := of_bind (m := Except Fault) h
    obtain ⟨fs, hfs, h⟩ := of_bind (m := Except Fault) h
    obtain ⟨hi, hs⟩ := hlookups hfs
    obtain ⟨inputs, hinputs, h⟩ := of_bind (m := Except Fault) h
    obtain ⟨strict, hstrict, h⟩ := of_bind (m := Except Fault) h
    have hknown := refuseUnknown_ok_iff.mp hknown
    rw [of_pure (m := Except Fault) h, ← hflag]
    exact ⟨hknown, (Config.exists_fields_iff hknown).mp ⟨fs, hfs⟩, (defaultField_ofToml_iff hi).mp hinputs,
      (defaultField_ofToml_iff hs).mp hstrict⟩
  · rintro ⟨hknown, honce, hinputs, hstrict⟩
    obtain ⟨fs, hfs⟩ := (Config.exists_fields_iff hknown).mpr honce
    obtain ⟨hi, hs⟩ := hlookups hfs
    rw [← hflag] at hstrict
    have hinputs := (defaultField_ofToml_iff hi).mpr hinputs
    have hstrict := (defaultField_ofToml_iff hs).mpr hstrict
    simp only [Config.read, bind, Except.bind, refuseUnknown_ok_iff.mpr hknown, hfs, hinputs, hstrict]
    rfl

theorem Config.read_ofToml {c : Config}
    (h : Config.read (m := Except Fault) depth (ofTomlEntries es) = .ok c) : Config.ReadAs es c := by
  obtain ⟨-, -, hinputs, hstrict⟩ := Config.read_ok_iff.mp h
  refine ⟨?_, ?_⟩
  · rcases hinputs with ⟨hnone, hnil⟩ | ⟨v, hv, hread⟩
    · rw [hnone, hnil]
      exact .nil
    · rw [hv]
      obtain ⟨_, -, -, hall⟩ := listOf_ofToml_iff.mp hread
      exact hall.imp fun _ _ => InputSpec.read_ofToml
  · rcases hstrict with ⟨hnone, hfalse⟩ | hv
    · simp [hnone, hfalse]
    · simp [hv]

theorem Config.accepts_iff : Config.Accepts es ↔
    ∃ c, Config.read (m := Except Fault) configDepth (ofTomlEntries es) = .ok c ∧ ∀ x ∈ c.inputs, x.Filled := by
  constructor
  · rintro ⟨hknown, honce, hinputs, hstrict⟩
    have hlist : ∃ xs, ((es.lookup "inputs" = none ∧ xs = []) ∨ ∃ v, es.lookup "inputs" = some v ∧
        listOf (m := Except Fault) InputSpec.read configDepth (ofToml v) = .ok xs) ∧ ∀ x ∈ xs, x.Filled := by
      cases hv : es.lookup "inputs" with
      | none => exact ⟨[], .inl ⟨rfl, rfl⟩, List.forall_mem_nil _⟩
      | some v =>
          obtain ⟨hlist, hall⟩ := hinputs v hv
          obtain ⟨xs, hxs, hfilled⟩ :=
            exists_forall₂_iff.mpr fun w hw => (@InputSpec.accepts_iff 125 w).mp (hall w hw)
          exact ⟨xs, .inr ⟨v, rfl, listOf_ofToml_iff.mpr ⟨127, rfl, hlist, hxs⟩⟩, hfilled⟩
    have hflag : ∃ b, (es.lookup "strict_refs" = none ∧ b = false) ∨
        es.lookup "strict_refs" = some (.bool b) := by
      cases hv : es.lookup "strict_refs" with
      | none => exact ⟨false, .inl ⟨rfl, rfl⟩⟩
      | some v =>
          obtain ⟨b, rfl⟩ := hstrict v hv
          exact ⟨b, .inr rfl⟩
    obtain ⟨xs, hxs, hfilled⟩ := hlist
    obtain ⟨b, hb⟩ := hflag
    exact ⟨⟨xs, b⟩, Config.read_ok_iff.mpr ⟨hknown, honce, hxs, hb⟩, hfilled⟩
  · rintro ⟨c, hread, hfilled⟩
    obtain ⟨hknown, honce, hinputs, hstrict⟩ := Config.read_ok_iff.mp hread
    refine ⟨hknown, honce, fun v hv => ?_, fun v hv => ?_⟩
    · rcases hinputs with ⟨hnone, -⟩ | ⟨w, hw, hlist⟩
      · cases hnone.symm.trans hv
      · cases hw.symm.trans hv
        obtain ⟨d, hdepth, hlist, hall⟩ := listOf_ofToml_iff.mp hlist
        obtain rfl : 127 = d := Nat.succ.inj hdepth
        exact ⟨hlist, fun w hw =>
          InputSpec.accepts_iff.mpr (exists_forall₂_iff.mp ⟨c.inputs, hall, hfilled⟩ w hw)⟩
    · rcases hstrict with ⟨hnone, -⟩ | hflag
      · cases hnone.symm.trans hv
      · exact ⟨_, Option.some.inj (hv.symm.trans hflag)⟩

end

@[simp] theorem firstBlank_eq_none_iff {index : Nat} {xs : List InputSpec} :
    firstBlank index xs = none ↔ ∀ x ∈ xs, x.Filled := by
  induction xs generalizing index with
  | nil => simp [firstBlank]
  | cons x xs ih =>
      have hinput : isBlankInput x = true ↔ Text.trimmed x.input = "" := Text.isAllBlank_iff x.input
      have houtput : isBlankOutput x = true ↔ Text.trimmed x.output = "" := Text.isAllBlank_iff x.output
      rw [firstBlank, List.forall_mem_cons, InputSpec.Filled]
      split
      · next h => simp [hinput.mp h]
      · next h =>
        split
        · next h' => simp [houtput.mp h']
        · next h' =>
          rw [ih]
          exact ⟨fun hall => ⟨⟨fun e => h (hinput.mpr e), fun e => h' (houtput.mpr e)⟩, hall⟩, And.right⟩

/-- A text is accepted when it is TOML of a configuration; then it is read as what it says, and names a source
and an output for each input. -/
theorem Config.parse_ok_iff {s : String} {c : Config} : Config.parse s = .ok c ↔
    ∃ es, Toml.parse? s.toList = some es ∧
      Config.read (m := Except Fault) configDepth (ofTomlEntries es) = .ok c ∧ ∀ x ∈ c.inputs, x.Filled := by
  unfold Config.parse
  cases Toml.parse? s.toList with
  | none => exact iff_of_false nofun nofun
  | some es =>
      simp only [Option.some.injEq, exists_eq_left']
      cases Config.read (m := Except Fault) configDepth (ofTomlEntries es) with
      | error f => exact iff_of_false nofun nofun
      | ok c' =>
          simp only [Config.validate, Except.ok.injEq]
          cases hblank : firstBlank 0 c'.inputs with
          | none =>
              have hfilled := firstBlank_eq_none_iff.mp hblank
              exact ⟨fun h => ⟨Except.ok.inj h, Except.ok.inj h ▸ hfilled⟩, fun h => congrArg _ h.1⟩
          | some e =>
              refine iff_of_false nofun ?_
              rintro ⟨rfl, hfilled⟩
              cases hblank.symm.trans (firstBlank_eq_none_iff.mpr hfilled)

theorem Config.exists_parse_iff {s : String} : (∃ c, Config.parse s = .ok c) ↔
    ∃ es, Toml.parse? s.toList = some es ∧ Config.Accepts es := by
  simp only [Config.parse_ok_iff, Config.accepts_iff]
  rw [exists_comm]
  simp only [exists_and_left]

theorem Config.parse_ok {s : String} {c : Config} (h : Config.parse s = .ok c) :
    ∃ es, Toml.parse? s.toList = some es ∧ Config.ReadAs es c ∧ ∀ x ∈ c.inputs, x.Filled := by
  obtain ⟨es, htoml, hread, hfilled⟩ := Config.parse_ok_iff.mp h
  exact ⟨es, htoml, Config.read_ofToml hread, hfilled⟩

end TypedEndpoints.Build
