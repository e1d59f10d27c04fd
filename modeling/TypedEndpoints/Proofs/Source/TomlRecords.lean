import TypedEndpoints.Proofs.Source.Records
import TypedEndpoints.Source.Toml
/-! What readers take from TOML values. An array may be given item by item, as tables under a repeated header;
a date is read as a table with one key. -/
namespace TypedEndpoints.Toml.Value

def entries : Value → Entries
  | .table _ es => es
  | .datetime s => [(Source.Node.dateKey, .text s)]
  | _ => []

def items : Value → List Value
  | .list vs => vs
  | .tables ts => ts.map (.table .header)
  | _ => []

/-- A field of a record, which may be written as the list of its fields. -/
def field? (index : Nat) (name : String) : Value → Option Value
  | .list vs => vs[index]?
  | .tables ts => (items (.tables ts))[index]?
  | v => v.entries.lookup name

inductive IsTable : Value → Prop
  | table (kind : TableKind) (es : Entries) : IsTable (.table kind es)
  | datetime (s : String) : IsTable (.datetime s)

inductive IsList : Value → Prop
  | list (vs : List Value) : IsList (.list vs)
  | tables (ts : List Entries) : IsList (.tables ts)

/-- Only tables and lists have fields. -/
theorem isTable_or_isList {v w : Value} {index : Nat} {name : String} (h : v.field? index name = some w) :
    v.IsTable ∨ v.IsList := by
  cases v with
  | text | bool | integer | float => cases h
  | datetime s => exact .inl (.datetime s)
  | table kind es => exact .inl (.table kind es)
  | list vs => exact .inr (.list vs)
  | tables ts => exact .inr (.tables ts)

end TypedEndpoints.Toml.Value

namespace TypedEndpoints.Source
open Toml Node Outcomes

theorem ofTomlItems_eq (vs : List Value) : ofTomlItems vs = vs.map ofToml := by
  induction vs with
  | nil => rfl
  | cons v vs ih => rw [ofTomlItems, ih, List.map_cons]

theorem ofTomlTables_eq (ts : List Entries) : ofTomlTables ts = (ts.map (.table .header)).map ofToml := by
  induction ts with
  | nil => rfl
  | cons es ts ih => rw [ofTomlTables, ih, List.map_cons, List.map_cons, ofToml]

theorem ofTomlEntries_eq (es : Entries) :
    ofTomlEntries es = es.map fun e => (.scalar (.ofText e.1), ofToml e.2) := by
  induction es with
  | nil => rfl
  | cons e es ih => rw [ofTomlEntries, ih, List.map_cons]

@[simp] theorem text_ofToml_iff {v : Value} {s : String} :
    text (m := Except Fault) (ofToml v) = .ok s ↔ v = .text s := by
  constructor
  · intro h
    cases v <;> cases h
    rfl
  · rintro rfl
    rfl

@[simp] theorem flag_ofToml_iff {v : Value} {b : Bool} :
    flag (m := Except Fault) (ofToml v) = .ok b ↔ v = .bool b := by
  constructor
  · intro h
    cases v <;> cases h
    rfl
  · rintro rfl
    rfl

theorem named_ofToml {es : Entries} {named : List (String × Node Empty)}
    (h : Named (ofTomlEntries es) named) : named = es.map fun x => (x.1, ofToml x.2) := by
  induction es generalizing named with
  | nil =>
      cases h
      rfl
  | cons e es ih =>
      obtain ⟨key, v⟩ := e
      cases h with
      | @cons _ x _ named hx hnamed =>
          obtain ⟨k, n⟩ := x
          obtain ⟨hkey, rfl⟩ := hx
          obtain rfl : key = k := Except.ok.inj hkey
          rw [ih hnamed]
          rfl

theorem knownFields_ofToml {known : List Field} {es : Entries} {fs : Fields Empty}
    (h : Returns (m := Except Fault) (knownFields known (ofTomlEntries es) []) fs) {i : Nat} {name : String}
    (hi : (known.map Field.name)[i]? = some name) : fs.lookup name = (es.lookup name).map ofToml := by
  obtain ⟨named, hnamed, hlookup⟩ := knownFields_lookup h hi
  rw [hlookup, named_ofToml hnamed]
  exact lookup_map ofToml name es

/-- Known keys are read when none of them is repeated; the values of all others are not looked at. -/
theorem exists_knownFields_iff {known : List Field} {es : Entries} {acc : Fields Empty}
    (hacc : (acc.map Prod.fst).Nodup) :
    (∃ fs, knownFields (m := Except Fault) known (ofTomlEntries es) acc = .ok fs) ↔
      (acc.map Prod.fst ++ (es.map Prod.fst).filter (· ∈ known.map Field.name)).Nodup := by
  induction es generalizing acc with
  | nil => simpa [ofTomlEntries, knownFields, pure, Except.pure] using hacc
  | cons e es ih =>
      obtain ⟨k, v⟩ := e
      have hstep : knownFields (m := Except Fault) known (ofTomlEntries ((k, v) :: es)) acc =
          if known.any (·.name == k) then
            if acc.any (·.1 == k) then throw (.duplicateField k)
            else knownFields known (ofTomlEntries es) ((k, ofToml v) :: acc)
          else knownFields known (ofTomlEntries es) acc := rfl
      have hknown : known.any (·.name == k) = true ↔ k ∈ known.map Field.name := any_key_iff Field.name
      have hgiven : acc.any (·.1 == k) = true ↔ k ∈ acc.map Prod.fst := any_key_iff Prod.fst
      rw [hstep]
      simp only [List.map_cons, List.filter_cons, decide_eq_true_eq]
      split
      · next h =>
        rw [if_pos (hknown.mp h), List.perm_middle.nodup_iff]
        split
        · next hagain =>
          -- the key is among the fields already, so it would be in the list twice
          refine iff_of_false ?_ fun hnodup => (List.nodup_cons.mp hnodup).1 ?_
          · rintro ⟨fs, ⟨⟩⟩
          · exact List.mem_append_left _ (hgiven.mp hagain)
        · next hnew => exact ih (List.nodup_cons.mpr ⟨mt hgiven.mpr hnew, hacc⟩)
      · next h =>
        rw [if_neg (mt hknown.mpr h)]
        exact ih hacc

theorem positionalFields_defaults {known : List Field} {ns : List (Node Empty)}
    (h : ∀ f ∈ known.drop ns.length, f.hasDefault = true) :
    positionalFields (m := Except Fault) true known ns = .ok ((known.map Field.name).zip ns) := by
  induction known generalizing ns with
  | nil => cases ns <;> rfl
  | cons f known ih =>
      cases ns with
      | nil =>
          obtain ⟨hf, hrest⟩ := List.forall_mem_cons.mp h
          rw [positionalFields, if_pos hf, @ih [] hrest, List.zip_nil_right, List.zip_nil_right]
      | cons n ns =>
          rw [positionalFields, ih h]
          rfl

section
variable {known : List Field} {depth d : Nat} {v : Value}

theorem record_ofToml {fs : Fields Empty}
    (h : Returns (m := Except Fault) (record known depth (ofToml v)) (d, fs))
    (hnames : (known.map Field.name).Nodup) {i : Nat} {name : String}
    (hi : (known.map Field.name)[i]? = some name) : fs.lookup name = (v.field? i name).map ofToml := by
  cases v with
  | text s => cases h
  | bool b => cases h
  | integer i => cases h
  | float x => cases h
  | datetime s => exact @knownFields_ofToml known [(dateKey, .text s)] fs (record_map h) i name hi
  | table kind es => exact knownFields_ofToml (record_map h) hi
  | list vs =>
      rw [positionalFields_lookup (record_list h) hnames hi, ofTomlItems_eq, List.getElem?_map]
      rfl
  | tables ts =>
      rw [positionalFields_lookup (record_list h) hnames hi, ofTomlTables_eq, List.getElem?_map]
      rfl

/-- Known keys are not repeated in a record that is read. -/
theorem record_once {fs : Fields Empty}
    (h : Returns (m := Except Fault) (record known depth (ofToml v)) (d, fs)) :
    ((v.entries.map Prod.fst).filter (· ∈ known.map Field.name)).Nodup := by
  cases v with
  | table kind es => exact (@exists_knownFields_iff known es [] List.nodup_nil).mp ⟨fs, record_map h⟩
  | datetime s =>
      exact (@exists_knownFields_iff known [(dateKey, .text s)] [] List.nodup_nil).mp ⟨fs, record_map h⟩
  | _ => exact List.nodup_nil

/-- A record is read when no known key is repeated and no field without a default is missing. -/
theorem exists_record (hv : v.IsTable ∨ v.IsList)
    (honce : ((v.entries.map Prod.fst).filter (· ∈ known.map Field.name)).Nodup)
    (hgiven : ∀ i f, known[i]? = some f → f.hasDefault = false → v.field? i f.name ≠ none) :
    ∃ fs, record (m := Except Fault) known (depth + 1) (ofToml v) = .ok (depth, fs) := by
  have hdefaults (vs : List Value) (hvs : ∀ i name, v.field? i name = vs[i]?) :
      ∀ f ∈ known.drop (vs.map ofToml).length, f.hasDefault = true := by
    intro f hf
    obtain ⟨i, hi⟩ := List.mem_iff_getElem?.mp hf
    rw [List.getElem?_drop, List.length_map] at hi
    by_contra hdefault
    refine hgiven _ f hi (Bool.eq_false_iff.mpr hdefault) ?_
    rw [hvs]
    exact List.getElem?_eq_none (Nat.le_add_right _ _)
  rcases hv with (⟨kind, es⟩ | ⟨s⟩) | (⟨vs⟩ | ⟨ts⟩)
  · obtain ⟨fs, hfs⟩ := (@exists_knownFields_iff known es [] List.nodup_nil).mpr honce
    exact ⟨fs, congrArg (· >>= fun fs => pure (depth, fs)) hfs⟩
  · obtain ⟨fs, hfs⟩ := (@exists_knownFields_iff known [(dateKey, .text s)] [] List.nodup_nil).mpr honce
    exact ⟨fs, congrArg (· >>= fun fs => pure (depth, fs)) hfs⟩
  · have hfs := positionalFields_defaults (hdefaults vs fun _ _ => rfl)
    rw [← ofTomlItems_eq] at hfs
    exact ⟨_, congrArg (· >>= fun fs => pure (depth, fs)) hfs⟩
  · have hfs := positionalFields_defaults (hdefaults (ts.map (.table .header)) fun _ _ => rfl)
    rw [← ofTomlTables_eq] at hfs
    exact ⟨_, congrArg (· >>= fun fs => pure (depth, fs)) hfs⟩

theorem items_ofToml_iff {ns : List (Node Empty)} : items (m := Except Fault) depth (ofToml v) = .ok (d, ns) ↔
    depth = d + 1 ∧ v.IsList ∧ ns = v.items.map ofToml := by
  constructor
  · intro h
    obtain ⟨n, hn, h⟩ := of_bind (m := Except Fault) h
    cases v with
    | list vs =>
        cases of_pure (m := Except Fault) hn
        cases depth <;> cases h
        exact ⟨rfl, .list vs, ofTomlItems_eq vs⟩
    | tables ts =>
        cases of_pure (m := Except Fault) hn
        cases depth <;> cases h
        exact ⟨rfl, .tables ts, ofTomlTables_eq ts⟩
    | _ =>
        cases of_pure (m := Except Fault) hn
        cases h
  · rintro ⟨rfl, ⟨vs⟩ | ⟨ts⟩, rfl⟩
    · rw [Value.items, ← ofTomlItems_eq]
      rfl
    · rw [Value.items, ← ofTomlTables_eq]
      rfl

theorem entries_ofToml_iff {es : List (Node Empty × Node Empty)} :
    entries (m := Except Fault) depth (ofToml v) = .ok (d, es) ↔
      depth = d + 1 ∧ v.IsTable ∧ es = ofTomlEntries v.entries := by
  constructor
  · intro h
    obtain ⟨n, hn, h⟩ := of_bind (m := Except Fault) h
    cases v with
    | datetime s =>
        cases of_pure (m := Except Fault) hn
        cases depth <;> cases h
        exact ⟨rfl, .datetime s, rfl⟩
    | table kind es =>
        cases of_pure (m := Except Fault) hn
        cases depth <;> cases h
        exact ⟨rfl, .table kind es, rfl⟩
    | _ =>
        cases of_pure (m := Except Fault) hn
        cases h
  · rintro ⟨rfl, ⟨kind, es⟩ | ⟨s⟩, rfl⟩ <;> rfl

theorem listOf_ofToml_iff {α : Type} {read : Nat → Node Empty → Except Fault α} {as : List α} :
    listOf read depth (ofToml v) = .ok as ↔ ∃ d, depth = d + 1 ∧ v.IsList ∧
      List.Forall₂ (fun x a => read d (ofToml x) = .ok a) v.items as := by
  constructor
  · intro h
    obtain ⟨⟨d, ns⟩, hns, h⟩ := of_bind (m := Except Fault) h
    obtain ⟨hdepth, hv, rfl⟩ := items_ofToml_iff.mp hns
    exact ⟨d, hdepth, hv, List.forall₂_map_left_iff.mp (mapM_ok_iff.mp h)⟩
  · rintro ⟨d, hdepth, hv, hall⟩
    rw [listOf, items_ofToml_iff.mpr ⟨hdepth, hv, rfl⟩]
    exact mapM_ok_iff.mpr (List.forall₂_map_left_iff.mpr hall)

theorem pairsOf_ofToml_iff {α : Type} {read : Nat → Node Empty → Except Fault α} {pairs : List (String × α)} :
    pairsOf read depth (ofToml v) = .ok pairs ↔ ∃ d, depth = d + 1 ∧ v.IsTable ∧
      List.Forall₂ (fun x p => x.1 = p.1 ∧ read d (ofToml x.2) = .ok p.2) v.entries pairs := by
  have hpair (d : Nat) (x : String × Value) (p : String × α) :
      (do
        let key ← text (m := Except Fault) (ρ := Empty) (.scalar (.ofText x.1))
        let value ← read d (ofToml x.2)
        pure (key, value)) = Except.ok p ↔ x.1 = p.1 ∧ read d (ofToml x.2) = .ok p.2 := by
    constructor
    · intro h
      obtain ⟨key, hkey, h⟩ := of_bind (m := Except Fault) h
      obtain ⟨value, hvalue, h⟩ := of_bind (m := Except Fault) h
      cases of_pure (m := Except Fault) h
      exact ⟨Except.ok.inj hkey, hvalue⟩
    · obtain ⟨key, value⟩ := p
      rintro ⟨rfl, hvalue⟩
      exact congrArg (· >>= fun value => pure (x.1, value)) hvalue
  constructor
  · intro h
    obtain ⟨⟨d, es⟩, hes, h⟩ := of_bind (m := Except Fault) h
    obtain ⟨hdepth, hv, rfl⟩ := entries_ofToml_iff.mp hes
    have hall := mapM_ok_iff.mp h
    rw [ofTomlEntries_eq, List.forall₂_map_left_iff] at hall
    exact ⟨d, hdepth, hv, hall.imp fun x p => (hpair d x p).mp⟩
  · rintro ⟨d, hdepth, hv, hall⟩
    rw [pairsOf, entries_ofToml_iff.mpr ⟨hdepth, hv, rfl⟩]
    refine mapM_ok_iff.mpr ?_
    rw [ofTomlEntries_eq, List.forall₂_map_left_iff]
    exact hall.imp fun x p => (hpair d x p).mpr

end
end TypedEndpoints.Source
