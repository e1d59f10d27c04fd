import Mathlib.Data.List.Permutation
import Mathlib.Logic.Relation
import TypedEndpoints.Generation.Output
import TypedEndpoints.OpenApi.Parsing
import TypedEndpoints.Proofs.OpenApi.PathItems
import TypedEndpoints.Proofs.Source.Agreement
/-! Keys that documents do not have. The parts of a document are nine kinds of record; a key that a record does
not know may come or go wherever the record stands, and nothing that is read changes. -/
namespace TypedEndpoints.OpenApi
open Json Source Node Outcomes

/-- The kinds of record in a document. -/
inductive Shape where
  | document
  | components
  | pathItem
  | operation
  | parameter
  | requestBody
  | response
  | mediaType
  | schema
deriving DecidableEq

/-- Where records stand in the value of a field: it is one, its values or its items are, or it has none. -/
inductive Form where
  | one (s : Shape)
  | map (s : Shape)
  | list (s : Shape)
  | plain

namespace Shape

/-- The fields of a record, in the order in which a list may give them. -/
def fields : Shape → List (String × Form)
  | document => [("paths", .map pathItem), ("components", .one components)]
  | components => [("schemas", .map schema), ("parameters", .map parameter)]
  | pathItem => ("parameters", .list parameter) :: methodKeys.map fun key => (key, .one operation)
  | operation => [("operationId", .plain), ("parameters", .list parameter), ("requestBody", .one requestBody),
      ("responses", .map response)]
  | parameter => [("name", .plain), ("in", .plain), ("required", .plain), ("schema", .one schema), ("$ref", .plain)]
  | requestBody => [("content", .map mediaType)]
  | response => [("content", .map mediaType)]
  | mediaType => [("schema", .one schema)]
  | schema => [("type", .plain), ("$ref", .plain), ("properties", .map schema), ("items", .one schema),
      ("nullable", .plain)]

def names (s : Shape) : List String := s.fields.map Prod.fst

def form? (s : Shape) (key : String) : Option Form := OrderedMap.get? s.fields key

theorem form?_of_place {s : Shape} {i : Nat} {key : String} {F : Form} (h : s.fields[i]? = some (key, F)) :
    s.form? key = some F := by
  have hnames : (OrderedMap.keys s.fields).Nodup := by cases s <;> decide
  exact OrderedMap.get?_of_mem hnames (List.mem_of_getElem? h)

def Result : Shape → Type
  | document => Document
  | components => Components
  | pathItem => PathItem
  | operation => Operation
  | parameter => Parameter
  | requestBody => RequestBody
  | response => Response
  | mediaType => MediaType
  | schema => Schema

def read : (s : Shape) → Nat → Node Empty → Except Fault s.Result
  | document => Document.read
  | components => Components.read
  | pathItem => PathItem.read
  | operation => Operation.read
  | parameter => Parameter.read
  | requestBody => RequestBody.read
  | response => Response.read
  | mediaType => MediaType.read
  | schema => Schema.read

end Shape

/-- A tree with one key more, which the record that it stands in does not know. -/
inductive Inserted : Form → Tree → Tree → Prop
  | key {s before after key t} : key ∉ Shape.names s →
      Inserted (.one s) (.object (before ++ after)) (.object (before ++ (some key, t) :: after))
  | field {s F before after key t t'} : s.form? key = some F → Inserted F t t' →
      Inserted (.one s) (.object (before ++ (some key, t) :: after))
        (.object (before ++ (some key, t') :: after))
  | place {s F before after key t t'} : s ≠ .pathItem → s.fields[before.length]? = some (key, F) →
      Inserted F t t' → Inserted (.one s) (.list (before ++ t :: after)) (.list (before ++ t' :: after))
  | value {s before after key t t'} : Inserted (.one s) t t' →
      Inserted (.map s) (.object (before ++ (key, t) :: after)) (.object (before ++ (key, t') :: after))
  | item {s before after t t'} : Inserted (.one s) t t' →
      Inserted (.list s) (.list (before ++ t :: after)) (.list (before ++ t' :: after))

inductive Form.Reader : Form → {α : Type} → (Node Empty → Except Fault α) → Prop
  | one (s depth) : Form.Reader (.one s) (s.read depth)
  | map (s depth) : Form.Reader (.map s) (pairsOf s.read depth)
  | list (s depth) : Form.Reader (.list s) (listOf s.read depth)
  | plain {α} (read : Node Empty → Except Fault α) : Form.Reader .plain read

/-- All readers of a field read the same. -/
def Form.Same (F : Form) (n n' : Node Empty) : Prop :=
  IsCollection n ∧ IsCollection n' ∧ ∀ ⦃α : Type⦄ (read : Node Empty → Except Fault α), F.Reader read →
    read n = read n'

def Shape.Alike (s : Shape) (key : String) (n n' : Node Empty) : Prop :=
  n = n' ∨ ∃ F, s.form? key = some F ∧ F.Same n n'

theorem Shape.Alike.refl {s : Shape} (key : String) (n : Node Empty) : s.Alike key n n := .inl rfl

section
variable {s : Shape} {F : Form} {fs fs' : Fields Empty} {name : String} {α : Type}
  {read : Node Empty → Except Fault α}

theorem Shape.Alike.optional {n n' : Node Empty} (h : s.Alike name n n') (hname : s.form? name = some F)
    (hread : F.Reader read) : Source.optional read n = Source.optional read n' := by
  rcases h with rfl | ⟨G, hG, hn, hn', hsame⟩
  · rfl
  · cases hname.symm.trans hG
    rw [optional_of_collection hn, optional_of_collection hn', hsame read hread]

theorem Shape.Alike.same {n n' : Node Empty} (h : s.Alike name n n') (hname : s.form? name = some F)
    (hread : F.Reader read) : read n = read n' := by
  rcases h with rfl | ⟨G, hG, -, -, hsame⟩
  · rfl
  · cases hname.symm.trans hG
    exact hsame read hread

theorem optionalField_alike (h : FieldsAlike s.Alike fs fs') (name : String)
    (read : Node Empty → Except Fault α) (hname : s.form? name = some F) (hread : F.Reader read) :
    optionalField fs name read = optionalField fs' name read := by
  have hlookup := h.lookup name
  unfold optionalField
  generalize fs.lookup name = x, fs'.lookup name = y at hlookup
  cases hlookup with
  | none => rfl
  | some hn => exact hn.optional hname hread

theorem defaultField_alike (h : FieldsAlike s.Alike fs fs') (name : String) (fallback : α)
    (read : Node Empty → Except Fault α) (hname : s.form? name = some F) (hread : F.Reader read) :
    defaultField fs name fallback read = defaultField fs' name fallback read := by
  have hlookup := h.lookup name
  unfold defaultField
  generalize fs.lookup name = x, fs'.lookup name = y at hlookup
  cases hlookup with
  | none => rfl
  | some hn => exact hn.same hname hread

end

/-! ### Schemas at any depth -/

theorem pairsOf_zero {α : Type} (f g : Nat → Node Empty → Except Fault α) : pairsOf f 0 = pairsOf g 0 := by
  funext n
  cases n with
  | scalar s =>
      obtain ⟨_, _, _, _, hollow⟩ := s
      cases hollow <;> rfl
  | link r => exact r.elim
  | map | list => rfl

theorem pairsOf_succ {α : Type} (f : Nat → Node Empty → Except Fault α) (depth : Nat) :
    pairsOf (fun _ => f depth) (depth + 1) = pairsOf f (depth + 1) := by
  funext n
  cases n with
  | scalar s =>
      obtain ⟨_, _, _, _, hollow⟩ := s
      cases hollow <;> rfl
  | link r => exact r.elim
  | map | list => rfl

theorem record_depth {known : List Field} {depth : Nat} {n : Node Empty} {p : Nat × Fields Empty}
    (h : record (m := Except Fault) known depth n = .ok p) : p = (0, []) ∨ depth = p.1 + 1 := by
  have entered {x : Except Fault (Fields Empty)}
      (h : Returns (enter depth >>= fun d => x >>= fun fs => pure (d, fs)) p) : depth = p.1 + 1 := by
    obtain ⟨d, hd, h⟩ := of_bind h
    obtain ⟨fs, -, h⟩ := of_bind h
    cases of_pure h
    cases depth with
    | zero => cases hd
    | succ depth => rw [of_pure hd]
  cases n with
  | scalar s =>
      obtain ⟨_, _, _, _, hollow⟩ := s
      cases hollow <;> cases h
      exact .inl rfl
  | link r => exact r.elim
  | list role ns =>
      obtain ⟨known, _, _⟩ := role
      cases known with
      | true => exact .inr (entered h)
      | false => cases h
  | map es => exact .inr (entered h)

theorem bind_eq_bind {α β : Type} {x : Except Fault α} {f g : α → Except Fault β}
    (h : ∀ a, x = .ok a → f a = g a) : x >>= f = x >>= g := by
  cases x with
  | error e => rfl
  | ok a => exact h a rfl

/-- Items and properties are read at the depth that is left inside their schema. -/
theorem Schema.read_eq (depth : Nat) (n : Node Empty) : Schema.read (m := Except Fault) depth n =
    record Schema.fields depth n >>= fun p =>
      Schema.ofFields p.1 (Schema.read p.1) (pairsOf Schema.read p.1) p.2 := by
  unfold Schema.read
  split
  -- a record without fields is read the same by any readers; otherwise one level of depth is used up
  all_goals
    refine bind_eq_bind fun p hp => ?_
    obtain ⟨d, fs⟩ := p
    rcases record_depth hp with he | hd
    · cases he
      rfl
  · cases hd
  · cases hd
    rw [pairsOf_zero _ Schema.read]
  · obtain rfl : d = _ + 1 := Nat.succ.inj hd.symm
    change Schema.ofFields _ _ (pairsOf (fun _ => Schema.read _) _) fs = _
    rw [pairsOf_succ]

/-! ### Records that are read the same -/

/-- Records whose entries or items are related one by one. -/
inductive RecordsAlike (s : Shape) : Node Empty → Node Empty → Prop
  | map {es es'} : EntriesAlike s.Alike es es' → RecordsAlike s (.map es) (.map es')
  | list {role before after n n'} : (∀ name, s.names[before.length]? = some name → s.Alike name n n') →
      RecordsAlike s (.list role (before ++ n :: after)) (.list role (before ++ n' :: after))

theorem RecordsAlike.record {s : Shape} {n n' : Node Empty} (h : RecordsAlike s n n') {known : List Field}
    (hknown : known.map Field.name = s.names) (depth : Nat) :
    Agree (fun p q => p.1 = q.1 ∧ FieldsAlike s.Alike p.2 q.2) (record known depth n) (record known depth n') := by
  cases h with
  | map hes =>
      cases depth with
      | zero => exact .fault _
      | succ depth => exact (knownFields_alike hes .nil).bind fun _ _ hfs => .ok ⟨rfl, hfs⟩
  | @list role before after n n' hn =>
      obtain ⟨asRecord, surplus, _⟩ := role
      have hfields : Agree (FieldsAlike s.Alike) (positionalFields surplus known (before ++ n :: after))
          (positionalFields surplus known (before ++ n' :: after)) := by
        refine positionalFields_replace Shape.Alike.refl before after fun f hf => hn f.name ?_
        rw [← hknown, List.getElem?_map, hf]
        rfl
      cases asRecord with
      | false => exact .fault _
      | true =>
          cases depth with
          | zero => exact .fault _
          | succ depth => exact hfields.bind fun _ _ hfs => .ok ⟨rfl, hfs⟩

section
variable {known : List Field} {n n' : Node Empty} {α : Type} {f : Nat × Fields Empty → Except Fault α}
  {s : Shape}

theorem RecordsAlike.read (h : RecordsAlike s n n') (hknown : known.map Field.name = s.names)
    (hf : ∀ d fs fs', FieldsAlike s.Alike fs fs' → f (d, fs) = f (d, fs')) (depth : Nat) :
    (Source.record known depth n >>= f) = Source.record known depth n' >>= f := by
  refine (h.record hknown depth).bind_eq ?_
  rintro ⟨d, fs⟩ ⟨_, fs'⟩ ⟨rfl, hfs⟩
  exact hf d fs fs' hfs

end

theorem Schema.ofFields_alike {fs fs' : Fields Empty} (h : FieldsAlike Shape.schema.Alike fs fs') (d : Nat) :
    Schema.ofFields (m := Except Fault) d (Schema.read d) (pairsOf Schema.read d) fs =
      Schema.ofFields d (Schema.read d) (pairsOf Schema.read d) fs' := by
  unfold Schema.ofFields
  rw [optionalField_alike h "type" (SchemaType.read d) rfl (.plain _),
    optionalField_alike h "$ref" text rfl (.plain _),
    optionalField_alike h "properties" (pairsOf Schema.read d) rfl (.map .schema d),
    optionalField_alike h "items" (Schema.read d) rfl (.one .schema d),
    optionalField_alike h "nullable" flag rfl (.plain _)]

theorem Content.read_alike {s : Shape} (hs : s.fields = [("content", .map .mediaType)]) {n n' : Node Empty}
    (h : RecordsAlike s n n') (depth : Nat) :
    Content.read (m := Except Fault) depth n = Content.read depth n' := by
  have hform : s.form? "content" = some (.map .mediaType) := by
    rw [Shape.form?, hs]
    rfl
  refine h.read (by rw [Shape.names, hs]; rfl) (fun d fs fs' hfs => ?_) depth
  dsimp only
  rw [optionalField_alike hfs "content" (pairsOf MediaType.read d) hform (.map .mediaType d)]

theorem PathItem.readEntries_alike {es es' : List (Node Empty × Node Empty)}
    (h : EntriesAlike Shape.pathItem.Alike es es') (depth : Nat) (item : PathItem) :
    readEntries (m := Except Fault) depth es item = readEntries depth es' item := by
  induction h generalizing item with
  | nil => rfl
  | @cons x y _ _ hxy _ ih =>
      obtain ⟨k, v⟩ := x
      obtain ⟨k', v'⟩ := y
      obtain ⟨rfl, hv⟩ := hxy
      rw [readEntries, readEntries]
      refine bind_eq_bind fun key hkey => ?_
      have hv : Shape.pathItem.Alike key v v' := hv key hkey
      split
      · next m hm =>
        have hform : Shape.pathItem.form? key = some (.one .operation) := by
          rw [← Method.name_of_ofName? hm]
          cases m <;> rfl
        have hread : Operation.read depth v = Operation.read depth v' :=
          hv.same hform (.one .operation depth)
        rw [hread]
        split
        · rfl
        · exact bind_congr fun o => ih _
      · split
        · next hother =>
          subst hother
          have hread : listOf (m := Except Fault) Parameter.read depth v = listOf Parameter.read depth v' :=
            hv.same rfl (.list .parameter depth)
          rw [hread]
          exact bind_congr fun ps => ih _
        · exact ih item

theorem Shape.read_alike {s : Shape} {n n' : Node Empty} (h : RecordsAlike s n n') (depth : Nat) :
    s.read depth n = s.read depth n' := by
  cases s with
  | document =>
      refine RecordsAlike.read h rfl (fun d fs fs' hfs => ?_) depth
      dsimp only
      rw [defaultField_alike hfs "paths" [] (pairsOf PathItem.read d) rfl (.map .pathItem d),
        optionalField_alike hfs "components" (Components.read d) rfl (.one .components d)]
  | components =>
      refine RecordsAlike.read h rfl (fun d fs fs' hfs => ?_) depth
      dsimp only
      rw [optionalField_alike hfs "schemas" (pairsOf Schema.read d) rfl (.map .schema d),
        optionalField_alike hfs "parameters" (pairsOf Parameter.read d) rfl (.map .parameter d)]
  | pathItem =>
      cases h with
      | map hes =>
          cases depth with
          | zero => rfl
          | succ depth => exact PathItem.readEntries_alike hes depth {}
      | list => rfl
  | operation =>
      refine RecordsAlike.read h rfl (fun d fs fs' hfs => ?_) depth
      dsimp only
      rw [optionalField_alike hfs "operationId" text rfl (.plain _),
        optionalField_alike hfs "parameters" (listOf Parameter.read d) rfl (.list .parameter d),
        optionalField_alike hfs "requestBody" (RequestBody.read d) rfl (.one .requestBody d),
        defaultField_alike hfs "responses" [] (pairsOf Response.read d) rfl (.map .response d)]
  | parameter =>
      refine RecordsAlike.read h rfl (fun d fs fs' hfs => ?_) depth
      dsimp only
      rw [defaultField_alike hfs "name" "" text rfl (.plain _), defaultField_alike hfs "in" "" text rfl (.plain _),
        defaultField_alike hfs "required" false flag rfl (.plain _),
        optionalField_alike hfs "schema" (Schema.read d) rfl (.one .schema d),
        optionalField_alike hfs "$ref" text rfl (.plain _)]
  | requestBody => exact congrArg (· >>= _) (Content.read_alike rfl h depth)
  | response => exact congrArg (· >>= _) (Content.read_alike rfl h depth)
  | mediaType =>
      refine RecordsAlike.read h rfl (fun d fs fs' hfs => ?_) depth
      dsimp only
      rw [optionalField_alike hfs "schema" (Schema.read d) rfl (.one .schema d)]
  | schema =>
      change Schema.read depth n = Schema.read depth n'
      rw [Schema.read_eq, Schema.read_eq]
      exact h.read rfl (fun d fs fs' hfs => Schema.ofFields_alike hfs d) depth

/-! ### One key more -/

theorem PathItem.readEntries_skip {key : String} (hkey : key ∉ pathItemKeys) (v : Node Empty)
    (before after : List (Node Empty × Node Empty)) (depth : Nat) (item : PathItem) :
    readEntries (m := Except Fault) depth (before ++ (.scalar (.ofText key), v) :: after) item =
      readEntries depth (before ++ after) item := by
  induction before generalizing item with
  | nil => exact readEntries_other hkey
  | cons x before ih => simp only [List.cons_append, readEntries, ih]

theorem record_skip {known : List Field} {key : String} (hkey : key ∉ known.map Field.name) (v : Node Empty)
    (before after : List (Node Empty × Node Empty)) (depth : Nat) :
    record (m := Except Fault) known depth (.map (before ++ (.scalar (.ofText key), v) :: after)) =
      record known depth (.map (before ++ after)) := by
  have hunknown : known.any (·.name == key) = false :=
    Bool.eq_false_iff.mpr (mt (any_key_iff Field.name).mp hkey)
  cases depth with
  | zero => rfl
  | succ depth =>
      have hrecord : ∀ es : List (Node Empty × Node Empty), record (m := Except Fault) known (depth + 1) (.map es) =
          knownFields known es [] >>= fun fs => pure (depth, fs) := fun _ => rfl
      rw [hrecord, hrecord, knownFields_skip hunknown]

theorem Shape.read_skip {s : Shape} {key : String} (hkey : key ∉ s.names) (v : Node Empty)
    (before after : List (Node Empty × Node Empty)) (depth : Nat) :
    s.read depth (.map (before ++ (.scalar (.ofText key), v) :: after)) =
      s.read depth (.map (before ++ after)) := by
  cases s with
  | pathItem =>
      cases depth with
      | zero => rfl
      | succ depth => exact PathItem.readEntries_skip hkey v before after depth {}
  | schema =>
      change Schema.read depth _ = Schema.read depth _
      rw [Schema.read_eq, Schema.read_eq]
      exact congrArg (· >>= _) (record_skip hkey v before after depth)
  | requestBody | response =>
      exact congrArg (· >>= _) (congrArg (· >>= _) (record_skip hkey v before after depth))
  | document | components | operation | parameter | mediaType =>
      exact congrArg (· >>= _) (record_skip hkey v before after depth)

theorem ofJson_object_insert (before after : List (Option String × Tree)) (key : Option String) (t : Tree) :
    Node.ofJson (.object (before ++ (key, t) :: after)) =
      .map (ofJsonMembers before ++ (.scalar (.ofText? key), Node.ofJson t) :: ofJsonMembers after) := by
  rw [Node.ofJson, ofJsonMembers_eq, ofJsonMembers_eq, ofJsonMembers_eq, List.map_append, List.map_cons]

theorem ofJson_list_insert (before after : List Tree) (t : Tree) :
    Node.ofJson (.list (before ++ t :: after)) =
      .list jsonList (before.map Node.ofJson ++ Node.ofJson t :: after.map Node.ofJson) := by
  rw [Node.ofJson, ofJsonItems_eq, List.map_append, List.map_cons]

theorem pairsOf_map {α : Type} (read : Nat → Node Empty → Except Fault α) (depth : Nat)
    (es : List (Node Empty × Node Empty)) : pairsOf read depth (.map es) =
      enter depth >>= fun d => es.mapM fun e => text e.1 >>= fun key => read d e.2 >>= fun v => pure (key, v) := by
  cases depth <;> rfl

theorem listOf_list {α : Type} (read : Nat → Node Empty → Except Fault α) (depth : Nat) (role : ListRole)
    (ns : List (Node Empty)) : listOf read depth (.list role ns) =
      enter depth >>= fun d => ns.mapM (read d) := by
  cases depth <;> rfl

/-- By the way down to the record that has the key: whatever it stands in is read the same. -/
theorem Inserted.same {F : Form} {t t' : Tree} (h : Inserted F t t') :
    F.Same (Node.ofJson t) (Node.ofJson t') := by
  induction h with
  | @key s before after key t hkey =>
      refine ⟨.map _, .map _, fun α read hread => ?_⟩
      obtain ⟨_, depth⟩ := hread
      have hentries : ofJsonMembers (before ++ after) = ofJsonMembers before ++ ofJsonMembers after := by
        rw [ofJsonMembers_eq, ofJsonMembers_eq, ofJsonMembers_eq, List.map_append]
      rw [ofJson_object_insert, Node.ofJson, hentries]
      exact (Shape.read_skip hkey _ _ _ depth).symm
  | @field s F before after key t t' hform h ih =>
      rw [ofJson_object_insert, ofJson_object_insert]
      refine ⟨.map _, .map _, fun α read hread => ?_⟩
      obtain ⟨_, depth⟩ := hread
      refine Shape.read_alike (.map (forall₂_replace ?_ ⟨rfl, fun key' hkey' => ?_⟩ _ _)) depth
      · exact fun x => ⟨rfl, fun key _ => Shape.Alike.refl key x.2⟩
      · cases hkey'
        exact .inr ⟨F, hform, ih⟩
  | @place s F before after key t t' hs hplace h ih =>
      rw [ofJson_list_insert, ofJson_list_insert]
      refine ⟨.list _ _, .list _ _, fun α read hread => ?_⟩
      obtain ⟨_, depth⟩ := hread
      refine Shape.read_alike (.list fun name hname => ?_) depth
      rw [List.length_map, Shape.names, List.getElem?_map, hplace] at hname
      cases hname
      exact .inr ⟨F, Shape.form?_of_place hplace, ih⟩
  | @value s before after key t t' h ih =>
      rw [ofJson_object_insert, ofJson_object_insert]
      refine ⟨.map _, .map _, fun α read hread => ?_⟩
      cases hread with
      | map _ depth =>
          obtain ⟨-, -, hsame⟩ := ih
          rw [pairsOf_map, pairsOf_map]
          refine bind_congr fun d => mapM_replace ?_ _ _
          rw [hsame _ (.one s d)]
  | @item s before after t t' h ih =>
      rw [ofJson_list_insert, ofJson_list_insert]
      refine ⟨.list _ _, .list _ _, fun α read hread => ?_⟩
      cases hread with
      | list _ depth =>
          obtain ⟨-, -, hsame⟩ := ih
          rw [listOf_list, listOf_list]
          exact bind_congr fun d => mapM_replace (hsame _ (.one s d)) _ _

/-- Keys may come and go any number of times: where one text is read as a document, the other is read as the
same document, and the same is generated from both. -/
theorem Document.fromJson_unknownKeys {s s' : String} {t t' : Tree} {d : Document}
    (ht : Tree.parse? s.toList = some t) (ht' : Tree.parse? s'.toList = some t')
    (h : Relation.EqvGen (Inserted (.one .document)) t t') (hd : Document.fromJson s = .ok d) :
    Document.fromJson s' = .ok d ∧ ∀ strict overrides,
      (Document.fromJson s').map (Generation.generate strict overrides) =
        (Document.fromJson s).map (Generation.generate strict overrides) := by
  have hread : Document.read (m := Except Fault) maxDepth (Node.ofJson t) =
      Document.read maxDepth (Node.ofJson t') := by
    clear ht ht'
    induction h with
    | rel t t' h =>
        obtain ⟨-, -, hsame⟩ := h.same
        exact hsame _ (.one .document maxDepth)
    | refl t => rfl
    | symm t t' _ ih => exact ih.symm
    | trans t u t' _ _ ih ih' => exact ih.trans ih'
  have hsame : Document.fromJson s' = Document.fromJson s := by
    rw [Document.fromJson, Document.fromJson, ofJson, ofJson, ht, ht']
    exact (congrArg (Except.mapError ParseError.shape) hread).symm
  rw [hsame]
  exact ⟨hd, fun _ _ => rfl⟩

/-- The document whose only path item is `item`. -/
def soleItem (item : Tree) : Tree := .object [(some "paths", .object [(some "/a", item)])]

theorem Inserted.soleItem {t t' : Tree} (h : Inserted (.one .pathItem) t t') :
    Inserted (.one .document) (soleItem t) (soleItem t') :=
  @Inserted.field .document (.map .pathItem) [] [] "paths" _ _ rfl (@Inserted.value .pathItem [] [] _ _ _ h)

def bareGet : Option String × Tree := (some "get", .object [])
def taggedGet : Option String × Tree := (some "get", .object [(some "tags", .bool true)])

def titledTree : Tree := .object [(some "info", .null), (some "paths", .object [(some "/a", .object [bareGet])])]
def describedTree : Tree := soleItem (.object [(some "head", .list []), taggedGet])

/-- One key goes and two come. -/
theorem titled_described : Relation.EqvGen (Inserted (.one .document)) titledTree describedTree := by
  have hinfo : Inserted (.one .document) (soleItem (.object [bareGet])) titledTree :=
    @Inserted.key .document [] _ "info" _ (by decide)
  have hhead : Inserted (.one .pathItem) (.object [bareGet]) (.object [(some "head", .list []), bareGet]) :=
    @Inserted.key .pathItem [] _ "head" _ (by decide)
  have htags : Inserted (.one .pathItem) (.object [(some "head", .list []), bareGet])
      (.object [(some "head", .list []), taggedGet]) :=
    @Inserted.field .pathItem (.one .operation) [_] [] "get" _ _ rfl
      (@Inserted.key .operation [] [] "tags" _ (by decide))
  exact .trans _ _ _ (.symm _ _ (.rel _ _ hinfo))
    (.trans _ _ _ (.rel _ _ hhead.soleItem) (.rel _ _ htags.soleItem))

def titled : String := "\x7b\"info\":null,\"paths\":\x7b\"/a\":\x7b\"get\":\x7b\x7d\x7d\x7d\x7d"

def described : String :=
  "\x7b\"paths\":\x7b\"/a\":\x7b\"head\":[],\"get\":\x7b\"tags\":true\x7d\x7d\x7d\x7d"

theorem fromJson_unknownKeys_described : ∃ d, Document.fromJson titled = .ok d ∧
    Document.fromJson described = .ok d ∧ ∀ strict overrides,
      (Document.fromJson described).map (Generation.generate strict overrides) =
        (Document.fromJson titled).map (Generation.generate strict overrides) := by
  have ht : Tree.parse? titled.toList = some titledTree := by cbv
  have ht' : Tree.parse? described.toList = some describedTree := by cbv
  obtain ⟨d, hd, -⟩ := ok_of_view (x := Document.fromJson titled) (b := ["/a"])
    (fun d => d.paths.map Prod.fst) (by decide +kernel)
  exact ⟨d, hd, Document.fromJson_unknownKeys ht ht' titled_described hd⟩

end TypedEndpoints.OpenApi
