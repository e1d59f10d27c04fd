import TypedEndpoints.Proofs.OpenApi.DistinctKeys
import TypedEndpoints.Proofs.Source.JsonRecords
/-! Documents against the JSON texts they are read from: maps keep their entries, path items the entries that
are methods. -/
namespace TypedEndpoints.Json.Tree

def pathEntries (t : Tree) : List (String × Tree) := (t.field? 0 "paths").elim [] entries

def schemaEntries (t : Tree) : List (String × Tree) :=
  ((t.field? 1 "components").bind (field? 0 "schemas")).elim [] entries

def propertyEntries (t : Tree) : List (String × Tree) := (t.field? 2 "properties").elim [] entries

end TypedEndpoints.Json.Tree

namespace TypedEndpoints.OpenApi
open Json Source Node Outcomes OrderedMap

/-- What a JSON text is read as, with some depth left. -/
def ReadFrom {α : Type} (read : Nat → Node Empty → Except Fault α) (t : Tree) (a : α) : Prop :=
  ∃ depth, read depth (Node.ofJson t) = .ok a

/-- The operations under those keys that are methods, in source order. -/
structure OperationsOf (source : List (String × Tree)) (operations : List (Method × Operation)) :
    Prop where
  methods : operations.map Prod.fst = source.filterMap fun x => Method.ofName? x.1
  read : ∀ p ∈ operations, ∃ x, (p.1.name, x) ∈ source ∧ ReadFrom Operation.read x p.2

structure PathItem.FromSource (t : Tree) (item : PathItem) : Prop where
  whole : ReadFrom PathItem.read t item
  operations : OperationsOf t.entries item.operations
  once : item.DistinctMethods

structure Schema.FromSource (t : Tree) (s : Schema) : Prop where
  whole : ReadFrom Schema.read t s
  properties : Keeps (ReadFrom Schema.read) t.propertyEntries (s.properties.getD [])

structure Document.FromSource (t : Tree) (d : Document) : Prop where
  paths : Keeps PathItem.FromSource t.pathEntries d.paths
  schemas : Keeps Schema.FromSource t.schemaEntries d.schemas

section
variable {α : Type} {R : Tree → α → Prop} {known : List Field} {depth d : Nat} {t : Tree}
  {fs : Fields Empty}

/-- A map under a field that may be absent or null. -/
theorem keeps_optionalField (hfs : Returns (m := Except Fault) (record known depth (Node.ofJson t)) (d, fs))
    (hnames : (known.map Field.name).Nodup) {i : Nat} {name : String}
    (hi : (known.map Field.name)[i]? = some name)
    {read : Node Empty → Except Fault (List (String × α))}
    (hread : ∀ v pairs, Returns (read (Node.ofJson v)) pairs →
      List.Forall₂ (fun x p => x.1 = p.1 ∧ R x.2 p.2) v.entries pairs)
    {o : Option (List (String × α))} (h : Returns (optionalField fs name read) o) :
    Keeps R ((t.field? i name).elim [] Tree.entries) ((o.map ofPairs).getD []) := by
  unfold optionalField at h
  rw [record_lookup hfs hnames hi] at h
  cases hfield : t.field? i name with
  | none =>
      rw [hfield] at h
      rw [of_pure h]
      exact keeps_ofPairs .nil
  | some v =>
      rw [hfield] at h
      rcases optional_ofJson h with ⟨rfl, rfl⟩ | ⟨pairs, rfl, hpairs⟩
      · exact keeps_ofPairs .nil
      · exact keeps_ofPairs (hread v pairs hpairs)

end

theorem pairsOf_fromSource {α : Type} {R : Tree → α → Prop} {read : Nat → Node Empty → Except Fault α}
    (hR : ∀ depth v a, Returns (read depth (Node.ofJson v)) a → R v a) {depth : Nat} {t : Tree}
    {pairs : List (String × α)} (h : Returns (pairsOf read depth (Node.ofJson t)) pairs) :
    List.Forall₂ (fun x p => x.1 = p.1 ∧ R x.2 p.2) t.entries pairs := by
  obtain ⟨d, hpairs⟩ := pairsOf_ofJson h
  exact hpairs.imp fun x p hxp => ⟨hxp.1, hR d x.2 p.2 hxp.2⟩

theorem Schema.ofFields_properties {depth d d' : Nat} {t : Tree} {fs : Fields Empty} {s : Schema}
    {readItems : Node Empty → Except Fault Schema}
    {readProperties : Node Empty → Except Fault (List (String × Schema))}
    (hfs : Returns (m := Except Fault) (record Schema.fields depth (Node.ofJson t)) (d, fs))
    (hread : ∀ v pairs, Returns (readProperties (Node.ofJson v)) pairs →
      List.Forall₂ (fun x p => x.1 = p.1 ∧ ReadFrom Schema.read x.2 p.2) v.entries pairs)
    (h : Returns (Schema.ofFields d' readItems readProperties fs) s) :
    Keeps (ReadFrom Schema.read) t.propertyEntries (s.properties.getD []) := by
  obtain ⟨type, -, h⟩ := of_bind h
  obtain ⟨ref, -, h⟩ := of_bind h
  obtain ⟨properties, hproperties, h⟩ := of_bind h
  obtain ⟨items, -, h⟩ := of_bind h
  obtain ⟨nullable, -, h⟩ := of_bind h
  rw [of_pure h]
  exact keeps_optionalField hfs (by decide) (i := 2) rfl hread hproperties

theorem Schema.read_fromSource {depth : Nat} {t : Tree} {s : Schema}
    (h : Returns (m := Except Fault) (Schema.read depth (Node.ofJson t)) s) : Schema.FromSource t s := by
  refine ⟨⟨depth, h⟩, ?_⟩
  -- at depth 0 properties are refused, at depth 1 each of them is
  match depth with
  | 0 =>
      obtain ⟨⟨d, fs⟩, hfs, h⟩ := of_bind h
      exact Schema.ofFields_properties hfs (fun v pairs hv => absurd hv not_throw) h
  | 1 =>
      obtain ⟨⟨d, fs⟩, hfs, h⟩ := of_bind h
      refine Schema.ofFields_properties hfs (fun v pairs hv => ?_) h
      exact pairsOf_fromSource (fun _ _ _ hthrow => absurd hthrow not_throw) hv
  | n + 2 =>
      obtain ⟨⟨d, fs⟩, hfs, h⟩ := of_bind h
      refine Schema.ofFields_properties hfs (fun v pairs hv => ?_) h
      exact pairsOf_fromSource (fun _ _ _ hs => ⟨n, hs⟩) hv

namespace OperationsOf
variable {source : List (String × Tree)} {operations : List (Method × Operation)} {key : String} {t : Tree}

theorem method {method : Method} {operation : Operation} (hkey : Method.ofName? key = some method)
    (hread : ReadFrom Operation.read t operation) (h : OperationsOf source operations) :
    OperationsOf ((key, t) :: source) ((method, operation) :: operations) := by
  refine ⟨?_, ?_⟩
  · rw [List.map_cons, h.methods, List.filterMap_cons_some (a := (key, t)) hkey]
  · intro p hp
    rcases List.mem_cons.mp hp with rfl | hp
    · refine ⟨t, ?_, hread⟩
      rw [Method.name_of_ofName? hkey]
      exact List.mem_cons_self
    · obtain ⟨x, hx, hp⟩ := h.read p hp
      exact ⟨x, List.mem_cons_of_mem _ hx, hp⟩

theorem other (hkey : Method.ofName? key = none) (h : OperationsOf source operations) :
    OperationsOf ((key, t) :: source) operations := by
  refine ⟨?_, ?_⟩
  · rw [h.methods, List.filterMap_cons_none (a := (key, t)) hkey]
  · intro p hp
    obtain ⟨x, hx, hp⟩ := h.read p hp
    exact ⟨x, List.mem_cons_of_mem _ hx, hp⟩

end OperationsOf

theorem PathItem.readEntries_fromSource {depth : Nat} {members : List (Option String × Tree)}
    {item read : PathItem}
    (h : Returns (m := Except Fault) (PathItem.readEntries depth (ofJsonMembers members) item) read) :
    ∃ operations, read.operations = item.operations ++ operations ∧
      OperationsOf (Tree.object members).entries operations := by
  induction members generalizing item with
  | nil =>
      rw [of_pure h]
      exact ⟨[], (List.append_nil _).symm, rfl, fun p hp => by cases hp⟩
  | cons e members ih =>
      obtain ⟨key, t⟩ := e
      obtain ⟨k, hk, hrest⟩ := of_bind h
      cases text_ofText? hk
      have hentries : (Tree.object ((some k, t) :: members)).entries =
          (k, t) :: (Tree.object members).entries := rfl
      rw [hentries]
      split at hrest
      · next method hmethod =>
        split at hrest
        · exact absurd hrest not_throw
        · obtain ⟨operation, hoperation, hrest⟩ := of_bind hrest
          obtain ⟨operations, hall, hlater⟩ := ih hrest
          refine ⟨(method, operation) :: operations, ?_, hlater.method hmethod ⟨depth, hoperation⟩⟩
          rw [hall, List.append_assoc]
          rfl
      · next hother =>
        split at hrest
        · obtain ⟨parameters, -, hrest⟩ := of_bind hrest
          obtain ⟨operations, hall, hlater⟩ := ih hrest
          exact ⟨operations, hall, hlater.other hother⟩
        · obtain ⟨operations, hall, hlater⟩ := ih hrest
          exact ⟨operations, hall, hlater.other hother⟩

theorem PathItem.read_fromSource {depth : Nat} {t : Tree} {item : PathItem}
    (h : Returns (m := Except Fault) (PathItem.read depth (Node.ofJson t)) item) :
    PathItem.FromSource t item := by
  have hwhole : ReadFrom PathItem.read t item := ⟨depth, h⟩
  have honce := PathItem.read_distinct h
  obtain ⟨⟨d, es⟩, hes, h⟩ := of_bind h
  obtain ⟨members, rfl, rfl⟩ := entries_ofJson hes
  obtain ⟨operations, hall, hsource⟩ := PathItem.readEntries_fromSource h
  rw [List.nil_append] at hall
  rw [← hall] at hsource
  exact ⟨hwhole, hsource, honce⟩

theorem Components.read_fromSource {depth : Nat} {t : Tree} {c : Components}
    (h : Returns (m := Except Fault) (Components.read depth (Node.ofJson t)) c) :
    Keeps Schema.FromSource ((t.field? 0 "schemas").elim [] Tree.entries) (c.schemas.getD []) := by
  obtain ⟨⟨d, fs⟩, hfs, h⟩ := of_bind h
  obtain ⟨schemas, hschemas, h⟩ := of_bind h
  obtain ⟨parameters, -, h⟩ := of_bind h
  rw [of_pure h]
  exact keeps_optionalField hfs (by decide) (i := 0) rfl
    (fun v pairs hv => pairsOf_fromSource (fun _ _ _ => Schema.read_fromSource) hv) hschemas

theorem Document.read_fromSource {depth : Nat} {t : Tree} {doc : Document}
    (h : Returns (m := Except Fault) (Document.read depth (Node.ofJson t)) doc) : doc.FromSource t := by
  obtain ⟨⟨d, fs⟩, hfs, h⟩ := of_bind h
  obtain ⟨paths, hpaths, h⟩ := of_bind h
  obtain ⟨components, hcomponents, h⟩ := of_bind h
  rw [of_pure h]
  refine ⟨?_, ?_⟩
  · unfold defaultField at hpaths
    rw [record_lookup hfs (by decide) (i := 0) rfl] at hpaths
    unfold Tree.pathEntries
    cases hfield : t.field? 0 "paths" with
    | none =>
        rw [hfield] at hpaths
        rw [of_pure hpaths]
        exact keeps_ofPairs .nil
    | some v =>
        rw [hfield] at hpaths
        exact keeps_ofPairs (pairsOf_fromSource (fun _ _ _ => PathItem.read_fromSource) hpaths)
  · unfold optionalField at hcomponents
    rw [record_lookup hfs (by decide) (i := 1) rfl] at hcomponents
    unfold Tree.schemaEntries
    cases hfield : t.field? 1 "components" with
    | none =>
        rw [hfield] at hcomponents
        rw [of_pure hcomponents]
        exact keeps_ofPairs .nil
    | some v =>
        rw [hfield] at hcomponents
        rcases optional_ofJson hcomponents with ⟨rfl, rfl⟩ | ⟨c, rfl, hc⟩
        · exact keeps_ofPairs .nil
        · exact Components.read_fromSource hc

theorem Document.fromJson_fromSource {source : String} {doc : Document}
    (h : Document.fromJson source = .ok doc) :
    ∃ t, Tree.parse? source.toList = some t ∧ doc.FromSource t := by
  unfold Document.fromJson ofJson at h
  split at h
  · cases h
  · next t ht =>
    refine ⟨t, ht, ?_⟩
    rw [ofTree] at h
    cases e : Document.read (m := Except Fault) maxDepth (Node.ofJson t) with
    | error f =>
        rw [e] at h
        cases h
    | ok doc' =>
        rw [e] at h
        cases h
        exact Document.read_fromSource e

end TypedEndpoints.OpenApi
