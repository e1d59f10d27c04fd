import TypedEndpoints.OpenApi.Parsing
import TypedEndpoints.Proofs.OrderedMap
import TypedEndpoints.Proofs.Source.Outcomes
/-! Distinct keys of parsed documents: paths and properties because maps are built by insertion, methods
because a path item refuses to read one twice. -/
namespace TypedEndpoints.OpenApi
open Source Outcomes

def Schema.DistinctProperties (s : Schema) : Prop :=
  ∀ ps, s.properties = some ps → (OrderedMap.keys ps).Nodup

def PathItem.DistinctMethods (item : PathItem) : Prop := (item.operations.map Prod.fst).Nodup

/-- What parsing guarantees of the keys of a document. -/
structure Document.DistinctKeys (d : Document) : Prop where
  paths : (OrderedMap.keys d.paths).Nodup
  methods : ∀ p ∈ d.paths, p.2.DistinctMethods
  properties : ∀ p ∈ d.schemas, p.2.DistinctProperties

section
variable {ρ : Type} {m : Type → Type} [Monad m] [MonadExceptOf Fault m] [Links ρ m] [Outcomes m]

theorem Schema.ofFields_distinct {depth : Nat} {readItems : Node ρ → m Schema}
    {readProperties : Node ρ → m (List (String × Schema))} {fs : Fields ρ} {s : Schema}
    (h : Returns (Schema.ofFields depth readItems readProperties fs) s) : s.DistinctProperties := by
  obtain ⟨type, -, h⟩ := of_bind h
  obtain ⟨ref, -, h⟩ := of_bind h
  obtain ⟨properties, -, h⟩ := of_bind h
  obtain ⟨items, -, h⟩ := of_bind h
  obtain ⟨nullable, -, h⟩ := of_bind h
  cases of_pure h
  intro ps hps
  obtain ⟨pairs, -, rfl⟩ := Option.map_eq_some_iff.mp hps
  exact OrderedMap.nodup_keys_ofPairs pairs

theorem Schema.read_distinct {depth : Nat} {n : Node ρ} {s : Schema}
    (h : Returns (Schema.read (m := m) depth n) s) : s.DistinctProperties := by
  unfold Schema.read at h
  split at h
  all_goals
    obtain ⟨fs, -, h⟩ := of_bind h
    exact Schema.ofFields_distinct h

/-- An operation is added only under a method that is not there yet. -/
theorem PathItem.readEntries_distinct {depth : Nat} {es : List (Node ρ × Node ρ)}
    {item read : PathItem} (hitem : item.DistinctMethods)
    (h : Returns (PathItem.readEntries (m := m) depth es item) read) : read.DistinctMethods := by
  induction es generalizing item with
  | nil =>
      cases of_pure h
      exact hitem
  | cons e es ih =>
      obtain ⟨k, v⟩ := e
      obtain ⟨key, -, h⟩ := of_bind h
      split at h
      · next method _ =>
        split at h
        · exact absurd h not_throw
        · next fresh =>
          obtain ⟨operation, -, h⟩ := of_bind h
          refine ih ?_ h
          have hnew : method ∉ item.operations.map Prod.fst := by
            intro hm
            obtain ⟨q, hq, rfl⟩ := List.mem_map.mp hm
            exact fresh (List.any_eq_true.mpr ⟨q, hq, beq_self_eq_true q.1⟩)
          rw [PathItem.DistinctMethods, List.map_append]
          exact hitem.append (List.nodup_singleton method) (List.disjoint_singleton.mpr hnew)
      · split at h
        · obtain ⟨parameters, -, h⟩ := of_bind h
          have hshared : PathItem.DistinctMethods { item with parameters := some parameters } := hitem
          exact ih hshared h
        · exact ih hitem h

theorem PathItem.read_distinct {depth : Nat} {n : Node ρ} {item : PathItem}
    (h : Returns (PathItem.read (m := m) depth n) item) : item.DistinctMethods := by
  obtain ⟨es, -, h⟩ := of_bind h
  have hempty : PathItem.DistinctMethods {} := List.nodup_nil
  exact PathItem.readEntries_distinct hempty h

variable [LawfulMonad m]

theorem Components.read_distinct {depth : Nat} {n : Node ρ} {c : Components}
    (h : Returns (Components.read (m := m) depth n) c) :
    ∀ p ∈ c.schemas.getD [], p.2.DistinctProperties := by
  obtain ⟨⟨d, fs⟩, -, h⟩ := of_bind h
  obtain ⟨schemas, hs, h⟩ := of_bind h
  obtain ⟨parameters, -, h⟩ := of_bind h
  cases of_pure h
  intro p hp
  cases schemas with
  | none => cases hp
  | some pairs =>
      obtain ⟨n, hn⟩ := returns_optionalField hs
      obtain ⟨_, _, h⟩ := returns_pairsOf hn p (OrderedMap.mem_of_mem_ofPairs hp)
      exact Schema.read_distinct h

theorem Document.read_distinct {depth : Nat} {n : Node ρ} {d : Document}
    (h : Returns (Document.read (m := m) depth n) d) : d.DistinctKeys := by
  obtain ⟨⟨depth, fs⟩, -, h⟩ := of_bind h
  obtain ⟨paths, hpaths, h⟩ := of_bind h
  obtain ⟨components, hcomponents, h⟩ := of_bind h
  cases of_pure h
  refine ⟨OrderedMap.nodup_keys_ofPairs paths, ?_, ?_⟩
  · intro p hp
    have hp : p ∈ paths := OrderedMap.mem_of_mem_ofPairs hp
    rcases returns_defaultField hpaths with rfl | ⟨n, hn⟩
    · cases hp
    · obtain ⟨_, _, h⟩ := returns_pairsOf hn p hp
      exact PathItem.read_distinct h
  · intro p hp
    cases components with
    | none => cases hp
    | some c =>
        obtain ⟨n, hn⟩ := returns_optionalField hcomponents
        exact Components.read_distinct hn p hp

end

theorem ofJson_returns {α : Type} {read : Nat → Node Empty → Except Fault α} {cs : List Char} {a : α}
    (h : ofJson read cs = .ok a) : ∃ depth n, Returns (read depth n) a := by
  unfold ofJson at h
  split at h
  · cases h
  · next t _ =>
    rw [ofTree] at h
    cases e : read Json.maxDepth (Node.ofJson t) with
    | error f => rw [e] at h; cases h
    | ok b =>
        rw [e] at h
        cases h
        exact ⟨_, _, e⟩

theorem returns_of_run {α : Type} {r : LinkReader α} {table : LinkTable} {events : Nat} {a : α}
    (h : (r.run table events).mapError ParseError.shape = .ok a) : Returns r a := by
  change ((r table (100 * events) >>= fun p => pure p.1).mapError ParseError.shape) = .ok a at h
  cases e : r table (100 * events) with
  | error f => rw [e] at h; cases h
  | ok p =>
      rw [e] at h
      cases h
      exact ⟨table, 100 * events, p.2, e⟩

theorem ofYaml_returns {α : Type} {read : Nat → Node Nat → LinkReader α} {cs : List Char} {a : α}
    (h : ofYaml read cs = .ok a) : ∃ depth n, Returns (read depth n) a := by
  unfold ofYaml at h
  split at h
  · cases h
  · exact ⟨_, _, returns_of_run h⟩
  · split at h
    · cases h
    · exact ⟨_, _, returns_of_run h⟩

theorem Document.parse_distinct {s : String} {d : Document} (h : Document.parse s = .ok d) :
    d.DistinctKeys := by
  unfold Document.parse at h
  split at h
  · obtain ⟨_, _, h⟩ := ofJson_returns h
    exact Document.read_distinct h
  · obtain ⟨_, _, h⟩ := ofYaml_returns h
    exact Document.read_distinct h

/-- A result that shows something when it is computed is there. -/
theorem ok_of_view {ε α β : Type} (view : α → β) {x : Except ε α} {b : β}
    (h : x.toOption.map view = some b) : ∃ a, x = .ok a ∧ view a = b := by
  cases x with
  | error e => cases h
  | ok a =>
      cases h
      exact ⟨a, rfl, rfl⟩

end TypedEndpoints.OpenApi
