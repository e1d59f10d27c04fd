import TypedEndpoints.Proofs.Source.Outcomes
import TypedEndpoints.Proofs.Yaml.LeadingList
/-! Nodes that no record is read from, whatever its fields are: the entries of a record are under names, and a
collection is no name. -/
namespace TypedEndpoints.Source
open Outcomes

section
variable {ρ : Type}

inductive Node.NoName : Node ρ → Prop
  | list (role ns) : NoName (.list role ns)
  | map (es) : NoName (.map es)

inductive Node.NoRecord : Node ρ → Prop
  | scalar {s} : s.hollow = false → NoRecord (.scalar s)
  | list {role} (ns) : role.record = false → NoRecord (.list role ns)
  | map {es e} : e ∈ es → NoName e.1 → NoRecord (.map es)

variable {m : Type → Type} [Monad m] [MonadExceptOf Fault m] [Outcomes m] [Links ρ m]
  {n : Node ρ} {known : List Field} {acc fs : Fields ρ}

theorem not_text_noName (hn : n.NoName) (s : String) : ¬ Returns (text (m := m) n) s := by
  intro h
  obtain ⟨r, hr, h⟩ := of_bind h
  cases hn with
  | list role ns =>
      cases of_pure hr
      exact not_throw h
  | map es =>
      cases of_pure hr
      exact not_throw h

/-- Every key is looked at, known or not. -/
theorem knownFields_key {es : List (Node ρ × Node ρ)} {e : Node ρ × Node ρ} (he : e ∈ es)
    (h : Returns (knownFields (m := m) known es acc) fs) : ∃ s, Returns (text (m := m) e.1) s := by
  induction es generalizing acc with
  | nil => cases he
  | cons e' es ih =>
      obtain ⟨key, hkey, h⟩ := of_bind h
      rcases List.mem_cons.mp he with rfl | he
      · exact ⟨key, hkey⟩
      · split at h
        · split at h
          · exact absurd h not_throw
          · exact ih he h
        · exact ih he h

theorem not_record_noRecord (hn : n.NoRecord) (depth : Nat) (p : Nat × Fields ρ) :
    ¬ Returns (record (m := m) known depth n) p := by
  intro h
  obtain ⟨r, hr, h⟩ := of_bind h
  cases hn with
  | scalar hhollow =>
      cases of_pure hr
      dsimp only at h
      rw [hhollow] at h
      exact not_throw h
  | list ns hrole =>
      cases of_pure hr
      dsimp only at h
      rw [hrole] at h
      exact not_throw h
  | map he hkey =>
      cases of_pure hr
      obtain ⟨d, -, h⟩ := of_bind h
      obtain ⟨fs, hfs, -⟩ := of_bind h
      obtain ⟨s, hs⟩ := knownFields_key he hfs
      exact not_text_noName hkey s hs

end

/-! ### Nodes of YAML texts -/

section
variable {as : Anchors}

/-- An anchor does not change the node that it is for. -/
theorem withAnchor_node {anchor : Option String} {inner : Anchors → Except Yaml.Fault (Linked (Node Nat))}
    {l : Linked (Node Nat)} (h : withAnchor anchor as inner = .ok l) :
    ∃ as' l', inner as' = .ok l' ∧ l.node = l'.node := by
  cases anchor with
  | none => exact ⟨as, l, h, rfl⟩
  | some name =>
      obtain ⟨l', hl', h⟩ := Yaml.ok_of_bind h
      cases h
      exact ⟨_, l', hl', rfl⟩

theorem ofYaml_sequence {p : Yaml.Props} {xs : List Yaml.Node} {l : Linked (Node Nat)}
    (h : ofYaml as (.sequence p xs) = .ok l) : ∃ role ns, l.node = .list role ns ∧ role.record = false := by
  rw [ofYaml] at h
  obtain ⟨_, _, h, hnode⟩ := withAnchor_node h
  obtain ⟨items, _, h⟩ := Yaml.ok_of_bind h
  cases h
  exact ⟨_, items.node, hnode, rfl⟩

theorem ofYaml_mapping {p : Yaml.Props} {es : List (Yaml.Node × Yaml.Node)} {l : Linked (Node Nat)}
    (h : ofYaml as (.mapping p es) = .ok l) :
    ∃ as' entries, ofYamlEntries as' es = .ok entries ∧ l.node = .map entries.node := by
  rw [ofYaml] at h
  obtain ⟨as', _, h, hnode⟩ := withAnchor_node h
  obtain ⟨entries, hentries, h⟩ := Yaml.ok_of_bind h
  cases h
  exact ⟨as', entries, hentries, hnode⟩

theorem ofYaml_noName {n : Yaml.Node} (hn : n.IsCollection) {l : Linked (Node Nat)} (h : ofYaml as n = .ok l) :
    l.node.NoName := by
  cases hn with
  | sequence p xs =>
      obtain ⟨role, ns, hnode, _⟩ := ofYaml_sequence h
      rw [hnode]
      exact .list role ns
  | mapping p es =>
      obtain ⟨_, entries, _, hnode⟩ := ofYaml_mapping h
      rw [hnode]
      exact .map entries.node

theorem ofYamlEntries_key {es : List (Yaml.Node × Yaml.Node)} {e : Yaml.Node × Yaml.Node} (he : e ∈ es)
    {l : Linked (List (Node Nat × Node Nat))} (h : ofYamlEntries as es = .ok l) :
    ∃ as' key, ofYaml as' e.1 = .ok key ∧ ∃ e' ∈ l.node, e'.1 = key.node := by
  induction es generalizing as l with
  | nil => cases he
  | cons e' es ih =>
      rw [ofYamlEntries] at h
      obtain ⟨key, hkey, h⟩ := Yaml.ok_of_bind h
      obtain ⟨value, _, h⟩ := Yaml.ok_of_bind h
      obtain ⟨rest, hrest, h⟩ := Yaml.ok_of_bind h
      cases h
      rcases List.mem_cons.mp he with rfl | he
      · exact ⟨as, key, hkey, _, List.mem_cons_self, rfl⟩
      · obtain ⟨as', key', hkey', e', he', hnode⟩ := ih he hrest
        exact ⟨as', key', hkey', e', List.mem_cons_of_mem _ he', hnode⟩

theorem ofYaml_noRecord {n : Yaml.Node} (hn : n.NoRecord) {l : Linked (Node Nat)} (h : ofYaml as n = .ok l) :
    l.node.NoRecord := by
  cases hn with
  | sequence p xs =>
      obtain ⟨role, ns, hnode, hrole⟩ := ofYaml_sequence h
      rw [hnode]
      exact .list ns hrole
  | mapping he hcollection =>
      obtain ⟨as', entries, hentries, hnode⟩ := ofYaml_mapping h
      obtain ⟨_, key, hkey, e', he', heq⟩ := ofYamlEntries_key he hentries
      rw [hnode]
      refine .map he' ?_
      rw [heq]
      exact ofYaml_noName hcollection hkey

end
end TypedEndpoints.Source
