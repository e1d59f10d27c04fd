import TypedEndpoints.Proofs.Source.Records
import TypedEndpoints.Source.Json
/-! What readers take from a JSON text. An object is a list of entries in which keys may repeat; a record is
read off its entries by name, or off a list by place. -/
namespace TypedEndpoints.Json.Tree

def entries : Tree → List (String × Tree)
  | .object members => members.filterMap fun p => p.1.map fun key => (key, p.2)
  | _ => []

/-- A field of a record, which may be written as the list of its fields. -/
def field? (index : Nat) (name : String) : Tree → Option Tree
  | .list items => items[index]?
  | t => t.entries.lookup name

end TypedEndpoints.Json.Tree

namespace TypedEndpoints.Source
open Json Node Outcomes

theorem ofJsonItems_eq (ts : List Tree) : ofJsonItems ts = ts.map ofJson := by
  induction ts with
  | nil => rfl
  | cons t ts ih => rw [ofJsonItems, ih, List.map_cons]

theorem text_ofText? {key : Option String} {k : String}
    (h : Returns (m := Except Fault) (text (.scalar (Scalar.ofText? key) : Node Empty)) k) :
    key = some k := by
  cases key with
  | none => cases h
  | some s =>
      cases h
      rfl

theorem named_ofJson {members : List (Option String × Tree)} {named : List (String × Node Empty)}
    (h : Named (ofJsonMembers members) named) :
    named = (Tree.object members).entries.map fun x => (x.1, ofJson x.2) := by
  -- a key that is no text makes the reading fail, so no member is lost from the entries
  induction members generalizing named with
  | nil =>
      cases h
      rfl
  | cons p members ih =>
      obtain ⟨key, t⟩ := p
      cases h with
      | @cons _ x _ named hx hnamed =>
          obtain ⟨k, n⟩ := x
          obtain ⟨hkey, rfl⟩ := hx
          obtain rfl : key = some k := text_ofText? hkey
          rw [ih hnamed]
          rfl

/-- A known field of a record is the one of this name in an object, the one at its place in a list. -/
theorem record_lookup {known : List Field} {depth d : Nat} {t : Tree} {fs : Fields Empty}
    (h : Returns (m := Except Fault) (record known depth (ofJson t)) (d, fs))
    (hnames : (known.map Field.name).Nodup) {i : Nat} {name : String}
    (hi : (known.map Field.name)[i]? = some name) :
    fs.lookup name = (t.field? i name).map ofJson := by
  cases t with
  | null => cases h
  | bool b => cases h
  | number n => cases h
  | text s => cases s <;> cases h
  | list ts =>
      rw [positionalFields_lookup (record_list h) hnames hi, ofJsonItems_eq, List.getElem?_map]
      rfl
  | object members =>
      obtain ⟨named, hnamed, hlookup⟩ := knownFields_lookup (record_map h) hi
      rw [hlookup, named_ofJson hnamed]
      exact lookup_map ofJson name _

theorem optional_ofJson {α : Type} {read : Node Empty → Except Fault α} {t : Tree} {o : Option α}
    (h : Returns (optional read (ofJson t)) o) :
    (t = .null ∧ o = none) ∨ ∃ a, o = some a ∧ Returns (read (ofJson t)) a := by
  obtain ⟨n, hn, h⟩ := of_bind h
  have hsome : ∀ n, Returns (some <$> read n) o → ∃ a, o = some a ∧ Returns (read n) a := by
    intro n h
    obtain ⟨a, ha, rfl⟩ := returns_map h
    exact ⟨a, rfl, ha⟩
  cases t with
  | null =>
      cases of_pure hn
      exact .inl ⟨rfl, of_pure h⟩
  | text s =>
      cases of_pure hn
      cases s <;> exact .inr (hsome _ h)
  | _ =>
      cases of_pure hn
      exact .inr (hsome _ h)

section
variable {α : Type}

theorem mapM_ofJsonMembers {read : Node Empty → Except Fault α} {members : List (Option String × Tree)}
    {pairs : List (String × α)}
    (h : Returns (m := Except Fault) ((ofJsonMembers members).mapM fun e => do
      let key ← text e.1
      let value ← read e.2
      pure (key, value)) pairs) :
    List.Forall₂ (fun x p => x.1 = p.1 ∧ Returns (read (ofJson x.2)) p.2)
      (Tree.object members).entries pairs := by
  obtain ⟨named, hnamed, hpairs⟩ := mapM_named h
  rw [named_ofJson hnamed, List.forall₂_map_left_iff] at hpairs
  exact hpairs

theorem entries_ofJson {depth d : Nat} {t : Tree} {es : List (Node Empty × Node Empty)}
    (h : Returns (m := Except Fault) (entries depth (ofJson t)) (d, es)) :
    ∃ members, t = .object members ∧ es = ofJsonMembers members := by
  obtain ⟨n, hn, h⟩ := of_bind h
  cases t with
  | object members =>
      cases of_pure hn
      obtain ⟨d', -, h⟩ := of_bind h
      cases of_pure h
      exact ⟨members, rfl, rfl⟩
  | text s =>
      cases of_pure hn
      cases s <;> cases h
  | _ =>
      cases of_pure hn
      cases h

theorem pairsOf_ofJson {read : Nat → Node Empty → Except Fault α} {depth : Nat} {t : Tree}
    {pairs : List (String × α)} (h : Returns (pairsOf read depth (ofJson t)) pairs) :
    ∃ d, List.Forall₂ (fun x p => x.1 = p.1 ∧ Returns (read d (ofJson x.2)) p.2) t.entries pairs := by
  obtain ⟨⟨d, es⟩, hes, h⟩ := of_bind h
  obtain ⟨members, rfl, rfl⟩ := entries_ofJson hes
  exact ⟨d, mapM_ofJsonMembers h⟩

end

end TypedEndpoints.Source
