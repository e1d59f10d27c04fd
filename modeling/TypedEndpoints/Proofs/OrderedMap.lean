import TypedEndpoints.OrderedMap
import Mathlib.Data.List.Forall2
import Mathlib.Data.List.Induction
import Mathlib.Data.List.Nodup
/-! Ordered maps as finite functions: look-up against membership, for maps whose keys are distinct; and what
a map keeps of the pairs it was built from. -/
namespace TypedEndpoints.OrderedMap
variable {β : Type}

theorem mem_of_get? {m : OrderedMap β} {key : String} {value : β} (h : m.get? key = some value) :
    (key, value) ∈ m := by
  induction m with
  | nil => cases h
  | cons p m ih =>
      obtain ⟨k, v⟩ := p
      by_cases hk : k = key
      · subst hk
        simp only [get?, if_true, Option.some.injEq] at h
        subst h
        exact List.mem_cons_self
      · simp only [get?, hk, if_false] at h
        exact List.mem_cons_of_mem _ (ih h)

@[simp] theorem contains_iff {m : OrderedMap β} {key : String} : m.contains key = true ↔ key ∈ keys m := by
  induction m with
  | nil => simp [contains, get?, keys]
  | cons p m ih =>
      obtain ⟨k, v⟩ := p
      simp only [contains, keys, List.map_cons, List.mem_cons] at ih ⊢
      by_cases hk : k = key
      · simp [get?, hk]
      · have hk' : ¬ key = k := fun e => hk e.symm
        simp only [get?, hk, hk', if_false, false_or]
        exact ih

theorem exists_mem_of_contains {m : OrderedMap β} {key : String} (h : m.contains key = true) :
    ∃ value, (key, value) ∈ m := by
  obtain ⟨value, hv⟩ := Option.isSome_iff_exists.mp h
  exact ⟨value, mem_of_get? hv⟩

/-- With distinct keys every pair is what its key looks up. -/
theorem get?_of_mem {m : OrderedMap β} (hm : (keys m).Nodup) {key : String} {value : β}
    (h : (key, value) ∈ m) : m.get? key = some value := by
  induction m with
  | nil => cases h
  | cons p m ih =>
      obtain ⟨k, v⟩ := p
      obtain ⟨hk, hm⟩ := List.nodup_cons.mp hm
      rcases List.mem_cons.mp h with he | h
      · cases he
        simp [get?]
      · have hne : k ≠ key := by
          rintro rfl
          exact hk (List.mem_map.mpr ⟨_, h, rfl⟩)
        simpa only [get?, hne, if_false] using ih hm h

/-- Look-up does not see the order of the pairs. -/
theorem get?_perm {m n : OrderedMap β} (hm : (keys m).Nodup) (h : m.Perm n) (key : String) :
    m.get? key = n.get? key := by
  have hn : (keys n).Nodup := (h.map Prod.fst).nodup hm
  cases e : n.get? key with
  | some value => exact get?_of_mem hm (h.mem_iff.mpr (mem_of_get? e))
  | none =>
      cases e' : m.get? key with
      | none => rfl
      | some value => rw [get?_of_mem hn (h.mem_iff.mp (mem_of_get? e'))] at e; cases e

@[simp] theorem get?_map {γ : Type} (f : β → γ) (m : OrderedMap β) (key : String) :
    get? (m.map fun p => (p.1, f p.2)) key = (get? m key).map f := by
  induction m with
  | nil => rfl
  | cons p m ih =>
      rw [List.map_cons, get?, get?, ih]
      split <;> rfl

/-- Entries of other names are not seen. -/
theorem get?_filter (keep : String → Bool) {key : String} (h : keep key = true) (m : OrderedMap β) :
    get? (m.filter fun p => keep p.1) key = get? m key := by
  induction m with
  | nil => rfl
  | cons p m ih =>
      rw [List.filter_cons, get?]
      by_cases hk : p.1 = key
      · rw [if_pos (hk ▸ h), get?, if_pos hk, if_pos hk]
      · rw [if_neg hk]
        split
        · rw [get?, if_neg hk, ih]
        · exact ih

theorem nodup_keys_insert {m : OrderedMap β} (hm : (keys m).Nodup) (key : String) (value : β) :
    (keys (insert key value m)).Nodup := by
  rw [keys_insert]
  split
  · exact hm
  · next h => exact hm.append (List.nodup_singleton key) (List.disjoint_singleton.mpr h)

theorem mem_insert {m : OrderedMap β} {key : String} {value : β} {p : String × β}
    (h : p ∈ insert key value m) : p = (key, value) ∨ p ∈ m := by
  induction m with
  | nil => exact .inl (List.mem_singleton.mp h)
  | cons q m ih =>
      obtain ⟨k, v⟩ := q
      by_cases hk : k = key
      · simp only [insert, hk, if_true, List.mem_cons] at h
        exact h.imp_right (List.mem_cons_of_mem _)
      · simp only [insert, hk, if_false, List.mem_cons] at h
        rcases h with h | h
        · exact .inr (h ▸ List.mem_cons_self)
        · exact (ih h).imp_right (List.mem_cons_of_mem _)

/-- Insertion one by one: the keys end up distinct, and every pair was inserted or was there. -/
theorem foldl_insert (pairs : List (String × β)) {m : OrderedMap β} (hm : (keys m).Nodup) :
    (keys (pairs.foldl (fun m p => insert p.1 p.2 m) m)).Nodup ∧
      ∀ p ∈ pairs.foldl (fun m p => insert p.1 p.2 m) m, p ∈ pairs ∨ p ∈ m := by
  induction pairs generalizing m with
  | nil => exact ⟨hm, fun p hp => .inr hp⟩
  | cons q pairs ih =>
      obtain ⟨hnodup, hmem⟩ := ih (nodup_keys_insert hm q.1 q.2)
      refine ⟨hnodup, ?_⟩
      intro p hp
      rcases hmem p hp with h | h
      · exact .inl (List.mem_cons_of_mem _ h)
      · rcases mem_insert h with rfl | h
        · exact .inl List.mem_cons_self
        · exact .inr h

@[simp] theorem nodup_keys_nil : (keys ([] : OrderedMap β)).Nodup := List.nodup_nil

@[simp] theorem nodup_keys_ofPairs (pairs : List (String × β)) : (keys (ofPairs pairs)).Nodup :=
  (foldl_insert pairs nodup_keys_nil).1

theorem mem_of_mem_ofPairs {pairs : List (String × β)} {p : String × β} (h : p ∈ ofPairs pairs) :
    p ∈ pairs :=
  ((foldl_insert pairs nodup_keys_nil).2 p h).resolve_right List.not_mem_nil

theorem mem_insert_iff {m : OrderedMap β} (hm : (keys m).Nodup) {key k : String} {value v : β}
    (h : (k, v) ∈ insert key value m) : (k = key ∧ v = value) ∨ (k ≠ key ∧ (k, v) ∈ m) := by
  have hget := get?_of_mem (nodup_keys_insert hm key value) h
  rw [get?_insert] at hget
  by_cases hk : key = k
  · rw [if_pos hk] at hget
    cases hget
    exact .inl ⟨hk.symm, rfl⟩
  · rw [if_neg hk] at hget
    exact .inr ⟨fun e => hk e.symm, mem_of_get? hget⟩

/-- A map keeps of a list of pairs each key once, keys in the order in which they first occur in the list,
with what the last value of a key is read as. -/
structure Keeps {α : Type} (R : α → β → Prop) (source : List (String × α)) (m : OrderedMap β) : Prop where
  mem : ∀ k, k ∈ keys m ↔ k ∈ source.map Prod.fst
  once : (keys m).Nodup
  order : (keys m).Pairwise fun a b =>
    (source.map Prod.fst).idxOf a < (source.map Prod.fst).idxOf b
  last : ∀ k v, (k, v) ∈ m → ∃ before x after,
    source = before ++ (k, x) :: after ∧ k ∉ after.map Prod.fst ∧ R x v

@[simp] theorem ofPairs_snoc (pairs : List (String × β)) (p : String × β) :
    ofPairs (pairs ++ [p]) = insert p.1 p.2 (ofPairs pairs) := by
  rw [ofPairs, List.foldl_append]
  rfl

/-- Induction on the last pair: a key that is there keeps its place, and a new one goes last. -/
theorem keeps_ofPairs_self (pairs : List (String × β)) : Keeps (· = ·) pairs (ofPairs pairs) := by
  induction pairs using List.reverseRecOn with
  | nil => exact ⟨fun k => Iff.rfl, .nil, .nil, fun k v h => by cases h⟩
  | append_singleton pairs p ih =>
      obtain ⟨key, value⟩ := p
      have hkeys : keys (ofPairs (pairs ++ [(key, value)])) =
          if key ∈ keys (ofPairs pairs) then keys (ofPairs pairs) else keys (ofPairs pairs) ++ [key] := by
        rw [ofPairs_snoc, keys_insert]
      have hsource : (pairs ++ [(key, value)]).map Prod.fst = pairs.map Prod.fst ++ [key] :=
        List.map_append
      have hbefore : ∀ {k}, k ∈ keys (ofPairs pairs) →
          (pairs.map Prod.fst ++ [key]).idxOf k = (pairs.map Prod.fst).idxOf k :=
        fun hk => List.idxOf_append_of_mem ((ih.mem _).mp hk)
      have horder : (keys (ofPairs pairs)).Pairwise fun a b =>
          (pairs.map Prod.fst ++ [key]).idxOf a < (pairs.map Prod.fst ++ [key]).idxOf b := by
        refine ih.order.imp_of_mem fun ha hb hab => ?_
        rw [hbefore ha, hbefore hb]
        exact hab
      refine ⟨?_, nodup_keys_ofPairs _, ?_, ?_⟩
      · intro k
        rw [hkeys, hsource, List.mem_append, ← ih.mem]
        split
        · next hold =>
          refine ⟨.inl, fun h => h.elim id fun hk => ?_⟩
          rw [List.mem_singleton.mp hk]
          exact hold
        · exact List.mem_append
      · rw [hkeys, hsource]
        split
        · exact horder
        · next hnew =>
          refine List.pairwise_append.mpr ⟨horder, List.pairwise_singleton _ _, ?_⟩
          intro a ha b hb
          have hfresh : key ∉ pairs.map Prod.fst := fun h => hnew ((ih.mem key).mpr h)
          rw [List.mem_singleton.mp hb, hbefore ha, List.idxOf_append_of_notMem hfresh,
            List.idxOf_cons_self]
          exact Nat.lt_add_right 0 (List.idxOf_lt_length_iff.mpr ((ih.mem a).mp ha))
      · intro k v h
        rw [ofPairs_snoc] at h
        rcases mem_insert_iff ih.once h with ⟨rfl, rfl⟩ | ⟨hk, h⟩
        · exact ⟨pairs, v, [], rfl, List.not_mem_nil, rfl⟩
        · obtain ⟨before, x, after, rfl, hafter, hx⟩ := ih.last k v h
          refine ⟨before, x, after ++ [(key, value)], List.append_assoc _ _ _, ?_, hx⟩
          rw [List.map_append, List.mem_append, not_or]
          exact ⟨hafter, fun h => hk (List.mem_singleton.mp h)⟩

def lastValue (pairs : List (String × β)) (key : String) : Option β := pairs.reverse.lookup key

@[simp] theorem lastValue_snoc (pairs : List (String × β)) (p : String × β) (key : String) :
    lastValue (pairs ++ [p]) key = if p.1 = key then some p.2 else lastValue pairs key := by
  rw [lastValue, List.reverse_append, List.reverse_singleton, List.singleton_append, List.lookup_cons]
  by_cases h : p.1 = key
  · simp [h]
  · rw [if_neg h, beq_false_of_ne (Ne.symm h), lastValue]

section
variable {α : Type} {R : α → β → Prop} {source : List (String × α)} {pairs : List (String × β)}

theorem map_fst_of_forall₂ (h : List.Forall₂ (fun x p => x.1 = p.1 ∧ R x.2 p.2) source pairs) :
    source.map Prod.fst = pairs.map Prod.fst := by
  induction h with
  | nil => rfl
  | cons hxp _ ih => rw [List.map_cons, List.map_cons, hxp.1, ih]

/-- A map that is built from what the values of a list are read as keeps the list. -/
theorem keeps_ofPairs (h : List.Forall₂ (fun x p => x.1 = p.1 ∧ R x.2 p.2) source pairs) :
    Keeps R source (ofPairs pairs) := by
  obtain ⟨hmem, honce, horder, hlast⟩ := keeps_ofPairs_self pairs
  rw [← map_fst_of_forall₂ h] at horder
  refine ⟨fun k => by rw [hmem, map_fst_of_forall₂ h], honce, horder, ?_⟩
  intro k v hkv
  obtain ⟨before, x, after, rfl, hafter, rfl⟩ := hlast k v hkv
  obtain ⟨y, rest, ⟨hk, hx⟩, hrest, hdrop⟩ :=
    List.forall₂_cons_right_iff.mp (List.forall₂_drop_append source before _ h)
  change y.1 = k at hk
  subst hk
  have hsplit := List.take_append_drop before.length source
  rw [hdrop] at hsplit
  refine ⟨source.take before.length, y.2, rest, hsplit.symm, ?_, hx⟩
  rw [map_fst_of_forall₂ hrest]
  exact hafter

end

end TypedEndpoints.OrderedMap
