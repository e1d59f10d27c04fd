import Mathlib.Data.String.Basic
import TypedEndpoints.Json.Tree
import TypedEndpoints.Proofs.OrderedMap
/-! The members of an object: sorted by key, each key once. Such a list is decided by what its keys look up,
so the order in which members are put in leaves no trace. -/
namespace TypedEndpoints.Json.Value
open TypedEndpoints.OrderedMap (keys)

def Sorted (ms : OrderedMap Value) : Prop := (keys ms).Pairwise (· < ·)

theorem Sorted.nodup {ms : OrderedMap Value} (h : Sorted ms) : (keys ms).Nodup := by
  apply h.imp
  intro a b hab
  exact ne_of_lt hab

theorem mem_keys_insertMember {key k : String} {v : Value} {ms : OrderedMap Value}
    (h : k ∈ keys (insertMember key v ms)) : k = key ∨ k ∈ keys ms := by
  induction ms with
  | nil => exact .inl (List.mem_singleton.mp h)
  | cons p ms ih =>
      obtain ⟨k', v'⟩ := p
      unfold insertMember at h
      split at h
      · exact List.mem_cons.mp h
      · split at h
        · exact (List.mem_cons.mp h).imp_right (List.mem_cons_of_mem _)
        · rcases List.mem_cons.mp h with rfl | h
          · exact .inr List.mem_cons_self
          · exact (ih h).imp_right (List.mem_cons_of_mem _)

theorem Sorted.insertMember {ms : OrderedMap Value} (h : Sorted ms) (key : String) (v : Value) :
    Sorted (insertMember key v ms) := by
  induction ms with
  | nil => exact List.pairwise_singleton _ _
  | cons p ms ih =>
      obtain ⟨k, v'⟩ := p
      obtain ⟨hfirst, hrest⟩ := List.pairwise_cons.mp h
      unfold Value.insertMember
      split
      · next hbefore =>
        apply List.pairwise_cons.mpr
        refine ⟨?_, h⟩
        intro b hb
        rcases List.mem_cons.mp hb with rfl | hb
        · exact hbefore
        · exact lt_trans hbefore (hfirst b hb)
      · next hnot =>
        split
        · next heq =>
          subst heq
          exact h
        · next hne =>
          apply List.pairwise_cons.mpr
          refine ⟨?_, ih hrest⟩
          intro b hb
          rcases mem_keys_insertMember hb with rfl | hb
          · exact lt_of_le_of_ne (not_lt.mp hnot) hne
          · exact hfirst b hb

@[simp] theorem get?_insertMember (key other : String) (v : Value) (ms : OrderedMap Value) :
    OrderedMap.get? (insertMember key v ms) other = if key = other then some v else ms.get? other := by
  induction ms with
  | nil => rfl
  | cons p ms ih =>
      obtain ⟨k, v'⟩ := p
      unfold insertMember
      split
      · rfl
      · split
        · next heq =>
          subst heq
          simp only [OrderedMap.get?]
          split <;> rfl
        · next hne =>
          simp only [OrderedMap.get?, ih]
          by_cases hk : k = other
          · subst hk
            rw [if_pos rfl, if_neg (Ne.symm hne), if_pos rfl]
          · rw [if_neg hk, if_neg hk]

/-- Sorted members that look up the same are the same. -/
theorem Sorted.ext {ms ns : OrderedMap Value} (hm : Sorted ms) (hn : Sorted ns)
    (h : ∀ key, ms.get? key = ns.get? key) : ms = ns := by
  have hmem : ∀ p, p ∈ ms ↔ p ∈ ns := by
    intro p
    constructor
    · intro hp
      apply OrderedMap.mem_of_get?
      rw [← h]
      exact OrderedMap.get?_of_mem hm.nodup hp
    · intro hp
      apply OrderedMap.mem_of_get?
      rw [h]
      exact OrderedMap.get?_of_mem hn.nodup hp
  have hperm : ms.Perm ns :=
    (List.perm_ext_iff_of_nodup (List.Nodup.of_map _ hm.nodup) (List.Nodup.of_map _ hn.nodup)).mpr hmem
  have hasymm : ∀ p q : String × Value, p ∈ ms → q ∈ ns → p.1 < q.1 → q.1 < p.1 → p = q := by
    intro p q _ _ hpq hqp
    exact absurd hpq (lt_asymm hqp)
  exact hperm.eq_of_pairwise hasymm (List.pairwise_map.mp hm) (List.pairwise_map.mp hn)

/-- Members put in one after another, of distinct keys: each looks up what it was put in with. -/
theorem foldl_insertMember {ps : OrderedMap Value} (hps : (keys ps).Nodup) :
    ∀ {ms : OrderedMap Value}, Sorted ms →
      Sorted (ps.foldl (fun acc p => insertMember p.1 p.2 acc) ms) ∧
        ∀ key, OrderedMap.get? (ps.foldl (fun acc p => insertMember p.1 p.2 acc) ms) key =
          (ps.get? key).or (ms.get? key) := by
  induction ps with
  | nil =>
      intro ms hms
      exact ⟨hms, fun key => rfl⟩
  | cons p ps ih =>
      obtain ⟨k, v⟩ := p
      intro ms hms
      obtain ⟨hk, hps⟩ := List.nodup_cons.mp hps
      obtain ⟨hsorted, hget⟩ := ih hps (hms.insertMember k v)
      refine ⟨hsorted, ?_⟩
      intro key
      rw [List.foldl_cons, hget, get?_insertMember, OrderedMap.get?]
      by_cases hkey : k = key
      · subst hkey
        have hnone : OrderedMap.get? ps k = none := by
          rw [← Option.not_isSome_iff_eq_none]
          exact fun hsome => hk (OrderedMap.contains_iff.mp hsome)
        rw [hnone, if_pos rfl, if_pos rfl]
        rfl
      · rw [if_neg hkey, if_neg hkey]

/-- An object of members of distinct keys holds these members, in the order of their keys. -/
theorem ofMembers_spec {ps : OrderedMap Value} (hps : (keys ps).Nodup) :
    ∃ ms : OrderedMap Value, ofMembers ps = .object ms ∧ Sorted ms ∧ (keys ms).Perm (keys ps) ∧
      ∀ key, ms.get? key = ps.get? key := by
  have hnil : Sorted [] := .nil
  obtain ⟨hsorted, hget⟩ := foldl_insertMember hps hnil
  have hget : ∀ key, OrderedMap.get? (ps.foldl (fun acc p => insertMember p.1 p.2 acc) []) key =
      ps.get? key := by
    intro key
    rw [hget]
    exact Option.or_none
  refine ⟨_, rfl, hsorted, ?_, hget⟩
  apply (List.perm_ext_iff_of_nodup hsorted.nodup hps).mpr
  intro key
  rw [← OrderedMap.contains_iff, ← OrderedMap.contains_iff, OrderedMap.contains, OrderedMap.contains, hget]

theorem ofMembers_congr {ps qs : OrderedMap Value} (hps : (keys ps).Nodup) (hqs : (keys qs).Nodup)
    (h : ∀ key, ps.get? key = qs.get? key) : ofMembers ps = ofMembers qs := by
  obtain ⟨ms, hms, hsorted, _, hget⟩ := ofMembers_spec hps
  obtain ⟨ns, hns, hsorted', _, hget'⟩ := ofMembers_spec hqs
  have hsame : ms = ns := by
    apply hsorted.ext hsorted'
    intro key
    rw [hget, hget', h]
  rw [hms, hns, hsame]

end TypedEndpoints.Json.Value
