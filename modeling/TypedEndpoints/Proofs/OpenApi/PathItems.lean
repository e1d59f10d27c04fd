import TypedEndpoints.Proofs.OpenApi.Alike
import TypedEndpoints.Proofs.OpenApi.DistinctKeys
import TypedEndpoints.Proofs.Source.JsonRecords
/-! Path items against the objects they are read from. The loop keeps what the pairs so far are read as, and
stops at the first pair that no path item can have. -/
namespace TypedEndpoints.Json

def Tree.ofPairs (pairs : List (String × Tree)) : Tree := .object (pairs.map fun p => (some p.1, p.2))

end TypedEndpoints.Json

namespace TypedEndpoints.OpenApi
open Json Source Node OrderedMap

def methodKeys : List String := ["get", "post", "put", "patch", "delete"]

/-- The keys that a path item reads; a method in other letters is none of them. -/
def pathItemKeys : List String := "parameters" :: methodKeys

theorem mem_methodKeys {key : String} : key ∈ methodKeys ↔ ∃ m, Method.ofName? key = some m := by
  constructor
  · intro h
    simp only [methodKeys, List.mem_cons, List.not_mem_nil, or_false] at h
    rcases h with rfl | rfl | rfl | rfl | rfl <;> exact ⟨_, rfl⟩
  · rintro ⟨m, hm⟩
    rw [← Method.name_of_ofName? hm]
    cases m <;> decide

def OperationAt (depth : Nat) (t : Tree) (o : Operation) : Prop :=
  Operation.read (m := Except Fault) depth (Node.ofJson t) = .ok o

def ParametersAt (depth : Nat) (t : Tree) (ps : List Parameter) : Prop :=
  listOf (m := Except Fault) Parameter.read depth (Node.ofJson t) = .ok ps

theorem exists_related {α β : Type} {R : α → β → Prop} {xs : List α} {ys : List β}
    (h : List.Forall₂ R xs ys) {x : α} (hx : x ∈ xs) : ∃ y ∈ ys, R x y := by
  induction h with
  | nil => cases hx
  | cons hxy _ ih =>
      rcases List.mem_cons.mp hx with rfl | hx
      · exact ⟨_, List.mem_cons_self, hxy⟩
      · obtain ⟨y, hy, hxy⟩ := ih hx
        exact ⟨y, List.mem_cons_of_mem _ hy, hxy⟩

namespace PathItem

/-- Pairs that no path item has. -/
inductive Unreadable (depth : Nat) (pairs : List (String × Tree)) : Prop
  | twice {key} : key ∈ methodKeys → 1 < (pairs.map Prod.fst).count key → Unreadable depth pairs
  | operation {key t} : key ∈ methodKeys → (key, t) ∈ pairs → (∀ o, ¬ OperationAt depth t o) →
      Unreadable depth pairs
  | parameters {t} : ("parameters", t) ∈ pairs → (∀ ps, ¬ ParametersAt depth t ps) →
      Unreadable depth pairs

/-- What pairs are read as: an operation for each method, in source order, and the last parameters. -/
structure ReadAs (depth : Nat) (pairs : List (String × Tree)) (item : PathItem) : Prop where
  operations : List.Forall₂ (fun x p => x.1 = p.1.name ∧ OperationAt depth x.2 p.2)
    (pairs.filter (·.1 ∈ methodKeys)) item.operations
  parameters : Option.Rel (ParametersAt depth) (lastValue pairs "parameters") item.parameters
  readable : ∀ t, ("parameters", t) ∈ pairs → ∃ ps, ParametersAt depth t ps

variable {depth : Nat} {pairs : List (String × Tree)} {item : PathItem}

namespace ReadAs

theorem empty (depth : Nat) : ReadAs depth [] {} := ⟨.nil, .none, fun _ h => by cases h⟩

theorem method {key : String} {m : Method} {t : Tree} {o : Operation} (h : item.ReadAs depth pairs)
    (hkey : Method.ofName? key = some m) (ho : OperationAt depth t o) :
    ReadAs depth (pairs ++ [(key, t)]) { item with operations := item.operations ++ [(m, o)] } := by
  have hname := Method.name_of_ofName? hkey
  have hmethod : key ∈ methodKeys := mem_methodKeys.mpr ⟨m, hkey⟩
  have hother : key ≠ "parameters" := by
    rintro rfl
    cases hkey
  refine ⟨?_, ?_, ?_⟩
  · rw [List.filter_append, List.filter_cons, if_pos (decide_eq_true hmethod)]
    exact List.rel_append h.operations (.cons ⟨hname.symm, ho⟩ .nil)
  · rw [lastValue_snoc, if_neg hother]
    exact h.parameters
  · intro t' ht'
    rcases List.mem_append.mp ht' with ht' | ht'
    · exact h.readable t' ht'
    · cases List.mem_singleton.mp ht'
      exact absurd rfl hother

theorem shared {t : Tree} {ps : List Parameter} (h : item.ReadAs depth pairs)
    (hps : ParametersAt depth t ps) :
    ReadAs depth (pairs ++ [("parameters", t)]) { item with parameters := some ps } := by
  have hother : ¬ decide ("parameters" ∈ methodKeys) = true := by decide
  refine ⟨?_, ?_, ?_⟩
  · rw [List.filter_append, List.filter_cons, if_neg hother, List.filter_nil, List.append_nil]
    exact h.operations
  · rw [lastValue_snoc, if_pos rfl]
    exact .some hps
  · intro t' ht'
    rcases List.mem_append.mp ht' with ht' | ht'
    · exact h.readable t' ht'
    · cases List.mem_singleton.mp ht'
      exact ⟨ps, hps⟩

theorem other {x : String × Tree} (h : item.ReadAs depth pairs) (hx : x.1 ∉ pathItemKeys) :
    ReadAs depth (pairs ++ [x]) item := by
  obtain ⟨hne, hmethod⟩ := List.ne_and_not_mem_of_not_mem_cons hx
  refine ⟨?_, ?_, ?_⟩
  · rw [List.filter_append, List.filter_cons, if_neg fun h => hmethod (of_decide_eq_true h), List.filter_nil,
      List.append_nil]
    exact h.operations
  · rw [lastValue_snoc, if_neg hne]
    exact h.parameters
  · intro t ht
    rcases List.mem_append.mp ht with ht | ht
    · exact h.readable t ht
    · cases List.mem_singleton.mp ht
      exact absurd rfl hne

theorem names (h : item.ReadAs depth pairs) :
    (pairs.map Prod.fst).filter (· ∈ methodKeys) = item.operations.map fun p => p.1.name := by
  rw [List.filter_map]
  exact map_eq_map h.operations fun _ _ hxp => hxp.1

theorem once (h : item.ReadAs depth pairs) (honce : item.DistinctMethods) {key : String}
    (hkey : key ∈ methodKeys) : (pairs.map Prod.fst).count key ≤ 1 := by
  have hinjective : Function.Injective Method.name := fun a b hab =>
    Option.some.inj (by rw [← Method.ofName?_name a, ← Method.ofName?_name b, hab])
  have hdistinct : ((item.operations.map Prod.fst).map Method.name).Nodup := honce.map hinjective
  rw [List.map_map] at hdistinct
  rw [← List.count_filter (p := (· ∈ methodKeys)) (decide_eq_true hkey), h.names]
  exact List.nodup_iff_count_le_one.mp hdistinct key

theorem mem_of_taken (h : item.ReadAs depth pairs) {m : Method}
    (hm : item.operations.any (·.1 == m) = true) : m.name ∈ pairs.map Prod.fst := by
  obtain ⟨p, hp, hpm⟩ := List.any_eq_true.mp hm
  have hname : p.1.name ∈ item.operations.map fun p => p.1.name := List.mem_map_of_mem hp
  rw [← h.names, beq_iff_eq.mp hpm] at hname
  exact List.mem_of_mem_filter hname

theorem not_unreadable (h : item.ReadAs depth pairs) (honce : item.DistinctMethods) :
    ¬ Unreadable depth pairs := by
  rintro (⟨hkey, hcount⟩ | ⟨hkey, hmem, hnone⟩ | ⟨hmem, hnone⟩)
  · exact absurd (h.once honce hkey) (Nat.not_le.mpr hcount)
  · have hmethod := List.mem_filter (p := (·.1 ∈ methodKeys)) |>.mpr ⟨hmem, decide_eq_true hkey⟩
    obtain ⟨p, -, -, ho⟩ := exists_related h.operations hmethod
    exact hnone _ ho
  · obtain ⟨ps, hps⟩ := h.readable _ hmem
    exact hnone ps hps

end ReadAs

def nodesOf (pairs : List (String × Tree)) : List (Node Empty × Node Empty) :=
  ofJsonMembers (pairs.map fun p => (some p.1, p.2))

@[simp] theorem nodesOf_cons (key : String) (t : Tree) (rest : List (String × Tree)) :
    nodesOf ((key, t) :: rest) = (.scalar (.ofText key), Node.ofJson t) :: nodesOf rest := rfl

section
variable {key : String} {v : Node Empty} {es : List (Node Empty × Node Empty)}

theorem text_ofText (key : String) : text (m := Except Fault) (.scalar (.ofText key) : Node Empty) = pure key := rfl

theorem readEntries_method {m : Method} (hkey : Method.ofName? key = some m) :
    readEntries (m := Except Fault) depth ((.scalar (.ofText key), v) :: es) item =
      if item.operations.any (·.1 == m) then .error (.duplicateField key)
      else Operation.read depth v >>= fun o =>
        readEntries depth es { item with operations := item.operations ++ [(m, o)] } := by
  rw [readEntries, text_ofText, pure_bind, hkey]
  rfl

theorem readEntries_parameters :
    readEntries (m := Except Fault) depth ((.scalar (.ofText "parameters"), v) :: es) item =
      listOf Parameter.read depth v >>= fun ps => readEntries depth es { item with parameters := some ps } := rfl

theorem readEntries_other (hkey : key ∉ pathItemKeys) :
    readEntries (m := Except Fault) depth ((.scalar (.ofText key), v) :: es) item =
      readEntries depth es item := by
  obtain ⟨hne, hmethod⟩ := List.ne_and_not_mem_of_not_mem_cons hkey
  have hnone : Method.ofName? key = none :=
    Option.eq_none_iff_forall_ne_some.mpr fun m hm => hmethod (mem_methodKeys.mpr ⟨m, hm⟩)
  rw [readEntries, text_ofText, pure_bind, hnone]
  exact if_neg hne

end

/-- What comes of one pair: reading goes on behind it, or it stops there. -/
inductive Step (depth : Nat) (pairs : List (String × Tree)) (item : PathItem) (x : String × Tree)
    (rest : List (String × Tree)) : Prop
  | onward {item'} : item'.ReadAs depth (pairs ++ [x]) →
      readEntries (m := Except Fault) depth (nodesOf (x :: rest)) item = readEntries depth (nodesOf rest) item' →
      Step depth pairs item x rest
  | stop {fault} : readEntries (m := Except Fault) depth (nodesOf (x :: rest)) item = .error fault →
      Unreadable depth (pairs ++ x :: rest) → Step depth pairs item x rest

section
variable {key : String} {t : Tree} {rest : List (String × Tree)}

theorem step_parameters (h : item.ReadAs depth pairs) : Step depth pairs item ("parameters", t) rest := by
  have hmem : ("parameters", t) ∈ pairs ++ ("parameters", t) :: rest :=
    List.mem_append_right _ List.mem_cons_self
  have hrun := @readEntries_parameters depth item (Node.ofJson t) (nodesOf rest)
  cases hread : listOf (m := Except Fault) Parameter.read depth (Node.ofJson t) with
  | error f =>
      rw [hread] at hrun
      refine .stop hrun (.parameters hmem fun ps hps => ?_)
      rw [ParametersAt, hread] at hps
      cases hps
  | ok ps =>
      rw [hread] at hrun
      exact .onward (h.shared hread) hrun

theorem step_method {m : Method} (h : item.ReadAs depth pairs) (hkey : Method.ofName? key = some m) :
    Step depth pairs item (key, t) rest := by
  have hmem : (key, t) ∈ pairs ++ (key, t) :: rest := List.mem_append_right _ List.mem_cons_self
  have hmethod : key ∈ methodKeys := mem_methodKeys.mpr ⟨m, hkey⟩
  have hrun := @readEntries_method depth item key (Node.ofJson t) (nodesOf rest) m hkey
  cases htaken : item.operations.any (·.1 == m) with
  | true =>
      -- an earlier pair has the method, so its key comes twice even before the rest is seen
      have hbefore := List.count_pos_iff.mpr (h.mem_of_taken htaken)
      rw [Method.name_of_ofName? hkey] at hbefore
      refine .stop (hrun.trans (if_pos htaken)) (.twice hmethod ?_)
      rw [List.map_append, List.map_cons, List.count_append, List.count_cons_self]
      omega
  | false =>
      rw [htaken] at hrun
      cases hread : Operation.read (m := Except Fault) depth (Node.ofJson t) with
      | error f =>
          rw [hread] at hrun
          refine .stop hrun (.operation hmethod hmem fun o ho => ?_)
          rw [OperationAt, hread] at ho
          cases ho
      | ok o =>
          rw [hread] at hrun
          exact .onward (h.method hkey hread) hrun

theorem readEntries_step (h : item.ReadAs depth pairs) (x : String × Tree) (rest : List (String × Tree)) :
    Step depth pairs item x rest := by
  obtain ⟨key, t⟩ := x
  by_cases hkey : key ∈ pathItemKeys
  · rcases List.mem_cons.mp hkey with rfl | hmethod
    · exact step_parameters h
    · obtain ⟨m, hm⟩ := mem_methodKeys.mp hmethod
      exact step_method h hm
  · exact .onward (h.other hkey) (readEntries_other hkey)

end

/-- One pair after another: reading goes on with what the pairs so far are read as, or stops at a pair that
cannot be read. -/
theorem readEntries_outcome (rest : List (String × Tree)) (h : item.ReadAs depth pairs) :
    (∃ r, readEntries (m := Except Fault) depth (nodesOf rest) item = .ok r ∧ r.ReadAs depth (pairs ++ rest)) ∨
      (∃ fault, readEntries (m := Except Fault) depth (nodesOf rest) item = .error fault) ∧
        Unreadable depth (pairs ++ rest) := by
  induction rest generalizing pairs item with
  | nil =>
      rw [List.append_nil]
      exact .inl ⟨item, rfl, h⟩
  | cons x rest ih =>
      cases readEntries_step h x rest with
      | onward h' hrun =>
          rw [hrun, List.append_cons]
          exact ih h'
      | stop hrun hunreadable => exact .inr ⟨⟨_, hrun⟩, hunreadable⟩

theorem readEntries_filter (pairs : List (String × Tree)) :
    readEntries (m := Except Fault) depth (nodesOf pairs) item =
      readEntries depth (nodesOf (pairs.filter (·.1 ∈ pathItemKeys))) item := by
  induction pairs generalizing item with
  | nil => rfl
  | cons x pairs ih =>
      obtain ⟨key, t⟩ := x
      rw [List.filter_cons, nodesOf_cons]
      by_cases hkey : key ∈ pathItemKeys
      · rw [if_pos (decide_eq_true hkey), nodesOf_cons]
        rcases List.mem_cons.mp hkey with rfl | hmethod
        · rw [readEntries_parameters, readEntries_parameters]
          exact bind_congr fun ps => ih
        · obtain ⟨m, hm⟩ := mem_methodKeys.mp hmethod
          rw [readEntries_method hm, readEntries_method hm]
          exact ite_congr rfl (fun _ => rfl) fun _ => bind_congr fun o => ih
      · rw [if_neg fun h => hkey (of_decide_eq_true h), readEntries_other hkey]
        exact ih

/-- A path item is refused just for a method that comes twice, a method whose value is no operation, and
parameters that are no list of parameters (such as null), even when they are not the last. Otherwise it has the
operations in source order and the last parameters; pairs with other keys make no difference. -/
theorem read_pairs (depth : Nat) (pairs : List (String × Tree)) :
    ((∃ fault, PathItem.read (m := Except Fault) (depth + 1) (Node.ofJson (.ofPairs pairs)) = .error fault) ↔
      Unreadable depth pairs) ∧
    (∀ item, PathItem.read (m := Except Fault) (depth + 1) (Node.ofJson (.ofPairs pairs)) = .ok item →
      item.ReadAs depth pairs ∧ (item.operations.map Prod.fst).Nodup) ∧
    (∀ ps, ¬ ParametersAt depth .null ps) ∧
    PathItem.read (m := Except Fault) (depth + 1) (Node.ofJson (.ofPairs pairs)) =
      PathItem.read (depth + 1) (Node.ofJson (.ofPairs (pairs.filter (·.1 ∈ pathItemKeys)))) := by
  have hread : ∀ pairs, PathItem.read (m := Except Fault) (depth + 1) (Node.ofJson (.ofPairs pairs)) =
      readEntries depth (nodesOf pairs) {} := fun _ => rfl
  have houtcome := readEntries_outcome pairs (ReadAs.empty depth)
  rw [List.nil_append, ← hread] at houtcome
  have hok : ∀ item, PathItem.read (m := Except Fault) (depth + 1) (Node.ofJson (.ofPairs pairs)) = .ok item →
      item.ReadAs depth pairs ∧ (item.operations.map Prod.fst).Nodup := by
    intro item h
    have honce : item.DistinctMethods := PathItem.read_distinct (m := Except Fault) h
    rcases houtcome with ⟨r, hr, hall⟩ | ⟨⟨f, hf⟩, -⟩
    · cases hr.symm.trans h
      exact ⟨hall, honce⟩
    · cases hf.symm.trans h
  refine ⟨⟨?_, ?_⟩, hok, ?_, ?_⟩
  · rintro ⟨f, hf⟩
    rcases houtcome with ⟨r, hr, -⟩ | ⟨-, hunreadable⟩
    · cases hr.symm.trans hf
    · exact hunreadable
  · intro hunreadable
    rcases houtcome with ⟨r, hr, -⟩ | ⟨hfault, -⟩
    · obtain ⟨hall, honce⟩ := hok r hr
      exact absurd hunreadable (hall.not_unreadable honce)
    · exact hfault
  · intro ps h
    cases h
  · rw [hread, hread]
    exact readEntries_filter pairs

/-- Two methods among keys that are passed over, and parameters given twice. -/
def crowdedItem : List (String × Tree) :=
  [("head", .null), ("put", .object []), ("Get", .bool true), ("parameters", .list [.object []]),
    ("get", .object []), ("head", .text none), ("parameters", .list [])]

theorem read_pairs_crowdedItem :
    (∃ item, PathItem.read (m := Except Fault) 3 (Node.ofJson (.ofPairs crowdedItem)) = .ok item ∧
      item.ReadAs 2 crowdedItem ∧ item.operations.map Prod.fst = [.put, .get]) ∧
    ∃ fault, PathItem.read (m := Except Fault) 3 (Node.ofJson (.ofPairs (("parameters", .null) :: crowdedItem))) =
      .error fault := by
  obtain ⟨item, hitem, hmethods⟩ := ok_of_view (fun item : PathItem => item.operations.map Prod.fst)
    (show (PathItem.read (m := Except Fault) 3 (Node.ofJson (.ofPairs crowdedItem))).toOption.map _ =
      some [.put, .get] by decide +kernel)
  obtain ⟨-, hok, -⟩ := read_pairs 2 crowdedItem
  obtain ⟨hfails, -, hnull, -⟩ := read_pairs 2 (("parameters", .null) :: crowdedItem)
  exact ⟨⟨item, hitem, (hok item hitem).1, hmethods⟩, hfails.mpr (.parameters List.mem_cons_self hnull)⟩

end PathItem
end TypedEndpoints.OpenApi
