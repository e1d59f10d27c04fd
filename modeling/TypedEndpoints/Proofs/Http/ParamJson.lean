import TypedEndpoints.Http.Request
import TypedEndpoints.Json.Typed
import TypedEndpoints.Proofs.Json.Members
import TypedEndpoints.Proofs.Json.Scalars
/-! Parameters through JSON. The JSON of a value does not say which variant it came from: the variants are tried
in turn. What is written for a variant is declined by all that are tried before it, so the value comes back. A
map of parameters becomes the object of its bindings, whatever the order in which they were put in. -/
namespace TypedEndpoints
open Json (Value View)

inductive ParamKind where
  | bool
  | integer
  | float
  | text

namespace ParamKind

/-- In the order in which they are tried. -/
def all : List ParamKind := [.bool, .integer, .float, .text]

/-- A float may be written as an integer. -/
def floatView : View Float
  | .number (.int i) => some (Float.ofInt i)
  | .number (.float x) => some x
  | _ => none

def read? : ParamKind → View ParamValue
  | .bool => fun j => (View.bool j).map .bool
  | .integer => fun j => (View.i64 j).map fun i => .integer (Int64.ofInt i)
  | .float => fun j => (floatView j).map .float
  | .text => fun j => (View.text j).map .text

@[simp] theorem read?_null (k : ParamKind) : k.read? .null = none := by
  cases k <;> rfl

end ParamKind

namespace ParamValue

def kind : ParamValue → ParamKind
  | .bool _ => .bool
  | .integer _ => .integer
  | .float _ => .float
  | .text _ => .text

def IsFinite (v : ParamValue) : Prop := ∀ x, v = .float x → x.isFinite = true

/-- The digits that are written for a float name it again. -/
def DigitsSuffice (v : ParamValue) : Prop :=
  ∀ x, v = .float x → Value.parse? (Json.floatText x) = some (.number (.float x))

/-- A value comes back from its JSON, and from the text of its JSON; each variant that is tried before its own
declines. -/
structure SurvivesJson (v : ParamValue) : Prop where
  first : ∃ earlier later, ParamKind.all = earlier ++ v.kind :: later ∧
    ∀ k ∈ earlier, k.read? v.toJson = none
  back : ofJson? v.toJson = some v
  text : v.DigitsSuffice → (Value.parse? v.toJson.render.toList).bind ofJson? = some v

@[simp] theorem i64_int (i : Int) : View.i64 (.number (.int i)) = if fitsInt64 i = true then some i else none := by
  simp only [View.i64, View.int, fitsInt64, Bool.and_eq_true, decide_eq_true_eq, Int.le_sub_one_iff]

theorem ofJson?_eq_findSome? (j : Value) : ofJson? j = ParamKind.all.findSome? fun k => k.read? j := by
  cases j with
  | number n =>
      cases n with
      | int i =>
          have hbool : ParamKind.read? .bool (.number (.int i)) = none := rfl
          rw [ofJson?, ParamKind.all, List.findSome?_cons, hbool, List.findSome?_cons]
          simp only [ParamKind.read?, i64_int]
          split <;> rfl
      | float x => rfl
  | null => rfl
  | bool b => rfl
  | text s => rfl
  | list items => rfl
  | object members => rfl

@[simp] theorem fitsInt64_toInt (i : Int64) : fitsInt64 i.toInt = true := by
  rw [fitsInt64, Bool.and_eq_true, decide_eq_true_eq, decide_eq_true_eq]
  exact ⟨i.le_toInt, i.toInt_lt⟩

theorem read?_toJson {v : ParamValue} (h : v.IsFinite) : v.kind.read? v.toJson = some v := by
  cases v with
  | bool b => rfl
  | integer i => simp [kind, toJson, ParamKind.read?]
  | float x => simp [kind, toJson, h x rfl, ParamKind.read?, ParamKind.floatView]
  | text s => rfl

/-- An integer is taken by the reader of floats too, so the order of the variants matters. -/
theorem earlier_decline {v : ParamValue} (h : v.IsFinite) : ∃ earlier later,
    ParamKind.all = earlier ++ v.kind :: later ∧ ∀ k ∈ earlier, k.read? v.toJson = none := by
  cases v with
  | bool b => exact ⟨[], [.integer, .float, .text], rfl, by simp⟩
  | integer i => exact ⟨[.bool], [.float, .text], rfl, by simp [toJson, ParamKind.read?, View.bool]⟩
  | float x =>
      refine ⟨[.bool, .integer], [.text], rfl, ?_⟩
      simp [toJson, h x rfl, ParamKind.read?, View.bool, View.i64, View.int]
  | text s =>
      refine ⟨[.bool, .integer, .float], [], rfl, ?_⟩
      simp [toJson, ParamKind.read?, ParamKind.floatView, View.bool, View.i64, View.int]

theorem ofJson?_toJson {v : ParamValue} (h : v.IsFinite) : ofJson? v.toJson = some v := by
  obtain ⟨earlier, later, hall, hdecline⟩ := earlier_decline h
  rw [ofJson?_eq_findSome?, hall, List.findSome?_append, List.findSome?_eq_none_iff.mpr hdecline,
    Option.none_or, List.findSome?_cons, read?_toJson h]

theorem parse?_toJson {v : ParamValue} (h : v.IsFinite) (hdigits : v.DigitsSuffice) :
    Value.parse? v.toJson.chars = some v.toJson := by
  cases v with
  | bool b => exact Value.parse?_bool b
  | integer i => exact Value.parse?_intText i.le_toInt (lt_trans i.toInt_lt (by decide))
  | float x =>
      have hx : toJson (.float x) = .number (.float x) := by simp [toJson, h x rfl]
      rw [hx]
      exact hdigits x rfl
  | text s => exact Value.parse?_quoted s

theorem survivesJson {v : ParamValue} (h : v.IsFinite) : SurvivesJson v := by
  refine ⟨earlier_decline h, ofJson?_toJson h, ?_⟩
  intro hdigits
  rw [Value.render, String.toList_ofList, parse?_toJson h hdigits]
  exact ofJson?_toJson h

theorem toJson_of_not_finite {v : ParamValue} (h : ¬ v.IsFinite) : v.toJson = .null := by
  simp only [IsFinite, not_forall] at h
  obtain ⟨x, rfl, hx⟩ := h
  simp [toJson, hx]

end ParamValue

/-- The members of the object of a map: its keys in order, each with the JSON of its value. -/
structure MembersOf (params : Params) (members : OrderedMap Value) : Prop where
  sorted : Value.Sorted members
  keys : (OrderedMap.keys members).Perm (OrderedMap.keys params)
  value : ∀ key, members.get? key = (params.get? key).map ParamValue.toJson

namespace RequestBody
open OrderedMap (keys)

@[simp] theorem keys_map_toJson (params : Params) :
    keys (params.map fun p => (p.1, p.2.toJson)) = keys params := by
  rw [keys, keys, List.map_map]
  rfl

theorem ofParams_spec {params : Params} (hkeys : (keys params).Nodup) :
    ∃ members, ofParams params = .json (.object members) ∧ MembersOf params members := by
  rw [← keys_map_toJson] at hkeys
  obtain ⟨members, hmembers, hsorted, hperm, hget⟩ := Value.ofMembers_spec hkeys
  refine ⟨members, congrArg _ hmembers, hsorted, ?_, ?_⟩
  · rw [keys_map_toJson] at hperm
    exact hperm
  · intro key
    rw [hget, OrderedMap.get?_map]

theorem ofParams_congr {p q : Params} (hp : (keys p).Nodup) (hq : (keys q).Nodup)
    (h : ∀ key, p.get? key = q.get? key) : ofParams p = ofParams q := by
  rw [← keys_map_toJson] at hp hq
  apply congrArg RequestBody.json
  apply Value.ofMembers_congr hp hq
  intro key
  simp [h]

end RequestBody

/-- Values come back from JSON as they were, except for the floats that JSON does not have: they become null, which
no variant takes. A map becomes the object with the same keys, each with the JSON of its value, and every other
map of the same bindings, in whatever order they were put in, becomes the same object. -/
theorem params_survive_json {params : Params} (hkeys : (OrderedMap.keys params).Nodup) :
    (∀ v : ParamValue, v.IsFinite → v.SurvivesJson) ∧
    (∀ v : ParamValue, ¬ v.IsFinite → v.toJson = .null) ∧
    (∀ k : ParamKind, k.read? .null = none) ∧ ParamValue.ofJson? .null = none ∧
    (∃ members, RequestBody.ofParams params = .json (.object members) ∧ MembersOf params members) ∧
    ∀ other : Params, (OrderedMap.keys other).Nodup → (∀ key, other.get? key = params.get? key) →
      RequestBody.ofParams other = RequestBody.ofParams params := by
  refine ⟨fun v hv => ParamValue.survivesJson hv, fun v hv => ParamValue.toJson_of_not_finite hv,
    ParamKind.read?_null, rfl, RequestBody.ofParams_spec hkeys, ?_⟩
  intro other hother hsame
  exact RequestBody.ofParams_congr hother hkeys hsame

/-- A text of a digit, a whole float, and the two put in the other way round. -/
theorem params_survive_json_two :
    (Value.parse? (ParamValue.toJson (.text "1")).render.toList).bind ParamValue.ofJson? = some (.text "1") ∧
    (Value.parse? (ParamValue.toJson (.float 1.0)).render.toList).bind ParamValue.ofJson? = some (.float 1.0) ∧
    RequestBody.ofParams [("b", .float 1.0), ("a", .text "1")] =
      RequestBody.ofParams [("a", .text "1"), ("b", .float 1.0)] := by
  have hkeys : (OrderedMap.keys [("a", ParamValue.text "1"), ("b", .float 1.0)]).Nodup := by decide
  have hswap : (OrderedMap.keys [("b", ParamValue.float 1.0), ("a", .text "1")]).Nodup := by decide
  obtain ⟨hvalues, _, _, _, _, hsame⟩ := params_survive_json hkeys
  refine ⟨?_, ?_, ?_⟩
  · have hfinite : ParamValue.IsFinite (.text "1") := by
      intro x hx
      cases hx
    apply (hvalues _ hfinite).text
    intro x hx
    cases hx
  · have hfinite : ParamValue.IsFinite (.float 1.0) := by
      intro x hx
      cases hx
      decide
    apply (hvalues _ hfinite).text
    intro x hx
    cases hx
    rfl
  · apply hsame _ hswap
    intro key
    exact OrderedMap.get?_perm hswap (List.Perm.swap _ _ _) key

end TypedEndpoints
