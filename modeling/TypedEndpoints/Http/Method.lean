/-! The methods of an endpoint. -/
namespace TypedEndpoints

inductive Method where
  | get
  | post
  | put
  | patch
  | delete
deriving Repr, DecidableEq

namespace Method

/-- The lower-case name, as in a path item. -/
def name : Method → String
  | .get => "get"
  | .post => "post"
  | .put => "put"
  | .patch => "patch"
  | .delete => "delete"

def ofName? : String → Option Method
  | "get" => some .get
  | "post" => some .post
  | "put" => some .put
  | "patch" => some .patch
  | "delete" => some .delete
  | _ => none

@[simp] theorem ofName?_name (m : Method) : ofName? m.name = some m := by cases m <;> rfl

theorem name_of_ofName? {s : String} {m : Method} (h : ofName? s = some m) : m.name = s := by
  simp only [ofName?] at h
  split at h <;> cases h <;> rfl

end Method
end TypedEndpoints
