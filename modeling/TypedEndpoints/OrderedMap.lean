/-!
Maps that keep their keys in order of first insertion: lists of pairs, with insertion that replaces
in place.
-/
namespace TypedEndpoints

/-- Keys in order of first insertion; every operation here keeps them distinct. -/
abbrev OrderedMap (β : Type) := List (String × β)

namespace OrderedMap
variable {β : Type}

def keys (m : OrderedMap β) : List String := m.map Prod.fst

/-- A present key keeps its place and takes the new value; a new key goes last. -/
def insert (key : String) (value : β) : OrderedMap β → OrderedMap β
  | [] => [(key, value)]
  | (k, v) :: m => if k = key then (key, value) :: m else (k, v) :: insert key value m

def ofPairs (pairs : List (String × β)) : OrderedMap β :=
  pairs.foldl (fun m p => insert p.1 p.2 m) []

def get? (m : OrderedMap β) (key : String) : Option β :=
  match m with
  | [] => none
  | (k, v) :: m => if k = key then some v else get? m key

def contains (m : OrderedMap β) (key : String) : Bool := (m.get? key).isSome

def erase (m : OrderedMap β) (key : String) : OrderedMap β := m.filter (·.1 != key)

@[simp] theorem keys_insert (key : String) (value : β) (m : OrderedMap β) :
    keys (insert key value m) = if key ∈ keys m then keys m else keys m ++ [key] := by
  induction m with
  | nil => simp [insert, keys]
  | cons p m ih =>
    obtain ⟨k, v⟩ := p
    by_cases h : k = key
    · simp [insert, keys, h]
    · have h' : ¬ key = k := fun e => h e.symm
      simp only [insert, h, if_false, keys, List.map_cons, List.mem_cons, h', false_or] at *
      rw [ih]
      split <;> simp [*]

@[simp] theorem get?_insert (key other : String) (value : β) (m : OrderedMap β) :
    get? (insert key value m) other = if key = other then some value else get? m other := by
  induction m with
  | nil => simp [insert, get?]
  | cons p m ih =>
    obtain ⟨k, v⟩ := p
    by_cases h : k = key
    · subst h; by_cases ho : k = other <;> simp [insert, get?, ho]
    · by_cases ho : k = other
      · subst ho; simp [insert, get?, h, Ne.symm h]
      · simp [insert, get?, h, ho, ih]

end OrderedMap
end TypedEndpoints
