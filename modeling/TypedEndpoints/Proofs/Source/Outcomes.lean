import TypedEndpoints.Source.Yaml
/-! What readers may return. The readers are written once for all formats, so facts about their results
are stated for every monad that passes results on through its steps and returns nothing by failing. -/
namespace TypedEndpoints.Source

/-- The results a reading may have, for some table and number of links. -/
class Outcomes (m : Type → Type) [Monad m] [MonadExceptOf Fault m] where
  Returns {α : Type} : m α → α → Prop
  of_pure {α : Type} {a b : α} : Returns (pure a) b → b = a
  of_bind {α β : Type} {x : m α} {f : α → m β} {b : β} :
    Returns (x >>= f) b → ∃ a, Returns x a ∧ Returns (f a) b
  not_throw {α : Type} {e : Fault} {a : α} : ¬ Returns (throw e) a

instance : Outcomes (Except Fault) where
  Returns x a := x = .ok a
  of_pure h := by
    cases h
    rfl
  of_bind {α β x f b} h := by
    cases x with
    | error e => cases h
    | ok a => exact ⟨a, rfl, h⟩
  not_throw h := by cases h

instance : Outcomes LinkReader where
  Returns x a := ∃ table links rest, x table links = .ok (a, rest)
  of_pure h := by
    obtain ⟨table, links, rest, h⟩ := h
    cases h
    rfl
  of_bind {α β x f b} h := by
    obtain ⟨table, links, rest, h⟩ := h
    change (x table links >>= fun p => f p.1 table p.2) = .ok (b, rest) at h
    cases hx : x table links with
    | error e => rw [hx] at h; cases h
    | ok p =>
        rw [hx] at h
        exact ⟨p.1, ⟨table, links, p.2, hx⟩, ⟨table, p.2, rest, h⟩⟩
  not_throw h := by
    obtain ⟨table, links, rest, h⟩ := h
    cases h

section
variable {ρ α β : Type} {m : Type → Type} [Monad m] [MonadExceptOf Fault m] [Outcomes m]
open Outcomes

theorem returns_defaultField {fields : Fields ρ} {name : String} {fallback : α}
    {read : Node ρ → m α} {a : α} (h : Returns (defaultField fields name fallback read) a) :
    a = fallback ∨ ∃ n, Returns (read n) a := by
  unfold defaultField at h
  split at h
  · exact .inr ⟨_, h⟩
  · exact .inl (of_pure h)

variable [LawfulMonad m] [Links ρ m]

theorem returns_map {f : α → β} {x : m α} {b : β} (h : Returns (f <$> x) b) :
    ∃ a, Returns x a ∧ b = f a := by
  rw [map_eq_pure_bind] at h
  obtain ⟨a, ha, h⟩ := of_bind h
  exact ⟨a, ha, of_pure h⟩

theorem returns_mapM {f : α → m β} {as : List α} {bs : List β} (h : Returns (as.mapM f) bs) :
    ∀ b ∈ bs, ∃ a ∈ as, Returns (f a) b := by
  induction as generalizing bs with
  | nil =>
      rw [List.mapM_nil] at h
      rw [of_pure h]
      intro b hb
      cases hb
  | cons a as ih =>
      rw [List.mapM_cons] at h
      obtain ⟨b, hb, h⟩ := of_bind h
      obtain ⟨bs', hbs, h⟩ := of_bind h
      rw [of_pure h]
      intro c hc
      rcases List.mem_cons.mp hc with rfl | hc
      · exact ⟨a, List.mem_cons_self, hb⟩
      · obtain ⟨a', ha', hc⟩ := ih hbs c hc
        exact ⟨a', List.mem_cons_of_mem _ ha', hc⟩

theorem returns_optional {read : Node ρ → m α} {n : Node ρ} {a : α}
    (h : Returns (optional read n) (some a)) : ∃ n, Returns (read n) a := by
  obtain ⟨r, -, h⟩ := of_bind h
  split at h
  · split at h
    · cases of_pure h
    · obtain ⟨b, hb, e⟩ := returns_map h
      cases e
      exact ⟨_, hb⟩
    · exact absurd h not_throw
  · obtain ⟨b, hb, e⟩ := returns_map h
    cases e
    exact ⟨_, hb⟩

theorem returns_optionalField {fields : Fields ρ} {name : String} {read : Node ρ → m α} {a : α}
    (h : Returns (optionalField fields name read) (some a)) : ∃ n, Returns (read n) a := by
  unfold optionalField at h
  split at h
  · exact returns_optional h
  · cases of_pure h

theorem returns_pairsOf {read : Nat → Node ρ → m α} {depth : Nat} {n : Node ρ}
    {ps : List (String × α)} (h : Returns (pairsOf read depth n) ps) :
    ∀ p ∈ ps, ∃ d n, Returns (read d n) p.2 := by
  obtain ⟨⟨d, es⟩, -, h⟩ := of_bind h
  intro p hp
  obtain ⟨e, -, h⟩ := returns_mapM h p hp
  obtain ⟨key, -, h⟩ := of_bind h
  obtain ⟨value, hvalue, h⟩ := of_bind h
  cases of_pure h
  exact ⟨d, e.2, hvalue⟩

end
end TypedEndpoints.Source
