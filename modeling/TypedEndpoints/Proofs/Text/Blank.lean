import TypedEndpoints.Text.Cut
import Mathlib.Data.List.DropRight
/-! Trimming takes the blanks off both ends of a text and nothing else: what is left neither starts nor ends with
a blank, and it is the only such part of the text with nothing but blanks around it. -/
namespace TypedEndpoints.Text

def Blanks (cs : List Char) : Prop := ∀ c ∈ cs, isBlank c = true

/-- A text that neither starts nor ends with a blank. -/
structure Unpadded (cs : List Char) : Prop where
  first : ∀ c, cs.head? = some c → isBlank c = false
  last : ∀ c, cs.getLast? = some c → isBlank c = false

theorem trimEnd_eq (cs : List Char) : trimEnd cs = cs.rdropWhile isBlank := rfl

theorem trimStart_blanks {l : List Char} (hl : Blanks l) (cs : List Char) :
    trimStart (l ++ cs) = trimStart cs := List.dropWhile_append_of_pos hl

theorem trimEnd_blanks {r : List Char} (hr : Blanks r) (cs : List Char) :
    trimEnd (cs ++ r) = trimEnd cs := by
  have hreverse : ∀ c ∈ r.reverse, isBlank c = true := fun c hc => hr c (List.mem_reverse.mp hc)
  rw [trimEnd, List.reverse_append, List.dropWhile_append_of_pos hreverse, trimEnd]

/-- Blanks around a text that has none at its ends are what trimming takes off. -/
theorem trim_padded {l m r : List Char} (hl : Blanks l) (hm : Unpadded m) (hr : Blanks r) :
    trim (l ++ m ++ r) = m := by
  rw [trim, List.append_assoc, trimStart_blanks hl]
  cases m with
  | nil =>
      have hnil : trimStart r = [] := List.dropWhile_eq_nil_iff.mpr hr
      rw [List.nil_append, hnil]
      rfl
  | cons c cs =>
      have hc : isBlank c = false := hm.first c rfl
      have hstart : trimStart (c :: cs ++ r) = c :: cs ++ r :=
        List.dropWhile_cons_of_neg (Bool.eq_false_iff.mp hc)
      rw [hstart, trimEnd_blanks hr, trimEnd_eq, List.rdropWhile_eq_self_iff]
      intro hne
      rw [hm.last _ (List.getLast?_eq_some_getLast hne)]
      exact Bool.false_ne_true

theorem unpadded_trim (cs : List Char) : Unpadded (trim cs) := by
  constructor
  · intro c hc
    have hprefix : trim cs <+: trimStart cs := List.rdropWhile_prefix isBlank _
    obtain ⟨rest, hrest⟩ := hprefix
    have hhead : (trimStart cs).head? = some c := by
      rw [← hrest, List.head?_append, hc]
      rfl
    have hnot := List.head?_dropWhile_not isBlank cs
    rw [trimStart] at hhead
    rw [hhead] at hnot
    exact hnot
  · intro c hc
    have hne : trim cs ≠ [] := by
      intro hnil
      rw [hnil] at hc
      cases hc
    have hnot := List.rdropWhile_last_not isBlank (trimStart cs) hne
    rw [List.getLast?_eq_some_getLast hne, Option.some_inj] at hc
    rw [← hc]
    exact Bool.eq_false_iff.mpr hnot

@[simp] theorem trim_eq_nil_iff (cs : List Char) : trim cs = [] ↔ Blanks cs := by
  rw [trim, trimEnd, List.reverse_eq_nil_iff, List.dropWhile_eq_nil_iff]
  simp only [List.mem_reverse]
  rw [← List.dropWhile_eq_nil_iff, trimStart, List.dropWhile_idempotent, List.dropWhile_eq_nil_iff]
  rfl

/-- What trimming takes off is blank. -/
theorem exists_padding (cs : List Char) : ∃ l r, Blanks l ∧ Blanks r ∧ cs = l ++ trim cs ++ r := by
  refine ⟨cs.takeWhile isBlank, ((trimStart cs).reverse.takeWhile isBlank).reverse, ?_, ?_, ?_⟩
  · intro c hc
    exact List.mem_takeWhile_imp hc
  · intro c hc
    exact List.mem_takeWhile_imp (List.mem_reverse.mp hc)
  · have hend : trim cs ++ ((trimStart cs).reverse.takeWhile isBlank).reverse = trimStart cs := by
      rw [trim, trimEnd, ← List.reverse_append, List.takeWhile_append_dropWhile, List.reverse_reverse]
    rw [List.append_assoc, hend]
    exact List.takeWhile_append_dropWhile.symm

end TypedEndpoints.Text
