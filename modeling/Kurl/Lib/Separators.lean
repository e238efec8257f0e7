import Mathlib.Data.List.Basic

/-!
# Separators in texts

Two ways to cut one text at a separator: they are the same cut, or the second piece of one of them
contains the separator of the other (`append_cons_cases`). A run of characters of one kind ends at
the first one of another (`run_append_cons_inj`).

A text that is put together from fields and separators can be taken apart in one way if no field
contains what follows it; otherwise the two lemmas say which other cut there is.
-/

namespace Lib

variable {α : Type}

/-- **Two cuts of one text.** -/
theorem append_cons_cases {a b a' b' : List α} {x x' : α} (h : a ++ x :: b = a' ++ x' :: b') :
    (a = a' ∧ x = x' ∧ b = b') ∨ (∃ m, a' = a ++ x :: m ∧ b = m ++ x' :: b') ∨
      ∃ m, a = a' ++ x' :: m ∧ b' = m ++ x :: b := by
  rcases List.append_eq_append_iff.mp h with ⟨m, ha, hb⟩ | ⟨m, ha, hb⟩
  · cases m with
    | nil =>
      obtain ⟨hx, hb⟩ := List.cons.inj hb
      exact Or.inl ⟨by simpa using ha.symm, hx, hb⟩
    | cons y m =>
      obtain ⟨rfl, hrest⟩ := List.cons.inj hb
      exact Or.inr (Or.inl ⟨m, ha, hrest⟩)
  · cases m with
    | nil =>
      obtain ⟨hx, hb⟩ := List.cons.inj hb
      exact Or.inl ⟨by simpa using ha, hx.symm, hb.symm⟩
    | cons y m =>
      obtain ⟨rfl, hrest⟩ := List.cons.inj hb
      exact Or.inr (Or.inr ⟨m, ha, hrest⟩)

/-- A run up to the first character of another kind. -/
theorem run_append_cons_inj {p : α → Prop} {a b a' b' : List α} {x x' : α}
    (ha : ∀ c ∈ a, p c) (ha' : ∀ c ∈ a', p c) (hx : ¬ p x) (hx' : ¬ p x')
    (h : a ++ x :: b = a' ++ x' :: b') : a = a' ∧ x = x' ∧ b = b' := by
  rcases append_cons_cases h with heq | ⟨m, rfl, -⟩ | ⟨m, rfl, -⟩
  · exact heq
  · exact absurd (ha' x (by simp)) hx
  · exact absurd (ha x' (by simp)) hx'

end Lib
