import Kurl.Lib.Machine

/-!
# Machines that come to rest

Liveness without fairness: every step takes away some of the work that is left, so a run is no
longer than the work of its first state and what arrives on the way (`Machine.run_length_le`), and
a run that goes on for as long as it can ends where nothing is left to do
(`Machine.exists_stuck`). What such a state looks like is a property of the machine.

What may go on without end is in the actions: which of them the machine takes by itself is the
predicate that `Stuck` and `exists_stuck` have, and the others bring the work that the bound counts.
-/

namespace Lib

namespace Machine

variable {σ α : Type} {m : Machine σ α}

/-- No action of this kind is possible. -/
def Stuck (m : Machine σ α) (own : α → Prop) (s : σ) : Prop := ∀ a, own a → m.step s a = none

/-- **Length rule.** Every step takes away one unit of the work that is left, and an action may
bring some with it. -/
theorem run_length_le {I : σ → Prop} (work : σ → Nat) (brings : α → Nat)
    (hkeep : ∀ s a s', I s → m.step s a = some s' → I s')
    (hstep : ∀ s a s', I s → m.step s a = some s' → work s' + 1 ≤ work s + brings a)
    {s t : σ} {as : List α} (hrun : m.run s as = some t) (hinit : I s) :
    as.length + work t ≤ work s + (as.map brings).sum := by
  induction as generalizing s with
  | nil =>
    obtain rfl := Option.some.inj hrun
    show 0 + work s ≤ work s + 0
    omega
  | cons a as ih =>
    obtain ⟨u, hfirst, hrest⟩ := m.run_cons_some.mp hrun
    have hnow := hstep s a u hinit hfirst
    have hlater := ih hrest (hkeep s a u hinit hfirst)
    rw [List.length_cons, List.map_cons, List.sum_cons]
    omega

/-- **Resting rule.** Where the actions of a kind take work away, some of them lead to a state in
which none is possible. -/
theorem exists_stuck {I : σ → Prop} (own : α → Prop) (work : σ → Nat)
    (hkeep : ∀ s a s', I s → m.step s a = some s' → I s')
    (hstep : ∀ s a s', I s → own a → m.step s a = some s' → work s' < work s)
    {s : σ} (hinit : I s) :
    ∃ as t, (∀ a ∈ as, own a) ∧ m.run s as = some t ∧ m.Stuck own t := by
  -- induction on the work that is left
  induction hwork : work s using Nat.strong_induction_on generalizing s with
  | _ n ih =>
    by_cases hstuck : m.Stuck own s
    · exact ⟨[], s, by simp, rfl, hstuck⟩
    · obtain ⟨a, hnot⟩ := not_forall.mp hstuck
      obtain ⟨hown, hsome⟩ := Classical.not_imp.mp hnot
      obtain ⟨u, hfirst⟩ := Option.ne_none_iff_exists'.mp hsome
      have hless : work u < n := hwork ▸ hstep s a u hinit hown hfirst
      obtain ⟨as, t, has, hrun, ht⟩ := ih (work u) hless (hkeep s a u hinit hfirst) rfl
      refine ⟨a :: as, t, fun b hb => ?_, m.run_cons_some.mpr ⟨u, hfirst, hrun⟩, ht⟩
      rcases List.mem_cons.mp hb with rfl | hb
      · exact hown
      · exact has b hb

end Machine

end Lib
