import Kurl.Lib.Machine

/-!
# The past of a run

`m.Once s as P` says that `P` held at some point of the run of `as` from `s`, and
`m.Performed s as a P` that it held at a point where the run performs `a`: the state in which a read
took place. A statement about what a run has left behind, such as "this value was once in the
table", is an invariant relative to them. `Machine.run_invariant_of_past` is the induction rule for
such invariants: they may mention the run so far, and each step makes it longer.

Both are kept by a longer run (`Once.append`, `Performed.append`), and the step that makes a
property true is the one where it is introduced (`Once.now`, `Performed.now`). So an invariant of
this kind is proved like any other: by what one step does.
-/

namespace Lib

namespace Machine

variable {σ α : Type} {m : Machine σ α} {s t : σ} {a : α} {as : List α} {P Q : σ → Prop}

/-- At some point of the run. -/
def Once (m : Machine σ α) (s : σ) (as : List α) (P : σ → Prop) : Prop :=
  ∃ bs t, bs <+: as ∧ m.run s bs = some t ∧ P t

/-- At the last point. -/
theorem Once.now (hrun : m.run s as = some t) (h : P t) : m.Once s as P :=
  ⟨as, t, List.prefix_refl as, hrun, h⟩

/-- What was once still was once when the run goes on. -/
theorem Once.append (h : m.Once s as P) (bs : List α) : m.Once s (as ++ bs) P := by
  obtain ⟨cs, t, hprefix, hrun, hP⟩ := h
  exact ⟨cs, t, hprefix.trans (List.prefix_append as bs), hrun, hP⟩

theorem Once.imp (hPQ : ∀ t, P t → Q t) (h : m.Once s as P) : m.Once s as Q := by
  obtain ⟨cs, t, hprefix, hrun, hP⟩ := h
  exact ⟨cs, t, hprefix, hrun, hPQ t hP⟩

/-- At a point where the run performs `a`. -/
def Performed (m : Machine σ α) (s : σ) (as : List α) (a : α) (P : σ → Prop) : Prop :=
  ∃ bs cs t, as = bs ++ a :: cs ∧ m.run s bs = some t ∧ P t

/-- By the last step. -/
theorem Performed.now (hrun : m.run s as = some t) (h : P t) : m.Performed s (as ++ [a]) a P :=
  ⟨as, [], t, rfl, hrun, h⟩

theorem Performed.append (h : m.Performed s as a P) (bs : List α) :
    m.Performed s (as ++ bs) a P := by
  obtain ⟨cs, ds, t, rfl, hrun, hP⟩ := h
  exact ⟨cs, ds ++ bs, t, by rw [List.append_assoc, List.cons_append], hrun, hP⟩

/-- **Run lemma with the past.** The invariant may speak of the actions so far, and each step is one
more of them. -/
theorem run_invariant_of_past {I : List α → σ → Prop} (hinit : I [] s)
    (hstep : ∀ as t a t', m.run s as = some t → m.step t a = some t' → I as t → I (as ++ [a]) t')
    (hrun : m.run s as = some t) : I as t := by
  induction as using List.reverseRecOn generalizing t with
  | nil =>
    obtain rfl := Option.some.inj hrun
    exact hinit
  | append_singleton as a ih =>
    obtain ⟨u, hbefore, hlast⟩ := m.run_append_some.mp hrun
    obtain ⟨v, hv, hlast⟩ := m.run_cons_some.mp hlast
    obtain rfl := Option.some.inj hlast
    exact hstep as u a v hbefore hv (ih hbefore)

end Machine

end Lib
