import Kurl.Lib.Table

/-!
# Deterministic machines driven by labelled actions

A `Machine σ α` takes a state and an action to the next state, or refuses (`none`) when
the action is not enabled. All nondeterminism — which party moves, which call fails, what
order a traversal takes — lives in the action, so a run is a list of actions and can be
evaluated. An invariant is proved once per step and carried along runs by
`Machine.run_invariant`; `Machine.Meets` restricts a run to steps that satisfy a condition
on the state before the step and the action, and `Machine.run_invariant_of_meets` is the
induction rule for such runs.

`Machine.meets_iff_of_breaks` is the rule for exact conditions. If a step that meets the condition
keeps one predicate and a step that breaks it makes another true for good, and the two exclude each
other, then a run meets the condition exactly if the first predicate holds at its end.
-/

namespace Lib

structure Machine (σ α : Type) where
  step : σ → α → Option σ

namespace Machine

variable {σ α : Type} (m : Machine σ α)

/-- Perform the actions in order; `none` as soon as one is refused. -/
def run : σ → List α → Option σ
  | s, [] => some s
  | s, a :: as => (m.step s a).bind fun s' => run s' as

@[simp] theorem run_nil (s : σ) : m.run s [] = some s := rfl

theorem run_cons (s : σ) (a : α) (as : List α) :
    m.run s (a :: as) = (m.step s a).bind fun s' => m.run s' as := rfl

theorem run_cons_some {s s' : σ} {a : α} {as : List α} :
    m.run s (a :: as) = some s' ↔ ∃ t, m.step s a = some t ∧ m.run t as = some s' := by
  rw [run_cons, Option.bind_eq_some_iff]

theorem run_append (s : σ) (as bs : List α) :
    m.run s (as ++ bs) = (m.run s as).bind fun s' => m.run s' bs := by
  induction as generalizing s with
  | nil => rfl
  | cons a as ih =>
    rw [List.cons_append, run_cons, run_cons, Option.bind_assoc]
    congr 1
    funext t
    exact ih t

theorem run_append_some {s s' : σ} {as bs : List α} :
    m.run s (as ++ bs) = some s' ↔ ∃ t, m.run s as = some t ∧ m.run t bs = some s' := by
  rw [run_append, Option.bind_eq_some_iff]

/-- Every step of the run meets `C`, a condition on the state before the step and the
action taken. -/
def Meets (C : σ → α → Prop) : σ → List α → Prop
  | _, [] => True
  | s, a :: as => C s a ∧ ∀ t, m.step s a = some t → Meets C t as

/-- **Run lemma.** What every step that meets the condition preserves, every run whose
steps all meet the condition preserves. -/
theorem run_invariant_of_meets {C : σ → α → Prop} {I : σ → Prop}
    (hstep : ∀ s a s', I s → C s a → m.step s a = some s' → I s') {s s' : σ} {as : List α}
    (hmeets : m.Meets C s as) (hrun : m.run s as = some s') (hinit : I s) : I s' := by
  induction as generalizing s with
  | nil =>
    rw [run_nil] at hrun
    exact Option.some.inj hrun ▸ hinit
  | cons a as ih =>
    obtain ⟨t, hst, hts⟩ := m.run_cons_some.mp hrun
    exact ih (hmeets.2 t hst) hts (hstep s a t hinit hmeets.1 hst)

instance instDecidableMeets (C : σ → α → Prop) [∀ s a, Decidable (C s a)] :
    ∀ (s : σ) (as : List α), Decidable (m.Meets C s as)
  | _, [] => isTrue trivial
  | s, a :: as =>
    match h : m.step s a with
    | none => decidable_of_iff (C s a) ⟨fun hc => ⟨hc, fun t ht => by simp [h] at ht⟩, And.left⟩
    | some t =>
      haveI := instDecidableMeets C t as
      decidable_of_iff (C s a ∧ m.Meets C t as)
        ⟨fun hc => ⟨hc.1, fun t' ht => Option.some.inj (h.symm.trans ht) ▸ hc.2⟩,
          fun hc => ⟨hc.1, hc.2 t h⟩⟩

theorem meets_true (s : σ) (as : List α) : m.Meets (fun _ _ => True) s as := by
  induction as generalizing s with
  | nil => trivial
  | cons a as ih => exact ⟨trivial, fun t _ => ih t⟩

/-- A condition on the actions alone. -/
theorem meets_of_forall {C : α → Prop} {as : List α} (h : ∀ a ∈ as, C a) (s : σ) :
    m.Meets (fun _ a => C a) s as := by
  induction as generalizing s with
  | nil => trivial
  | cons a as ih =>
    exact ⟨h a List.mem_cons_self, fun t _ => ih (fun b hb => h b (List.mem_cons_of_mem _ hb)) t⟩

/-- **Run lemma**, for a step lemma without a condition. -/
theorem run_invariant {I : σ → Prop}
    (hstep : ∀ s a s', I s → m.step s a = some s' → I s') {s s' : σ} {as : List α}
    (hrun : m.run s as = some s') (hinit : I s) : I s' :=
  m.run_invariant_of_meets (fun s a s' hs _ => hstep s a s' hs) (m.meets_true s as) hrun hinit

/-- The first step taken, and what is left of the run. -/
theorem meets_cons {C : σ → α → Prop} {s t : σ} {a : α} {as : List α}
    (hstep : m.step s a = some t) : m.Meets C s (a :: as) ↔ C s a ∧ m.Meets C t as := by
  constructor
  · intro h
    exact ⟨h.1, h.2 t hstep⟩
  · intro h
    exact ⟨h.1, fun t' ht' => Option.some.inj (hstep.symm.trans ht') ▸ h.2⟩

/-- A run in two parts. -/
theorem meets_append {C : σ → α → Prop} {s t : σ} {as bs : List α} (hrun : m.run s as = some t) :
    m.Meets C s (as ++ bs) ↔ m.Meets C s as ∧ m.Meets C t bs := by
  induction as generalizing s with
  | nil =>
    obtain rfl := Option.some.inj hrun
    exact ⟨fun h => ⟨trivial, h⟩, fun h => h.2⟩
  | cons a as ih =>
    obtain ⟨u, hstep, hrest⟩ := m.run_cons_some.mp hrun
    rw [List.cons_append, m.meets_cons hstep, m.meets_cons hstep, ih hrest, and_assoc]

theorem Meets.and {C D : σ → α → Prop} {s : σ} {as : List α} (hC : m.Meets C s as)
    (hD : m.Meets D s as) : m.Meets (fun s a => C s a ∧ D s a) s as := by
  induction as generalizing s with
  | nil => trivial
  | cons a as ih => exact ⟨⟨hC.1, hD.1⟩, fun t ht => ih (hC.2 t ht) (hD.2 t ht)⟩

/-- **A condition that is met exactly if an invariant survives.** Steps that meet the condition
keep the invariant; the first one that does not breaks it, and it stays broken. -/
theorem meets_iff_of_breaks {C : σ → α → Prop} {I J : σ → Prop}
    (hkeep : ∀ s a s', I s → C s a → m.step s a = some s' → I s')
    (hbreak : ∀ s a s', I s → ¬ C s a → m.step s a = some s' → J s')
    (hstay : ∀ s a s', J s → m.step s a = some s' → J s') {s s' : σ} {as : List α}
    (hrun : m.run s as = some s') (hinit : I s) (hexcl : I s' → ¬ J s') :
    m.Meets C s as ↔ I s' := by
  refine ⟨fun hmeets => m.run_invariant_of_meets hkeep hmeets hrun hinit, fun hlast => ?_⟩
  induction as generalizing s with
  | nil => trivial
  | cons a as ih =>
    obtain ⟨t, hstep, hrest⟩ := m.run_cons_some.mp hrun
    have hnow : C s a := by
      by_contra hnot
      have hbroken := m.run_invariant hstay hrest (hbreak s a t hinit hnot hstep)
      exact hexcl hlast hbroken
    rw [m.meets_cons hstep]
    exact ⟨hnow, ih hrest (hkeep s a t hinit hnow hstep)⟩

theorem Meets.mono {C D : σ → α → Prop} (h : ∀ s a, C s a → D s a) {s : σ} {as : List α}
    (hm : m.Meets C s as) : m.Meets D s as := by
  induction as generalizing s with
  | nil => trivial
  | cons a as ih => exact ⟨h s a hm.1, fun t ht => ih (hm.2 t ht)⟩

end Machine

end Lib
