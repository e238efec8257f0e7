import Kurl.Lib.Machine

/-!
# Simulations between machines

A machine `m` is simulated by a machine `n` when every step of `m` is matched by a *run* of `n`:
by no step at all where `m` moves something that `n` does not have, by one step, or by several.
`Machine.run_simulates` lifts this to whole runs. The run of `n` comes in blocks, one for each
action of `m` and in their order, so that what a block says of its action can be read off the whole
run: which actions occur in it (`exists_of_mem_flatten`), or which ones, in which order, where only
some of them can be seen (`filter_flatten`).

Two more rules for runs: `Machine.always_iff_meets`, for a condition on the steps that is met exactly
if an invariant holds all along, and `Machine.run_bounded`, for counting the steps of a run along
which a potential goes down.
-/

namespace Lib

section Blocks

variable {α β : Type} {as : List α} {bss : List (List β)}

/-- What occurs in the blocks occurs for one of the actions. -/
theorem exists_of_mem_flatten {L : α → β → Prop}
    (h : List.Forall₂ (fun a bs => ∀ b ∈ bs, L a b) as bss) {b : β} (hb : b ∈ bss.flatten) :
    ∃ a ∈ as, L a b := by
  induction h with
  | nil => cases hb
  | @cons a bs as bss hfirst _ ih =>
    rw [List.flatten_cons] at hb
    rcases List.mem_append.mp hb with hb | hb
    · exact ⟨a, List.mem_cons_self, hfirst b hb⟩
    · obtain ⟨a', ha', hL⟩ := ih hb
      exact ⟨a', List.mem_cons_of_mem a ha', hL⟩

/-- What can be seen in the blocks is what can be seen of the actions, in their order. -/
theorem filter_flatten {p : β → Bool} {f : α → Option β}
    (h : List.Forall₂ (fun a bs => bs.filter p = (f a).toList) as bss) :
    bss.flatten.filter p = as.filterMap f := by
  induction h with
  | nil => rfl
  | @cons a bs as bss hfirst _ ih =>
    rw [List.flatten_cons, List.filter_append, hfirst, ih]
    cases hf : f a with
    | none => rw [List.filterMap_cons_none hf, Option.toList_none, List.nil_append]
    | some b => rw [List.filterMap_cons_some hf, Option.toList_some, List.singleton_append]

end Blocks

namespace Machine

variable {σ τ α β : Type} {m : Machine σ α} {n : Machine τ β}

/-- **Run lemma for simulations.** `R` relates the states, `C` and `D` are conditions on the steps
of `m` and of `n`, and `L` relates an action of `m` to the block of actions of `n` that matches
it. -/
theorem run_simulates {C : σ → α → Prop} {D : τ → β → Prop} {R : σ → τ → Prop}
    {L : α → List β → Prop}
    (hstep : ∀ s a s' t, R s t → C s a → m.step s a = some s' →
      ∃ bs t', n.run t bs = some t' ∧ R s' t' ∧ n.Meets D t bs ∧ L a bs)
    {s s' : σ} {t : τ} {as : List α} (hmeets : m.Meets C s as) (hrun : m.run s as = some s')
    (hinit : R s t) :
    ∃ bss t', n.run t bss.flatten = some t' ∧ R s' t' ∧ n.Meets D t bss.flatten ∧
      List.Forall₂ L as bss := by
  induction as generalizing s t with
  | nil =>
    obtain rfl := Option.some.inj hrun
    exact ⟨[], t, rfl, hinit, trivial, .nil⟩
  | cons a as ih =>
    obtain ⟨u, hfirst, hrest⟩ := m.run_cons_some.mp hrun
    obtain ⟨bs, t₁, hbs, hR, hD, hL⟩ := hstep s a u t hinit hmeets.1 hfirst
    obtain ⟨bss, t₂, hbss, hR', hD', hL'⟩ := ih (hmeets.2 u hfirst) hrest hR
    refine ⟨bs :: bss, t₂, ?_, hR', ?_, .cons hL hL'⟩
    · exact n.run_append_some.mpr ⟨t₁, hbs, hbss⟩
    · exact (n.meets_append hbs).mpr ⟨hD, hD'⟩

/-- **An invariant that holds all along exactly if every step meets the condition.** -/
theorem always_iff_meets {C : σ → α → Prop} {I : σ → Prop}
    (hkeep : ∀ s a s', I s → C s a → m.step s a = some s' → I s')
    (hbreak : ∀ s a s', I s → ¬ C s a → m.step s a = some s' → ¬ I s') {s s' : σ} {as : List α}
    (hrun : m.run s as = some s') (hinit : I s) :
    (∀ bs t, bs <+: as → m.run s bs = some t → I t) ↔ m.Meets C s as := by
  induction as generalizing s with
  | nil =>
    refine ⟨fun _ => trivial, fun _ bs t hbs ht => ?_⟩
    obtain rfl := List.prefix_nil.mp hbs
    obtain rfl := Option.some.inj ht
    exact hinit
  | cons a as ih =>
    obtain ⟨u, hfirst, hrest⟩ := m.run_cons_some.mp hrun
    rw [m.meets_cons hfirst]
    constructor
    · intro halways
      have hu : I u := halways [a] u ⟨as, rfl⟩ (m.run_cons_some.mpr ⟨u, hfirst, rfl⟩)
      have hnow : C s a := by
        by_contra hnot
        exact hbreak s a u hinit hnot hfirst hu
      refine ⟨hnow, (ih hrest hu).mp fun bs t hbs ht => ?_⟩
      exact halways (a :: bs) t (List.prefix_cons_inj a |>.mpr hbs)
        (m.run_cons_some.mpr ⟨u, hfirst, ht⟩)
    · rintro ⟨hnow, hlater⟩ bs t hbs ht
      cases bs with
      | nil =>
        obtain rfl := Option.some.inj ht
        exact hinit
      | cons b bs =>
        obtain ⟨rfl, hprefix⟩ := List.cons_prefix_cons.mp hbs
        obtain ⟨v, hv, hvt⟩ := m.run_cons_some.mp ht
        obtain rfl := Option.some.inj (hfirst.symm.trans hv)
        exact (ih hrest (hkeep s b u hinit hnow hfirst)).mpr hlater bs t hprefix hvt

/-- **Counting rule.** Where every step that is counted lowers the potential by one and no step
raises it, a run has at most as many counted steps as the potential of its first state. -/
theorem run_bounded {I : σ → Prop} (counted : α → Bool) (potential : σ → Nat)
    (hkeep : ∀ s a s', I s → m.step s a = some s' → I s')
    (hstep : ∀ s a s', I s → m.step s a = some s' →
      potential s' + (if counted a then 1 else 0) ≤ potential s)
    {s s' : σ} {as : List α} (hrun : m.run s as = some s') (hinit : I s) :
    potential s' + as.countP counted ≤ potential s := by
  induction as generalizing s with
  | nil =>
    obtain rfl := Option.some.inj hrun
    exact le_refl _
  | cons a as ih =>
    obtain ⟨u, hfirst, hrest⟩ := m.run_cons_some.mp hrun
    have hnow := hstep s a u hinit hfirst
    have hlater := ih hrest (hkeep s a u hinit hfirst)
    rw [List.countP_cons]
    omega

end Machine

end Lib
