/-!
# Commands whose errors keep their effects

A program over a store that is not rolled back: a command takes a state to a state and a result,
and an error ends the program in the state its earlier commands left. That is `ExceptT` *over*
`StateM`.

`Keeps` is the frame rule: a part of the state that no command writes is the same after the
program, however it ends. `Ensures` is a postcondition on both ends, with one rule for each
construct. `Refines` relates two such programs over different stores.

A command that leaves early is thereby treated like any other: the rules for `bind` have a case for
each end of its first command, so a program is followed from its first command to its last with one
lemma for each.
-/

namespace Lib

abbrev Command (ε σ α : Type) := ExceptT ε (StateM σ) α

namespace Command

variable {ε σ α β γ : Type}

def exec (x : Command ε σ α) (s : σ) : Except ε α × σ := x.run.run s

theorem exec_bind (x : Command ε σ α) (f : α → Command ε σ β) (s : σ) :
    (x >>= f).exec s = match x.exec s with
      | (.ok a, s') => (f a).exec s'
      | (.error e, s') => (.error e, s') := by
  show ExceptT.bindCont f (x.exec s).1 (x.exec s).2 = _
  cases x.exec s with
  | mk result s' => cases result <;> rfl

theorem exec_bind_ok {x : Command ε σ α} {f : α → Command ε σ β} {s s' : σ} {a : α}
    (h : x.exec s = (.ok a, s')) : (x >>= f).exec s = (f a).exec s' := by
  rw [exec_bind, h]

theorem exec_bind_error {x : Command ε σ α} {f : α → Command ε σ β} {s s' : σ} {e : ε}
    (h : x.exec s = (.error e, s')) : (x >>= f).exec s = (.error e, s') := by
  rw [exec_bind, h]

/-- A program that succeeded did so in each of its parts. -/
theorem exec_bind_eq_ok {x : Command ε σ α} {f : α → Command ε σ β} {s s' : σ} {b : β}
    (h : (x >>= f).exec s = (.ok b, s')) :
    ∃ a s₁, x.exec s = (.ok a, s₁) ∧ (f a).exec s₁ = (.ok b, s') := by
  rw [exec_bind] at h
  cases hexec : x.exec s with
  | mk result s₁ =>
    rw [hexec] at h
    cases result with
    | error e => cases h
    | ok a => exact ⟨a, s₁, rfl, h⟩

@[simp] theorem exec_pure (a : α) (s : σ) : (pure a : Command ε σ α).exec s = (.ok a, s) := rfl

@[simp] theorem exec_throw (e : ε) (s : σ) :
    (throw e : Command ε σ α).exec s = (.error e, s) := rfl

/-- The program leaves this part of the state alone. -/
def Keeps (f : σ → γ) (x : Command ε σ α) : Prop := ∀ s, f (x.exec s).2 = f s

theorem Keeps.pure (f : σ → γ) (a : α) : Keeps f (Pure.pure a : Command ε σ α) := fun _ => rfl

theorem Keeps.throw (f : σ → γ) (e : ε) : Keeps f (MonadExcept.throw e : Command ε σ α) :=
  fun _ => rfl

theorem Keeps.bind {f : σ → γ} {x : Command ε σ α} {g : α → Command ε σ β} (hx : Keeps f x)
    (hg : ∀ a, Keeps f (g a)) : Keeps f (x >>= g) := by
  intro s
  have hfirst := hx s
  rw [exec_bind]
  cases hexec : x.exec s with
  | mk result s' =>
    rw [hexec] at hfirst
    cases result with
    | error e => exact hfirst
    | ok a => exact (hg a s').trans hfirst

/-! ## Postconditions -/

/-- The program, started in this state, ends with a result and a state of this kind. -/
def Ensures (x : Command ε σ α) (s : σ) (Q : Except ε α → σ → Prop) : Prop :=
  Q (x.exec s).1 (x.exec s).2

/-- What the first part leaves is the end, or where the rest starts. -/
theorem Ensures.bind {x : Command ε σ α} {f : α → Command ε σ β} {s : σ}
    {P : Except ε α → σ → Prop} {Q : Except ε β → σ → Prop} (hx : x.Ensures s P)
    (hend : ∀ e s', P (.error e) s' → Q (.error e) s')
    (hrest : ∀ a s', P (.ok a) s' → (f a).Ensures s' Q) : (x >>= f).Ensures s Q := by
  unfold Ensures at hx ⊢
  rw [exec_bind]
  cases hexec : x.exec s with
  | mk result s' =>
    rw [hexec] at hx
    cases result with
    | error e => exact hend e s' hx
    | ok a => exact hrest a s' hx

/-! ## Refinement -/

section Refines

variable {ε' τ α' β' : Type}

/-- Results that belong together: both values or both errors. -/
def ResultRel (E : ε → ε' → Prop) (R : α → α' → Prop) : Except ε α → Except ε' α' → Prop
  | .ok a, .ok a' => R a a'
  | .error e, .error e' => E e e'
  | _, _ => False

/-- From related states the programs end in related states, with related results. -/
def Refines (S : σ → τ → Prop) (E : ε → ε' → Prop) (R : α → α' → Prop) (x : Command ε σ α)
    (y : Command ε' τ α') : Prop :=
  ∀ s t, S s t → ResultRel E R (x.exec s).1 (y.exec t).1 ∧ S (x.exec s).2 (y.exec t).2

variable {S : σ → τ → Prop} {E : ε → ε' → Prop} {R : α → α' → Prop} {R' : β → β' → Prop}

theorem Refines.pure {a : α} {a' : α'} (h : R a a') :
    Refines S E R (Pure.pure a : Command ε σ α) (Pure.pure a' : Command ε' τ α') :=
  fun _ _ hs => ⟨h, hs⟩

/-- Programs are refined part by part. -/
theorem Refines.bind {x : Command ε σ α} {y : Command ε' τ α'} {f : α → Command ε σ β}
    {g : α' → Command ε' τ β'} (hx : Refines S E R x y)
    (hf : ∀ a a', R a a' → Refines S E R' (f a) (g a')) : Refines S E R' (x >>= f) (y >>= g) := by
  intro s t hs
  obtain ⟨hresult, hstate⟩ := hx s t hs
  rw [exec_bind, exec_bind]
  cases hexec : x.exec s with
  | mk result s' =>
    cases hexec' : y.exec t with
    | mk result' t' =>
      rw [hexec, hexec'] at hresult hstate
      cases result with
      | error e =>
        cases result' with
        | error e' => exact ⟨hresult, hstate⟩
        | ok a' => exact absurd hresult id
      | ok a =>
        cases result' with
        | error e' => exact absurd hresult id
        | ok a' => exact hf a a' hresult s' t' hstate

end Refines

end Command

end Lib
