import Kurl.Common.Retry
import Mathlib.Tactic.Ring

/-!
# Kurl — backoff strategies (`common/src/retry/backoff_strategy`)

The strategies without randomness, and their schedules. `nthDelay` is the `n`-th delay that a retry
loop obtains (`Retry.obtained_intoFuture`).

An exponential backoff doubles its state and so stays on `base * 2 ^ (n - 1)` until it saturates. A
linear one multiplies by `attempt as u32`, which keeps the low 32 bits of the attempt: its schedule
starts again from zero at `2 ^ 32` (`toNanos_nthDelay_linear`).

Both are compared with their closed forms in nanoseconds. The exponential one has it always, and
never decreases. The linear one has it at an attempt whose low 32 bits are all of it, or saturate
already, and never decreases as far as the attempts fit in 32 bits (`backoff_closedForm_iff`).
-/

namespace Kurl

open Lib

structure NoBackoff where

instance : BackoffStrategy NoBackoff where
  nextBackoff strategy _ := (Duration.zero, strategy)

structure LinearBackoff where
  backoff : Duration

/-- `attempt as u32` keeps the low bits. -/
instance : BackoffStrategy LinearBackoff where
  nextBackoff strategy attempt := (strategy.backoff.saturatingMul attempt.toUInt32, strategy)

structure ExponentialBackoff where
  backoff : Duration

instance : BackoffStrategy ExponentialBackoff where
  nextBackoff strategy _ := (strategy.backoff, ⟨strategy.backoff.saturatingMul 2⟩)

/-- The `n`-th delay, for `n` from one. -/
def nthDelay {BS : Type} [BackoffStrategy BS] (strategy : BS) (n : ℕ) : Duration :=
  Retry.strategyBackoff strategy (n - 1)

/-- No delay of the schedule is shorter than one before it, as far as the `n`-th. -/
def NonDecreasingUpTo {BS : Type} [BackoffStrategy BS] (strategy : BS) (n : ℕ) : Prop :=
  ∀ i j, 1 ≤ i → i ≤ j → j ≤ n → nthDelay strategy i ≤ nthDelay strategy j

/-- `min(n * base, Duration::MAX)` -/
def LinearClosedForm (base : Duration) (n : ℕ) : Prop :=
  (nthDelay (LinearBackoff.mk base) n).toNanos = min (n * base.toNanos) Duration.max.toNanos

/-- `min(base * 2^(n-1), Duration::MAX)` -/
def ExponentialClosedForm (base : Duration) (n : ℕ) : Prop :=
  (nthDelay (ExponentialBackoff.mk base) n).toNanos =
    min (base.toNanos * 2 ^ (n - 1)) Duration.max.toNanos

/-! ## Strategies without a state -/

/-- A strategy that never changes answers by the attempt alone. -/
theorem nthDelay_of_keeps {BS : Type} [BackoffStrategy BS] {strategy : BS}
    (h : ∀ attempt, (BackoffStrategy.nextBackoff strategy attempt).2 = strategy) {n : ℕ}
    (hn : 1 ≤ n) :
    nthDelay strategy n = (BackoffStrategy.nextBackoff strategy (UInt64.ofNat n)).1 := by
  have hattempt : n - 1 + 1 = n := by omega
  have hstate : ∀ i, Retry.strategies strategy i = strategy := by
    intro i
    induction i with
    | zero => rfl
    | succ i ih =>
      show (BackoffStrategy.nextBackoff (Retry.strategies strategy i) _).2 = strategy
      rw [ih]
      exact h _
  unfold nthDelay Retry.strategyBackoff
  rw [hstate, hattempt]

/-! ## Exponential -/

/-- The state after so many delays. -/
theorem toNanos_strategies_exponential (base : Duration) (i : ℕ) :
    (Retry.strategies (ExponentialBackoff.mk base) i).backoff.toNanos =
      min (base.toNanos * 2 ^ i) Duration.max.toNanos := by
  induction i with
  | zero =>
    rw [pow_zero, mul_one, min_eq_left (Duration.toNanos_le_max base)]
    rfl
  | succ i ih =>
    -- a state that is saturated stays so
    have hstep : (Retry.strategies (ExponentialBackoff.mk base) (i + 1)).backoff =
        (Retry.strategies (ExponentialBackoff.mk base) i).backoff.saturatingMul 2 := rfl
    have hpow : base.toNanos * 2 ^ (i + 1) = base.toNanos * 2 ^ i * 2 := by ring
    have htwo : (2 : UInt32).toNat = 2 := rfl
    rw [hstep, Duration.toNanos_saturatingMul, ih, hpow, htwo]
    omega

theorem exponential_closedForm (base : Duration) (n : ℕ) : ExponentialClosedForm base n :=
  toNanos_strategies_exponential base (n - 1)

theorem exponential_nonDecreasing (base : Duration) (n : ℕ) :
    NonDecreasingUpTo (ExponentialBackoff.mk base) n := by
  intro i j _ hij _
  rw [Duration.le_iff, exponential_closedForm base i, exponential_closedForm base j]
  have hpow : 2 ^ (i - 1) ≤ 2 ^ (j - 1) := Nat.pow_le_pow_right (by decide) (by omega)
  exact min_le_min_right _ (Nat.mul_le_mul_left _ hpow)

/-! ## Linear -/

/-- **The linear schedule**: the attempt counts modulo `2 ^ 32`. -/
theorem toNanos_nthDelay_linear (base : Duration) {n : ℕ} (hn : 1 ≤ n) :
    (nthDelay (LinearBackoff.mk base) n).toNanos =
      min (base.toNanos * (n % 2 ^ 32)) Duration.max.toNanos := by
  have hlow : (UInt64.ofNat n).toUInt32.toNat = n % 2 ^ 32 := by
    rw [UInt64.toNat_toUInt32, UInt64.toNat_ofNat']
    omega
  have hdelay : nthDelay (LinearBackoff.mk base) n =
      base.saturatingMul (UInt64.ofNat n).toUInt32 := nthDelay_of_keeps (fun _ => rfl) hn
  rw [hdelay, Duration.toNanos_saturatingMul, hlow]

theorem linear_closedForm_iff (base : Duration) {n : ℕ} (hn : 1 ≤ n) :
    LinearClosedForm base n ↔ base = Duration.zero ∨ n < 2 ^ 32 ∨
      Duration.max.toNanos ≤ n % 2 ^ 32 * base.toNanos := by
  have hzero : base = Duration.zero ↔ base.toNanos = 0 :=
    ⟨fun h => by rw [h]; rfl, fun h => Duration.toNanos_injective h⟩
  have hle : n % 2 ^ 32 * base.toNanos ≤ n * base.toNanos :=
    Nat.mul_le_mul_right _ (Nat.mod_le _ _)
  unfold LinearClosedForm
  rw [toNanos_nthDelay_linear base hn, hzero, mul_comm base.toNanos]
  constructor
  · intro heq
    by_cases hsat : Duration.max.toNanos ≤ n % 2 ^ 32 * base.toNanos
    · exact Or.inr (Or.inr hsat)
    · -- without saturation the two products are equal
      have hmul : n % 2 ^ 32 * base.toNanos = n * base.toNanos := by omega
      rcases Nat.eq_zero_or_pos base.toNanos with hbase | hbase
      · exact Or.inl hbase
      · have hmod : n % 2 ^ 32 = n := Nat.eq_of_mul_eq_mul_right hbase hmul
        exact Or.inr (Or.inl (by omega))
  · rintro (hbase | hlt | hsat)
    · simp [hbase]
    · rw [Nat.mod_eq_of_lt hlt]
    · rw [min_eq_right hsat, min_eq_right (le_trans hsat hle)]

theorem linear_nonDecreasing_iff (base : Duration) (n : ℕ) :
    NonDecreasingUpTo (LinearBackoff.mk base) n ↔ base = Duration.zero ∨ n < 2 ^ 32 := by
  constructor
  · intro hmono
    by_contra hnot
    obtain ⟨hbase, hn⟩ := not_or.mp hnot
    -- the first delay is the base, and the one at `2 ^ 32` is zero
    have hle := Duration.le_iff.mp (hmono 1 (2 ^ 32) (le_refl 1) (by decide) (by omega))
    rw [toNanos_nthDelay_linear base (le_refl 1),
      toNanos_nthDelay_linear base (by decide)] at hle
    have hmax := Duration.toNanos_le_max base
    have hpos : base.toNanos = 0 := by
      simp only [Nat.mod_self, mul_zero] at hle
      omega
    exact hbase (Duration.toNanos_injective hpos)
  · rintro hcond i j hi hij hj
    have hiform : LinearClosedForm base i :=
      (linear_closedForm_iff base hi).mpr (hcond.imp_right fun hn => Or.inl (by omega))
    have hjform : LinearClosedForm base j :=
      (linear_closedForm_iff base (le_trans hi hij)).mpr
        (hcond.imp_right fun hn => Or.inl (by omega))
    rw [Duration.le_iff, hiform, hjform]
    exact min_le_min_right _ (Nat.mul_le_mul_right _ hij)

/-! ## The schedules -/

/-- **Where the schedules match their closed forms.** The exponential one always does; the linear
one at an attempt whose low 32 bits are all of it or saturate already, and it is non-decreasing as
far as the attempts fit in 32 bits. -/
theorem backoff_closedForm_iff (base : Duration) {n : ℕ} (hn : 1 ≤ n) :
    (LinearClosedForm base n ∧ ExponentialClosedForm base n ↔
      base = Duration.zero ∨ n < 2 ^ 32 ∨
        Duration.max.toNanos ≤ n % 2 ^ 32 * base.toNanos) ∧
    (NonDecreasingUpTo (LinearBackoff.mk base) n ∧
      NonDecreasingUpTo (ExponentialBackoff.mk base) n ↔
      base = Duration.zero ∨ n < 2 ^ 32) := by
  rw [← linear_closedForm_iff base hn, ← linear_nonDecreasing_iff base n]
  exact ⟨and_iff_left (exponential_closedForm base n),
    and_iff_left (exponential_nonDecreasing base n)⟩

/-- One second. -/
def secondBackoff : Duration := Duration.fromSecs 1

/-- The delay before retry `2 ^ 32` of a linear backoff of a second is zero. -/
theorem linear_wraps_at_two_pow_32 :
    (nthDelay (LinearBackoff.mk secondBackoff) (2 ^ 32)).toNanos = 0 ∧
      ¬ LinearClosedForm secondBackoff (2 ^ 32) ∧
      ¬ NonDecreasingUpTo (LinearBackoff.mk secondBackoff) (2 ^ 32) := by
  have hdelay : (nthDelay (LinearBackoff.mk secondBackoff) (2 ^ 32)).toNanos = 0 := by
    rw [toNanos_nthDelay_linear secondBackoff (by decide)]
    decide
  have hfirst : (nthDelay (LinearBackoff.mk secondBackoff) 1).toNanos = 1000000000 := by decide
  refine ⟨hdelay, ?_, ?_⟩
  · unfold LinearClosedForm
    rw [hdelay]
    decide
  · intro hmono
    have hle := Duration.le_iff.mp (hmono 1 (2 ^ 32) (le_refl 1) (by decide) (le_refl _))
    rw [hdelay, hfirst] at hle
    exact absurd hle (by decide)

theorem backoff_closedForm_iff_secondBackoff :
    LinearClosedForm secondBackoff 3 ∧ ¬ LinearClosedForm secondBackoff (2 ^ 32) := by
  have hthree := (backoff_closedForm_iff secondBackoff (n := 3) (by decide)).1
  have hwrap := (backoff_closedForm_iff secondBackoff (n := 2 ^ 32) (by decide)).1
  refine ⟨(hthree.mpr (Or.inr (Or.inl (by decide)))).1, fun hlinear => ?_⟩
  have hcond := hwrap.mp ⟨hlinear, exponential_closedForm secondBackoff _⟩
  exact absurd hcond (by decide)

end Kurl
