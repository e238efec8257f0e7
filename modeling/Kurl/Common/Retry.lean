import Kurl.Lib.Duration
import Kurl.Lib.RangeInclusive
import Kurl.Wire

/-!
# Kurl — retries (`common/src/retry/mod.rs`)

`Retry::into_future` with everything it does recorded: the calls of the operation, of the backoff
strategy and of the callback, and the sleeps. The operation is its sequence of outcomes, the
strategy any state with a `next_backoff`, and the loop the one over `0..=max_retries`, whose
`unreachable!()` and whose `attempt + 1` panic here.

`FollowsSpecification` says what a run has to be, in the words of the callers: how often the
operation is called, what comes of it, and which events lie between two calls (`SpecifiedEvents`).
It uses none of the functions that the loop computes with.

On the side of the loop, `round` is one failed call with all that follows it, `states` the loop's
state before each call, and there are two lemmas about one pass of the body: one for a call that is
not the last (`body_states`) and one for the last (`body_last`). The rule of the loop puts them
together (`intoFuture_eq`), and `specifiedEvents` compares the trace with the specification.
-/

namespace Kurl

open Lib

/-- `BackoffStrategy`: a call may change the strategy. A `usize` has 64 bits. -/
class BackoffStrategy (BS : Type) where
  nextBackoff : BS → UInt64 → Duration × BS

structure RetryConfig (BS : Type) where
  backoffStrategy : BS
  maxDelay : Option Duration
  maxRetries : UInt64

/-- `Retry`. The operation is given by the outcomes of its calls, in order; a call without an
outcome never completes. -/
structure Retry (BS ε τ : Type) where
  f : ℕ → Option (Except ε τ)
  config : RetryConfig BS
  /-- Whether there is a callback. -/
  onRetry : Bool

/-- What the loop does, as the outside sees it. -/
inductive RetryEvent (ε : Type) where
  | call
  | nextBackoff (attempt : UInt64) (backoff : Duration)
  | onRetry (attempt : UInt64) (backoff : Duration) (err : ε)
  | sleep (backoff : Duration)
  deriving DecidableEq

def RetryEvent.isCall {ε : Type} : RetryEvent ε → Bool
  | .call => true
  | _ => false

/-- The delay that the strategy answered. -/
def RetryEvent.obtained {ε : Type} : RetryEvent ε → Option Duration
  | .nextBackoff _ strategyBackoff => some strategyBackoff
  | _ => none

/-- What becomes of the future. -/
inductive RetryEnd (ε τ : Type) where
  | pending
  | returned (result : Except ε τ)
  | panicked (panic : Panic)

structure RetryState (BS ε : Type) where
  calls : ℕ
  backoffStrategy : BS
  trace : List (RetryEvent ε)

/-- `attempt + 1`, with the overflow check of a debug build. -/
def nextAttempt (attempt : UInt64) : Panics UInt64 :=
  if attempt.toNat + 1 < 2 ^ 64 then .ok (attempt + 1)
  else .error ⟨"attempt to add with overflow"⟩

namespace Retry

variable {BS ε τ : Type} [BackoffStrategy BS]

/-- `max_delay.map_or(strategy_backoff, |max| min(max, strategy_backoff))` -/
def backoff (config : RetryConfig BS) (strategyBackoff : Duration) : Duration :=
  config.maxDelay.elim strategyBackoff fun max => min max strategyBackoff

/-- What follows a failed call: the strategy, the callback, the sleep. -/
def events (r : Retry BS ε τ) (attempt next : UInt64) (strategyBackoff : Duration) (err : ε) :
    List (RetryEvent ε) :=
  [.nextBackoff next strategyBackoff] ++
    (if r.onRetry then [.onRetry attempt (backoff r.config strategyBackoff) err] else []) ++
    [.sleep (backoff r.config strategyBackoff)]

/-- The body of the loop. It exits with the end of the future, or goes on. -/
def body (r : Retry BS ε τ) (st : RetryState BS ε) (attempt : UInt64) :
    RetryState BS ε × Option (RetryEnd ε τ) :=
  let called := { st with
    calls := st.calls + 1
    trace := st.trace ++ [.call] }
  match r.f st.calls with
  | none => (called, some .pending)
  | some (.ok result) => (called, some (.returned (.ok result)))
  | some (.error err) =>
    if attempt < r.config.maxRetries then
      match nextAttempt attempt with
      | .error panic => (called, some (.panicked panic))
      | .ok next =>
        let (strategyBackoff, strategy) := BackoffStrategy.nextBackoff st.backoffStrategy next
        ({ called with
          backoffStrategy := strategy
          trace := called.trace ++ r.events attempt next strategyBackoff err }, none)
    else (called, some (.returned (.error err)))

/-- `Retry::into_future`, run to its end. -/
def intoFuture (r : Retry BS ε τ) : RetryState BS ε × RetryEnd ε τ :=
  match (RangeInclusive.new 0 r.config.maxRetries).forEach r.body
      ⟨0, r.config.backoffStrategy, []⟩ with
  | (st, some done) => (st, done)
  | (st, none) => (st, .panicked ⟨"internal error: entered unreachable code"⟩)

/-! ## The specification -/

def Fails (r : Retry BS ε τ) (i : ℕ) : Prop := ∃ err, r.f i = some (.error err)

/-- The number of failures before the first call that does not fail. -/
noncomputable def failures (r : Retry BS ε τ) : ℕ∞ := leading r.Fails

/-- The events of a run with `m` retries. `state i` is the strategy before it is asked for the
`i + 1`st time, `answer i` is what it answers and `delay i` what is left of that under the maximal
delay. -/
structure SpecifiedEvents (r : Retry BS ε τ) (m : ℕ) (st : RetryState BS ε) (state : ℕ → BS)
    (answer delay : ℕ → Duration) (rounds : List (List (RetryEvent ε))) : Prop where
  initial : state 0 = r.config.backoffStrategy
  /-- The attempts are numbered from one for the strategy, and each answer is given in the state that
  the answer before it left. -/
  asked : ∀ i < m, BackoffStrategy.nextBackoff (state i) (UInt64.ofNat (i + 1)) =
    (answer i, state (i + 1))
  capped : ∀ i < m, (∀ max, r.config.maxDelay = some max → delay i = min max (answer i)) ∧
    (r.config.maxDelay = none → delay i = answer i)
  retries : rounds.length = m
  /-- After call `i + 1` has failed: the strategy is asked, the callback hears of the attempt from
  zero, the delay and the error, once, and exactly the delay is slept. -/
  round : ∀ i < m, ∃ err, r.f i = some (.error err) ∧ rounds[i]? = some
    ([.call, .nextBackoff (UInt64.ofNat (i + 1)) (answer i)] ++
      (if r.onRetry then [.onRetry (UInt64.ofNat i) (delay i) err] else []) ++ [.sleep (delay i)])
  /-- Nothing happens after the last call. -/
  trace : st.trace = rounds.flatten ++ [.call]
  /-- The strategy has not been asked again either. -/
  last : st.backoffStrategy = state m

/-- What a run has to be. With `k` failures before the first success and `n` retries it calls the
operation `min k n + 1` times, ends as that success if it is reached and with the last error
otherwise, and does nothing else than `SpecifiedEvents` says. -/
structure FollowsSpecification (r : Retry BS ε τ) (run : RetryState BS ε × RetryEnd ε τ) :
    Prop where
  calls : (run.1.trace.countP RetryEvent.isCall : ℕ∞) =
    min r.failures r.config.maxRetries.toNat + 1
  /-- A call that never completes ends the sequence of outcomes, and the future waits for it. -/
  succeeds : ∀ k : ℕ, r.failures = k → k ≤ r.config.maxRetries.toNat →
    (∃ result, r.f k = some (.ok result) ∧ run.2 = .returned (.ok result)) ∨
      (r.f k = none ∧ run.2 = .pending)
  fails : (r.config.maxRetries.toNat : ℕ∞) < r.failures →
    ∃ err, r.f r.config.maxRetries.toNat = some (.error err) ∧ run.2 = .returned (.error err)
  events : ∀ m : ℕ, (m : ℕ∞) = min r.failures r.config.maxRetries.toNat →
    ∃ state answer delay rounds, r.SpecifiedEvents m run.1 state answer delay rounds
  /-- No counter overflows, and `unreachable!()` is not reached. -/
  noPanic : ∀ panic, run.2 ≠ .panicked panic

/-! ## The run -/

/-- The strategy after so many calls of it, which are numbered from one. -/
def strategies (strategy : BS) : ℕ → BS
  | 0 => strategy
  | i + 1 => (BackoffStrategy.nextBackoff (strategies strategy i) (UInt64.ofNat (i + 1))).2

/-- `next_backoff(i + 1)`: what the strategy answers when it is asked for the `i + 1`st time. -/
def strategyBackoff (strategy : BS) (i : ℕ) : Duration :=
  (BackoffStrategy.nextBackoff (strategies strategy i) (UInt64.ofNat (i + 1))).1

/-- One failed call, and what follows it before the next one. -/
def round (r : Retry BS ε τ) (i : ℕ) : List (RetryEvent ε) :=
  match r.f i with
  | some (.error err) =>
    .call :: r.events (UInt64.ofNat i) (UInt64.ofNat (i + 1))
      (strategyBackoff r.config.backoffStrategy i) err
  | _ => []

/-- The state of the loop before the call with this index. -/
def states (r : Retry BS ε τ) (i : ℕ) : RetryState BS ε :=
  ⟨i, strategies r.config.backoffStrategy i, (List.range i).flatMap r.round⟩

theorem nextAttempt_ofNat {i : ℕ} (h : i + 1 < 2 ^ 64) :
    nextAttempt (UInt64.ofNat i) = .ok (UInt64.ofNat (i + 1)) := by
  have hword : (UInt64.ofNat i).toNat = i :=
    UInt64.toNat_ofNat_of_lt' (lt_of_le_of_lt (Nat.le_succ i) h)
  unfold nextAttempt
  rw [if_pos (by rw [hword]; exact h), UInt64.ofNat_add]
  rfl

section Run

variable {r : Retry BS ε τ}

/-- **A failed call with a retry left**: the loop goes on, one round later. -/
theorem body_states {i : ℕ} (hfails : r.Fails i) (hi : i < r.config.maxRetries.toNat) :
    r.body (r.states i) (UInt64.ofNat i) = (r.states (i + 1), none) := by
  obtain ⟨err, herr⟩ := hfails
  have hmax := r.config.maxRetries.toNat_lt
  have hlt : UInt64.ofNat i < r.config.maxRetries := by
    rw [UInt64.lt_iff_toNat_lt, UInt64.toNat_ofNat_of_lt' (lt_trans hi hmax)]
    exact hi
  have hround : r.round i = .call :: r.events (UInt64.ofNat i) (UInt64.ofNat (i + 1))
      (strategyBackoff r.config.backoffStrategy i) err := by
    unfold round
    rw [herr]
  unfold body
  simp only [states, herr, if_pos hlt, nextAttempt_ofNat (show i + 1 < 2 ^ 64 by omega)]
  rw [List.range_succ, List.flatMap_append, List.flatMap_singleton, hround]
  simp [strategies, strategyBackoff]

/-- **The last call**: it did not fail, or there is no retry left. -/
theorem body_last {m : ℕ} (hlast : r.Fails m → m = r.config.maxRetries.toNat) :
    r.body (r.states m) (UInt64.ofNat m) =
      (⟨m + 1, strategies r.config.backoffStrategy m,
        (List.range m).flatMap r.round ++ [.call]⟩,
      some (match r.f m with
        | none => .pending
        | some result => .returned result)) := by
  unfold body
  cases hf : r.f m with
  | none => simp only [states, hf]
  | some outcome =>
    cases outcome with
    | ok result => simp only [states, hf]
    | error err =>
      have hlt : ¬ UInt64.ofNat m < r.config.maxRetries := by
        rw [hlast ⟨err, hf⟩, UInt64.ofNat_toNat]
        exact UInt64.lt_irrefl _
      simp only [states, hf, if_neg hlt]

omit [BackoffStrategy BS] in
/-- Where the run ends: after the failures, or with the last retry. -/
theorem exists_last (r : Retry BS ε τ) : ∃ m : ℕ,
    (m : ℕ∞) = min r.failures r.config.maxRetries.toNat ∧ m ≤ r.config.maxRetries.toNat ∧
      (∀ i < m, r.Fails i) ∧ (r.Fails m → m = r.config.maxRetries.toNat) := by
  rcases le_total r.failures r.config.maxRetries.toNat with hle | hle
  · obtain ⟨k, hk⟩ := ENat.ne_top_iff_exists.mp
      (ne_of_lt (lt_of_le_of_lt hle (ENat.natCast_lt_top _)))
    refine ⟨k, ?_, ?_, ?_, ?_⟩
    · rw [min_eq_left hle, hk]
    · exact Nat.cast_le.mp (hk ▸ hle)
    · exact le_leading_iff.mp (le_of_eq hk)
    · exact fun hfails => absurd hfails (not_of_leading_eq hk.symm)
  · exact ⟨_, (min_eq_right hle).symm, le_refl _, le_leading_iff.mp hle, fun _ => rfl⟩

/-- The run, up to its last call. -/
theorem intoFuture_eq {m : ℕ} (hm : m ≤ r.config.maxRetries.toNat) (hfails : ∀ i < m, r.Fails i)
    (hlast : r.Fails m → m = r.config.maxRetries.toNat) :
    r.intoFuture = (⟨m + 1, strategies r.config.backoffStrategy m,
        (List.range m).flatMap r.round ++ [.call]⟩,
      match r.f m with
      | none => .pending
      | some result => .returned result) := by
  have hloop := RangeInclusive.forEach_exits hm
    (fun i hi => body_states (hfails i hi) (lt_of_lt_of_le hi hm)) (body_last hlast)
  have hstart : r.states 0 = ⟨0, r.config.backoffStrategy, []⟩ := rfl
  unfold intoFuture
  rw [← hstart, hloop]

/-- A round has one call in it. -/
theorem countP_round {i : ℕ} (h : r.Fails i) : (r.round i).countP RetryEvent.isCall = 1 := by
  obtain ⟨err, herr⟩ := h
  unfold round events
  rw [herr]
  cases r.onRetry <;> rfl

theorem countP_rounds {m : ℕ} (h : ∀ i < m, r.Fails i) :
    ((List.range m).flatMap r.round).countP RetryEvent.isCall = m := by
  induction m with
  | zero => rfl
  | succ m ih =>
    rw [List.range_succ, List.flatMap_append, List.flatMap_singleton, List.countP_append,
      ih fun i hi => h i (by omega), countP_round (h m (by omega))]

/-- **The delays the loop obtains** are those of the strategy, one for each failed call. -/
theorem obtained_rounds {m : ℕ} (h : ∀ i < m, r.Fails i) :
    ((List.range m).flatMap r.round).filterMap RetryEvent.obtained =
      (List.range m).map (strategyBackoff r.config.backoffStrategy) := by
  induction m with
  | zero => rfl
  | succ m ih =>
    have hround : (r.round m).filterMap RetryEvent.obtained =
        [strategyBackoff r.config.backoffStrategy m] := by
      obtain ⟨err, herr⟩ := h m (by omega)
      unfold round events
      rw [herr]
      cases r.onRetry <;> rfl
    rw [List.range_succ, List.flatMap_append, List.flatMap_singleton, List.filterMap_append,
      ih fun i hi => h i (by omega), hround, List.map_append, List.map_singleton]

/-- The loop's events are the specified ones, after `m` failed calls. -/
theorem specifiedEvents {m : ℕ} (hfails : ∀ i < m, r.Fails i) :
    r.SpecifiedEvents m
      ⟨m + 1, strategies r.config.backoffStrategy m, (List.range m).flatMap r.round ++ [.call]⟩
      (strategies r.config.backoffStrategy) (strategyBackoff r.config.backoffStrategy)
      (fun i => backoff r.config (strategyBackoff r.config.backoffStrategy i))
      ((List.range m).map r.round) where
  initial := rfl
  asked := fun i _ => rfl
  capped := by
    intro i _
    unfold backoff
    constructor
    · intro max hmax
      rw [hmax, Option.elim_some]
    · intro hnone
      rw [hnone, Option.elim_none]
  retries := by rw [List.length_map, List.length_range]
  round := by
    intro i hi
    obtain ⟨err, herr⟩ := hfails i hi
    refine ⟨err, herr, ?_⟩
    rw [List.getElem?_map, List.getElem?_range hi, Option.map_some]
    unfold round
    rw [herr]
    rfl
  trace := by rw [List.flatMap_def]
  last := rfl

end Run

/-- **The retry loop follows its specification**, for every operation, strategy, number of retries
and maximal delay. -/
theorem intoFuture_followsSpecification (r : Retry BS ε τ) :
    r.FollowsSpecification r.intoFuture := by
  obtain ⟨m, hmin, hm, hfails, hlast⟩ := r.exists_last
  rw [intoFuture_eq hm hfails hlast]
  constructor
  case calls =>
    rw [← hmin, List.countP_append, countP_rounds hfails]
    exact Nat.cast_add m 1
  case succeeds =>
    intro k hk hle
    have hkm : k = m := by
      rw [hk, min_eq_left (Nat.cast_le.mpr hle)] at hmin
      exact (Nat.cast_inj.mp hmin).symm
    subst hkm
    have hnot := not_of_leading_eq hk
    cases hf : r.f k with
    | none => exact Or.inr ⟨rfl, rfl⟩
    | some outcome =>
      cases outcome with
      | ok result => exact Or.inl ⟨result, rfl, rfl⟩
      | error err => exact absurd ⟨err, hf⟩ hnot
  case fails =>
    intro hlt
    have hkm : m = r.config.maxRetries.toNat := by
      rw [min_eq_right (le_of_lt hlt)] at hmin
      exact Nat.cast_inj.mp hmin
    obtain ⟨err, herr⟩ : r.Fails r.config.maxRetries.toNat :=
      le_leading_iff.mp (Order.add_one_le_of_lt hlt) _ (Nat.lt_succ_self _)
    refine ⟨err, herr, ?_⟩
    rw [hkm, herr]
  case events =>
    intro m' hm'
    obtain rfl : m' = m := Nat.cast_inj.mp (hm'.trans hmin.symm)
    exact ⟨_, _, _, _, specifiedEvents hfails⟩
  case noPanic =>
    intro panic
    cases r.f m <;> exact fun h => by cases h

/-- A run asks the strategy once before each retry, and takes what it answers. -/
theorem obtained_intoFuture (r : Retry BS ε τ) {m : ℕ}
    (hm : (m : ℕ∞) = min r.failures r.config.maxRetries.toNat) :
    r.intoFuture.1.trace.filterMap RetryEvent.obtained =
      (List.range m).map (strategyBackoff r.config.backoffStrategy) := by
  obtain ⟨m', hmin, hle, hfails, hlast⟩ := r.exists_last
  obtain rfl : m = m' := Nat.cast_inj.mp (hm.trans hmin.symm)
  have htrace : r.intoFuture.1.trace = (List.range m).flatMap r.round ++ [.call] := by
    rw [intoFuture_eq hle hfails hlast]
  rw [htrace, List.filterMap_append, obtained_rounds hfails]
  exact List.append_nil _

end Retry

end Kurl
