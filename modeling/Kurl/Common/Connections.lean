import Mathlib.Data.Rat.Defs
import Kurl.Common.Backoff

/-!
# Kurl — connecting (`common/src/connections.rs`)

Before a service serves anything it connects to its neighbours, each by the retry loop with an
exponential backoff under jitter. The random numbers and the floating-point product are parameters
(`Rng`), the arms of `JitterTy::jitter` are not. About `JitterTy::Equal` it is assumed that a delay
becomes at least its half and at most itself (`Rng.KeepsHalf`), for the delays that occur: the
number drawn is from one half to one, and the delays are powers of two times an eighth of a second,
so the product of the code is exact up to the last nanosecond.

The service comes up or gives up: `connects` says after how many calls and after how much sleep. The
delays double from one attempt to the next, up to the jitter, so all the sleeps together are shorter
than one more delay (`sum_le_of_doubles`). The callback of the retry is a log line, which is left
out; the error after the last attempt has its text.
-/

namespace Kurl

open Lib

/-! ## Jitter (`common/src/retry/backoff_strategy/jitter.rs`) -/

inductive JitterTy where
  | full
  | equal
  deriving DecidableEq

/-- The generator of the thread, and the product with a number it draws. `random i` and
`randomRange i low high` are the draws with the index `i`, each as the fraction that the `f32` is, and
`mulF32` is `Duration::mul_f32`, which rounds. -/
structure Rng where
  random : ℕ → ℚ
  randomRange : ℕ → ℚ → ℚ → ℚ
  mulF32 : Duration → ℚ → Duration

/-- `JitterTy::jitter` -/
def JitterTy.jitter (rng : Rng) (i : ℕ) (delay : Duration) : JitterTy → Duration
  | .full => rng.mulF32 delay (rng.random i)
  | .equal => rng.mulF32 delay (rng.randomRange i (1 / 2) 1)

/-- `Jittered`, with the generator it draws from and the number of draws. -/
structure Jittered (BS : Type) where
  inner : BS
  ty : JitterTy
  rng : Rng
  draws : ℕ

instance {BS : Type} [BackoffStrategy BS] : BackoffStrategy (Jittered BS) where
  nextBackoff strategy attempt :=
    let (delay, inner) := BackoffStrategy.nextBackoff strategy.inner attempt
    (strategy.ty.jitter strategy.rng strategy.draws delay,
      { strategy with inner := inner, draws := strategy.draws + 1 })

/-! ## Building a retry (`common/src/retry/mod.rs`) -/

section Builder

variable {BS NewBS ε τ : Type}

/-- `retry`, with `RetryConfig::default()`. -/
def retry (f : ℕ → Option (Except ε τ)) : Retry NoBackoff ε τ := ⟨f, ⟨NoBackoff.mk, none, 1⟩, false⟩

def Retry.withStrategy (r : Retry BS ε τ) (strategy : NewBS) : Retry NewBS ε τ :=
  ⟨r.f, ⟨strategy, r.config.maxDelay, r.config.maxRetries⟩, r.onRetry⟩

def Retry.maxRetries (r : Retry BS ε τ) (maxAttempts : UInt64) : Retry BS ε τ :=
  { r with config := { r.config with maxRetries := maxAttempts } }

/-- `Retry::on_retry`. What the callback does with its arguments is left to it. -/
def Retry.withOnRetry (r : Retry BS ε τ) : Retry BS ε τ := { r with onRetry := true }

end Builder

/-! ## Connections -/

def maxConnectionAttempts : UInt64 := 10

/-- `Duration::from_millis(125)` -/
def initialBackoff : Duration := ⟨0, 125000000, by decide⟩

section Connections

variable {ε τ : Type}

def RetryEnd.mapErr {ε' : Type} (f : ε → ε') : RetryEnd ε τ → RetryEnd ε' τ
  | .pending => .pending
  | .returned (.ok value) => .returned (.ok value)
  | .returned (.error error) => .returned (.error (f error))
  | .panicked panic => .panicked panic

/-- The error of a service that could not connect. -/
def connectError [ToString ε] (serviceName : String) (error : ε) : String :=
  "Failed to connect to " ++ serviceName ++ ": " ++ toString error

def retryWithExpBackoff [ToString ε] (rng : Rng)
    (serviceName : String) (operation : ℕ → Option (Except ε τ)) (maxAttempts : UInt64)
    (initialBackoff : Duration) :
    RetryState (Jittered ExponentialBackoff) ε × RetryEnd String τ :=
  let maxAttempts := max maxAttempts 1
  let (st, done) := ((((retry operation).withStrategy
    (⟨⟨initialBackoff⟩, .equal, rng, 0⟩ : Jittered ExponentialBackoff)).maxRetries
      (maxAttempts - 1)).withOnRetry).intoFuture
  (st, done.mapErr (connectError serviceName))

def retryConnection [ToString ε] (rng : Rng)
    (serviceName : String) (operation : ℕ → Option (Except ε τ)) :
    RetryState (Jittered ExponentialBackoff) ε × RetryEnd String τ :=
  retryWithExpBackoff rng serviceName operation maxConnectionAttempts initialBackoff

end Connections

/-! ## Delays -/

/-- `JitterTy::Equal` takes away at most half of a delay, for the delays of a connection. -/
def Rng.KeepsHalf (rng : Rng) : Prop :=
  ∀ (i k : ℕ) (delay : Duration), k < 9 → delay.toNanos = initialBackoff.toNanos * 2 ^ k →
    delay.toNanos ≤ 2 * (JitterTy.equal.jitter rng i delay).toNanos ∧
      (JitterTy.equal.jitter rng i delay).toNanos ≤ delay.toNanos

/-- The time that a sleep takes. -/
def RetryEvent.slept {ε : Type} : RetryEvent ε → Option ℕ
  | .sleep backoff => some backoff.toNanos
  | _ => none

section Delays

variable {BS : Type} [BackoffStrategy BS]

theorem strategies_jittered (strategy : Jittered BS) (i : ℕ) :
    Retry.strategies strategy i =
      { strategy with
        inner := Retry.strategies strategy.inner i
        draws := strategy.draws + i } := by
  induction i with
  | zero => rfl
  | succ i ih =>
    show (BackoffStrategy.nextBackoff (Retry.strategies strategy i) _).2 = _
    rw [ih]
    rfl

/-- A jittered delay is the jitter of the delay. -/
theorem strategyBackoff_jittered (strategy : Jittered BS) (i : ℕ) :
    Retry.strategyBackoff strategy i =
      strategy.ty.jitter strategy.rng (strategy.draws + i)
        (Retry.strategyBackoff strategy.inner i) := by
  show (BackoffStrategy.nextBackoff (Retry.strategies strategy i) _).1 = _
  rw [strategies_jittered]
  rfl

/-- The delays of a connection before their jitter. -/
theorem toNanos_initialBackoff {i : ℕ} (hi : i < 9) :
    (Retry.strategyBackoff (ExponentialBackoff.mk initialBackoff) i).toNanos =
      initialBackoff.toNanos * 2 ^ i := by
  have hstate := toNanos_strategies_exponential initialBackoff i
  have hsmall : initialBackoff.toNanos * 2 ^ i ≤ Duration.max.toNanos := by
    have hpow : 2 ^ i ≤ 2 ^ 8 := Nat.pow_le_pow_right (by decide) (by omega)
    calc initialBackoff.toNanos * 2 ^ i ≤ initialBackoff.toNanos * 2 ^ 8 :=
          Nat.mul_le_mul_left _ hpow
      _ ≤ Duration.max.toNanos := by decide
  rw [min_eq_left hsmall] at hstate
  exact hstate

end Delays

/-! ## The connection of a service -/

section Connects

variable {ε τ : Type} [ToString ε] {rng : Rng} {serviceName : String} {operation : ℕ → Option (Except ε τ)}

/-- What a connection has to be, whose call with this index is its last. -/
structure Connects (serviceName : String) (operation : ℕ → Option (Except ε τ))
    (run : RetryState (Jittered ExponentialBackoff) ε × RetryEnd String τ) (last : ℕ) : Prop where
  /-- At most ten calls, and each but the last one failed. -/
  calls : last < 10 ∧ run.1.trace.countP RetryEvent.isCall = last + 1 ∧
    ∀ i < last, ∃ error, operation i = some (.error error)
  connected : ∀ value, operation last = some (.ok value) → run.2 = .returned (.ok value)
  /-- It gives up after ten failures, with the error of the last one. -/
  failed : ∀ error, operation last = some (.error error) →
    last = 9 ∧ run.2 = .returned (.error (connectError serviceName error))
  hangs : operation last = none → run.2 = .pending
  /-- The sleep after a call is twice as long as the one before it, or up to half of that. -/
  sleeps : ∀ i < last, ∃ nanos, (run.1.trace.filterMap RetryEvent.slept)[i]? = some nanos ∧
    initialBackoff.toNanos * 2 ^ i ≤ 2 * nanos ∧ nanos ≤ initialBackoff.toNanos * 2 ^ i
  /-- All in all it sleeps for less than 64 seconds. -/
  total : (run.1.trace.filterMap RetryEvent.slept).sum ≤ initialBackoff.toNanos * (2 ^ last - 1)

/-- The retry loop of a connection. -/
def connection (rng : Rng) (operation : ℕ → Option (Except ε τ)) :
    Retry (Jittered ExponentialBackoff) ε τ :=
  ⟨operation, ⟨⟨⟨initialBackoff⟩, .equal, rng, 0⟩, none, 9⟩, true⟩

theorem retryConnection_eq (rng : Rng) (serviceName : String)
    (operation : ℕ → Option (Except ε τ)) : retryConnection rng serviceName operation =
      ((connection rng operation).intoFuture.1,
        (connection rng operation).intoFuture.2.mapErr (connectError serviceName)) := rfl

/-- The delay after a failed call. -/
def connectionDelay (rng : Rng) (i : ℕ) : ℕ :=
  (JitterTy.equal.jitter rng i
    (Retry.strategyBackoff (ExponentialBackoff.mk initialBackoff) i)).toNanos

/-- It is between a half and the whole of the one without jitter. -/
theorem connectionDelay_bounds (hrng : rng.KeepsHalf) {i : ℕ} (hi : i < 9) :
    initialBackoff.toNanos * 2 ^ i ≤ 2 * connectionDelay rng i ∧
      connectionDelay rng i ≤ initialBackoff.toNanos * 2 ^ i := by
  have hdelay := toNanos_initialBackoff hi
  have hbounds := hrng i i _ hi hdelay
  rw [hdelay] at hbounds
  exact hbounds

omit [ToString ε] in
/-- The sleeps of the rounds, one after each failed call. -/
theorem slept_rounds {m : ℕ} (h : ∀ i < m, (connection rng operation).Fails i) :
    ((List.range m).flatMap (connection rng operation).round).filterMap RetryEvent.slept =
      (List.range m).map (connectionDelay rng) := by
  induction m with
  | zero => rfl
  | succ m ih =>
    have hround : ((connection rng operation).round m).filterMap RetryEvent.slept =
        [connectionDelay rng m] := by
      obtain ⟨error, herror⟩ := h m (by omega)
      unfold Retry.round
      rw [herror, strategyBackoff_jittered]
      show [(JitterTy.equal.jitter rng (0 + m) _).toNanos] = _
      rw [Nat.zero_add]
      rfl
    rw [List.range_succ, List.flatMap_append, List.flatMap_singleton, List.filterMap_append,
      ih fun i hi => h i (by omega), hround, List.map_append, List.map_singleton]

/-- A sum of delays that double. -/
theorem sum_le_of_doubles {f : ℕ → ℕ} {base m : ℕ} (h : ∀ i < m, f i ≤ base * 2 ^ i) :
    ((List.range m).map f).sum ≤ base * (2 ^ m - 1) := by
  induction m with
  | zero => exact Nat.zero_le _
  | succ m ih =>
    have hbefore := ih fun i hi => h i (by omega)
    have hlast := h m (by omega)
    have hdouble : base * (2 ^ (m + 1) - 1) = base * (2 ^ m - 1) + base * 2 ^ m := by
      rw [← Nat.mul_add, pow_succ]
      congr 1
      have hpos : 0 < 2 ^ m := Nat.two_pow_pos m
      omega
    rw [List.range_succ, List.map_append, List.sum_append, hdouble, List.map_singleton,
      List.sum_singleton]
    omega

/-- **A service connects or gives up.** It calls the operation at most ten times, returns the first
connection it gets and otherwise the error of the tenth call, and sleeps in between for half a
delay to a whole one, with delays from an eighth of a second that double: less than 64 seconds in
all. -/
theorem connects (hrng : rng.KeepsHalf) (serviceName : String)
    (operation : ℕ → Option (Except ε τ)) :
    ∃ last, Connects serviceName operation (retryConnection rng serviceName operation) last := by
  obtain ⟨last, -, hle, hfails, hlast⟩ := (connection rng operation).exists_last
  have hnine : (connection rng operation).config.maxRetries.toNat = 9 := rfl
  rw [hnine] at hle hlast
  have hrun := Retry.intoFuture_eq hle hfails hlast
  have htrace : (retryConnection rng serviceName operation).1.trace.filterMap
      RetryEvent.slept = (List.range last).map (connectionDelay rng) := by
    rw [retryConnection_eq, hrun, List.filterMap_append, slept_rounds hfails]
    exact List.append_nil _
  have hend : (retryConnection rng serviceName operation).2 = RetryEnd.mapErr
      (connectError serviceName) ((operation last).elim .pending .returned) := by
    have hoperation : (connection rng operation).f = operation := rfl
    rw [retryConnection_eq, hrun, hoperation]
    cases operation last <;> rfl
  refine ⟨last, ⟨by omega, ?_, hfails⟩, fun value hvalue => ?_, fun error herror => ⟨?_, ?_⟩,
    fun hnone => ?_, fun i hi => ?_, ?_⟩
  · rw [retryConnection_eq, hrun, List.countP_append, Retry.countP_rounds hfails]
    rfl
  · rw [hend, hvalue]
    rfl
  · exact hlast ⟨error, herror⟩
  · rw [hend, herror]
    rfl
  · rw [hend, hnone]
    rfl
  · refine ⟨connectionDelay rng i, ?_, connectionDelay_bounds hrng (by omega)⟩
    rw [htrace, List.getElem?_map, List.getElem?_range hi]
    rfl
  · rw [htrace]
    exact sum_le_of_doubles fun i hi => (connectionDelay_bounds hrng (by omega)).2

end Connects

/-- Every random number is three quarters, and a product is rounded down. -/
def threeQuarters : Rng where
  random _ := 3 / 4
  randomRange _ _ _ := 3 / 4
  mulF32 delay q := .ofNanos (delay.toNanos * q.num.toNat / q.den)

theorem keepsHalf_threeQuarters : threeQuarters.KeepsHalf := by
  intro i k delay _ hdelay
  have hmax := Duration.toNanos_le_max delay
  have hlong : 2 ≤ delay.toNanos := by
    have hbase : 2 ≤ initialBackoff.toNanos := by decide
    rw [hdelay]
    exact le_trans hbase (Nat.le_mul_of_pos_right _ (Nat.two_pow_pos k))
  have hless : delay.toNanos * 3 / 4 ≤ delay.toNanos := by omega
  have hproduct : JitterTy.equal.jitter threeQuarters i delay =
      .ofNanos (delay.toNanos * 3 / 4) := by
    have hnum : (3 / 4 : ℚ).num.toNat = 3 := by decide +kernel
    have hden : (3 / 4 : ℚ).den = 4 := by decide +kernel
    show Duration.ofNanos (delay.toNanos * (3 / 4 : ℚ).num.toNat / (3 / 4 : ℚ).den) = _
    rw [hnum, hden]
  rw [hproduct, Duration.toNanos_ofNanos (le_trans hless hmax)]
  omega

/-- A server that refuses three connections. -/
def refusesThree (i : ℕ) : Option (Except String Unit) :=
  if i < 3 then some (.error "connection refused") else some (.ok ())

theorem connects_refusesThree : ∃ last,
    Connects "Redis" refusesThree (retryConnection threeQuarters "Redis" refusesThree) last :=
  connects keepsHalf_threeQuarters "Redis" refusesThree

end Kurl
