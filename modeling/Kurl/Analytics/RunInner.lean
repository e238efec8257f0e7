import Kurl.Analytics.Writer

/-!
# Kurl — the control flow of `run_inner` (`analytics/src/event_consumer.rs`)

`Kurl.writer` lets the writer drain, read, process and flush in any order. `InnerStage` is the order
of the code: the consumer group, the rehydration, the pending events, then the `select!` of
`event_loop` with its three branches, and the flush at the end.

The token is looked at in two places. `drain_pending` asks it before each batch, which then awaits a
connection before it claims anything (`claiming`): a cancellation in between does not stop it. The
`select!` is biased, so that a cancelled token leaves the other branches no turn; the future of
`read_stream` that a branch drops may have been delivered entries all the same.

Every step is a run of `Kurl.writer` (`InnerStage.step_refines`), so what holds along all runs of
the writer holds of the code. A step that the writer does not see (a connection is obtained, the
loop comes to its `select!`) is the run of no actions, and one that is a single call of the writer
in the code is a single action of it.
-/

namespace Kurl

open Lib

/-- Where `run_inner` is. -/
inductive InnerStage where
  /-- In `ensure_consumer_group`. -/
  | ensuringGroup
  | rehydrating
  /-- In `drain_pending`, before the loop or in the branch of a tick. -/
  | draining (tick : Bool)
  /-- In `drain_pending_batch`, where a connection is awaited. -/
  | claiming (tick : Bool)
  /-- In the `select!` of `event_loop`. -/
  | selecting
  /-- `read_stream` has returned entries, and a connection is taken for them. -/
  | connecting
  | processing
  /-- In the sleep of `REDIS_ERROR_BACKOFF`. -/
  | backingOff
  /-- `flush` is next: that of a tick, or the last one. -/
  | callingFlush (last : Bool)
  | flushing (last : Bool)
  deriving DecidableEq

/-- A step of `run_inner`: a call of the writer, the end of a stage, or a branch of the `select!`.
-/
inductive InnerAction where
  /-- The next call of the stage. -/
  | call (a : WriterAction)
  /-- What the stage awaits returns `Ok`. -/
  | returns
  /-- It returns an error. -/
  | fails
  /-- `drain_pending` finds the token not cancelled and calls `drain_pending_batch`. -/
  | beginBatch
  /-- `drain_pending_batch` sends `XAUTOCLAIM`; without an answer it returns an error. -/
  | claim (answered : Bool)
  /-- The branch of `select!` on the token. `delivered`: the read it drops had its entries. -/
  | shutdown (delivered : Bool)
  | tick (delivered : Bool)
  | read
  /-- `read_stream` returns an error, the answer of `XREADGROUP` being lost or not. -/
  | readFails (delivered : Bool)

namespace InnerStage

/-- The calls that a stage consists of. -/
def performs (phase : WriterPhase) : InnerStage → WriterAction → Bool
  | .ensuringGroup, .ensureConsumerGroup => true
  | .rehydrating, .selectGlobal _ _ => true
  | .rehydrating, .selectLinks _ => true
  | .rehydrating, .call _ => true
  | .draining _, .processEntry _ => true
  | .draining _, .endBatch =>
    match phase with
    | .processing [] => true
    | _ => false
  | .processing, .processEntry _ => true
  | .callingFlush _, .flush _ => true
  | .flushing _, .scan _ => true
  | .flushing _, .captureGlobal => true
  | .flushing _, .assemble _ => true
  | .flushing _, .exec => true
  | .flushing _, .commit _ _ => true
  | .flushing _, .commitUnknown _ => true
  | .flushing _, .call _ => true
  | _, _ => false

/-- A call of `flush` begins it; the other calls stay in their stage. -/
def next : InnerStage → InnerStage
  | .callingFlush last => .flushing last
  | stage => stage

def afterDrain (tick : Bool) : InnerStage := if tick then .callingFlush false else .selecting

/-- An error of `drain_pending` before the loop ends `run_inner`; that of a tick is logged. -/
def afterDrainError (tick : Bool) : Option InnerStage :=
  if tick then some (.callingFlush false) else none

def afterFlush (last : Bool) : Option InnerStage := if last then none else some .selecting

variable (serde : SerdeJson) (count : Nat) (cancelled : Bool) (st : WriterState)

/-- The `XREADGROUP` of a read that is not answered. -/
def unanswered (delivered : Bool) : Option WriterState :=
  if delivered then st.step serde (.readStream count true) else some st

/-- The stage returns `Ok`; `none` is the return of `run_inner`. -/
def returns : InnerStage → Option (Option InnerStage × WriterState)
  | .ensuringGroup =>
    match st.phase with
    | .selectingGlobal => some (some .rehydrating, st)
    | _ => none
  | .rehydrating => (st.step serde .rehydrated).map fun st => (some (.draining false), st)
  | .draining tick =>
    -- the token is asked before each batch
    match st.phase with
    | .ready => if cancelled then some (some (afterDrain tick), st) else none
    | _ => none
  | .connecting => some (some .processing, st)
  | .processing =>
    match st.phase with
    | .processing [] => (st.step serde .endBatch).map fun st => (some .selecting, st)
    | _ => none
  | .backingOff => some (some .selecting, st)
  | .flushing last => (st.step serde .flushReturns).map fun st => (afterFlush last, st)
  | .claiming _ => none
  | .selecting => none
  | .callingFlush _ => none

/-- The stage returns an error. -/
def fails : InnerStage → Option (Option InnerStage × WriterState)
  | .ensuringGroup => some (none, st)
  | .rehydrating => some (none, st)
  | .claiming tick => some (afterDrainError tick, st)
  | .connecting => (st.step serde .endBatch).map fun st => (some .selecting, st)
  | .flushing last =>
    match st.phase with
    | .ready => some (afterFlush last, st)
    | _ => (st.step serde .flushFails).map fun st => (afterFlush last, st)
  | _ => none

/-- The token is asked between two batches. -/
def beginBatch : InnerStage → Option (Option InnerStage × WriterState)
  | .draining tick =>
    match st.phase with
    | .ready => if cancelled then none else some (some (.claiming tick), st)
    | _ => none
  | _ => none

/-- The `XAUTOCLAIM` of `drain_pending_batch`. The entries it claims are processed; if there are
none, `drain_pending` returns. -/
def claim (answered : Bool) : InnerStage → Option (Option InnerStage × WriterState)
  | .claiming tick =>
    (st.step serde (.drainPendingBatch count)).bind fun st =>
      if answered then
        match st.phase with
        | .processing [] => (st.step serde .endBatch).map fun st => (some (afterDrain tick), st)
        | _ => some (some (.draining tick), st)
      else (st.step serde .endBatch).map fun st => (afterDrainError tick, st)
  | _ => none

/-- The branch of `select!` on `read_stream`. -/
def read : InnerStage → Option (Option InnerStage × WriterState)
  | .selecting =>
    if cancelled then none else
    (st.step serde (.readStream count false)).bind fun st =>
      match st.phase with
      | .processing [] => (st.step serde .endBatch).map fun st => (some .selecting, st)
      | _ => some (some .connecting, st)
  | _ => none

def step (stage : InnerStage) : InnerAction → Option (Option InnerStage × WriterState)
  | .call a =>
    if stage.performs st.phase a then (st.step serde a).map fun st => (some stage.next, st)
    else none
  | .returns => stage.returns serde cancelled st
  | .fails => stage.fails serde st
  | .beginBatch => stage.beginBatch cancelled st
  | .claim answered => stage.claim serde count st answered
  | .shutdown delivered =>
    if stage = .selecting ∧ cancelled then
      (unanswered serde count st delivered).map fun st => (some (.callingFlush true), st)
    else none
  | .tick delivered =>
    if stage = .selecting ∧ !cancelled then
      (unanswered serde count st delivered).map fun st => (some (.draining true), st)
    else none
  | .read => stage.read serde count cancelled st
  | .readFails delivered =>
    if stage = .selecting ∧ !cancelled then
      (unanswered serde count st delivered).map fun st => (some .backingOff, st)
    else none

end InnerStage

/-! ## The writer

Each step of `run_inner` is none, one or two actions of the writer, and none of them is the
environment's. -/

/-- An action that `run_inner` performs. -/
def WriterAction.inner : WriterAction → Bool
  | .append _ | .createLink _ _ _ | .deleteLink _ | .loseData | .start | .stop => false
  | _ => true

section Refinement

variable {serde : SerdeJson} {count : Nat} {cancelled : Bool} {st st' st'' : WriterState}

/-- `st'` is reached by actions of `run_inner`. -/
def WriterState.Performs (serde : SerdeJson) (st st' : WriterState) : Prop :=
  ∃ as, (writer serde).run st as = some st' ∧ ∀ a ∈ as, a.inner = true

theorem WriterState.Performs.refl (serde : SerdeJson) (st : WriterState) : st.Performs serde st :=
  ⟨[], rfl, by simp⟩

theorem WriterState.Performs.of_step {a : WriterAction} (h : st.step serde a = some st')
    (ha : a.inner = true) : st.Performs serde st' :=
  ⟨[a], (writer serde).run_cons_some.mpr ⟨st', h, rfl⟩, by simpa using ha⟩

theorem WriterState.Performs.trans (h : st.Performs serde st') (h' : st'.Performs serde st'') :
    st.Performs serde st'' := by
  obtain ⟨as, has, hinner⟩ := h
  obtain ⟨bs, hbs, hinner'⟩ := h'
  refine ⟨as ++ bs, (writer serde).run_append_some.mpr ⟨st', has, hbs⟩, fun a ha => ?_⟩
  rcases List.mem_append.mp ha with ha | ha
  · exact hinner a ha
  · exact hinner' a ha

/-- One action, whatever the stage is afterwards. -/
theorem performs_map {a : WriterAction} {next : Option InnerStage}
    {f : WriterState → Option InnerStage} (ha : a.inner = true)
    (h : (st.step serde a).map (fun st => (f st, st)) = some (next, st')) :
    st.Performs serde st' := by
  obtain ⟨u, hstep, hu⟩ := Option.map_eq_some_iff.mp h
  obtain ⟨-, rfl⟩ := Prod.mk.inj hu
  exact .of_step hstep ha

theorem InnerStage.inner_of_performs {stage : InnerStage} {phase : WriterPhase} {a : WriterAction}
    (h : stage.performs phase a = true) : a.inner = true := by
  cases a with
  | append _ => cases stage <;> cases h
  | createLink _ _ _ => cases stage <;> cases h
  | deleteLink _ => cases stage <;> cases h
  | loseData => cases stage <;> cases h
  | start => cases stage <;> cases h
  | stop => cases stage <;> cases h
  | _ => rfl

theorem InnerStage.performs_unanswered {delivered : Bool} {next : Option InnerStage}
    {f : WriterState → Option InnerStage}
    (h : (unanswered serde count st delivered).map (fun st => (f st, st)) = some (next, st')) :
    st.Performs serde st' := by
  cases delivered with
  | true => exact performs_map (a := .readStream count true) rfl h
  | false =>
    obtain ⟨-, rfl⟩ := Prod.mk.inj (Option.some.inj h)
    exact .refl serde st

theorem InnerStage.performs_returns {stage : InnerStage} {next : Option InnerStage}
    (h : stage.returns serde cancelled st = some (next, st')) : st.Performs serde st' := by
  cases stage with
  | ensuringGroup =>
    simp only [returns] at h
    split at h
    · obtain ⟨-, rfl⟩ := Prod.mk.inj (Option.some.inj h)
      exact .refl serde st
    · cases h
  | rehydrating => exact performs_map rfl h
  | draining tick =>
    simp only [returns] at h
    split at h
    · split at h
      · obtain ⟨-, rfl⟩ := Prod.mk.inj (Option.some.inj h)
        exact .refl serde st
      · cases h
    · cases h
  | connecting =>
    obtain ⟨-, rfl⟩ := Prod.mk.inj (Option.some.inj h)
    exact .refl serde st
  | processing =>
    simp only [returns] at h
    split at h
    · exact performs_map rfl h
    · cases h
  | backingOff =>
    obtain ⟨-, rfl⟩ := Prod.mk.inj (Option.some.inj h)
    exact .refl serde st
  | flushing last => exact performs_map rfl h
  | claiming tick => cases h
  | selecting => cases h
  | callingFlush last => cases h

theorem InnerStage.performs_fails {stage : InnerStage} {next : Option InnerStage}
    (h : stage.fails serde st = some (next, st')) : st.Performs serde st' := by
  cases stage with
  | ensuringGroup =>
    obtain ⟨-, rfl⟩ := Prod.mk.inj (Option.some.inj h)
    exact .refl serde st
  | rehydrating =>
    obtain ⟨-, rfl⟩ := Prod.mk.inj (Option.some.inj h)
    exact .refl serde st
  | claiming tick =>
    obtain ⟨-, rfl⟩ := Prod.mk.inj (Option.some.inj h)
    exact .refl serde st
  | connecting => exact performs_map rfl h
  | flushing last =>
    simp only [fails] at h
    split at h
    · obtain ⟨-, rfl⟩ := Prod.mk.inj (Option.some.inj h)
      exact .refl serde st
    · exact performs_map rfl h
  | draining tick => cases h
  | selecting => cases h
  | processing => cases h
  | backingOff => cases h
  | callingFlush last => cases h

theorem InnerStage.performs_beginBatch {stage : InnerStage} {next : Option InnerStage}
    (h : stage.beginBatch cancelled st = some (next, st')) : st.Performs serde st' := by
  cases stage with
  | draining tick =>
    simp only [beginBatch] at h
    split at h
    · split at h
      · cases h
      · obtain ⟨-, rfl⟩ := Prod.mk.inj (Option.some.inj h)
        exact .refl serde st
    · cases h
  | _ => cases h

theorem InnerStage.performs_claim {stage : InnerStage} {answered : Bool} {next : Option InnerStage}
    (h : stage.claim serde count st answered = some (next, st')) : st.Performs serde st' := by
  cases stage with
  | claiming tick =>
    simp only [claim] at h
    obtain ⟨u, hclaim, h⟩ := Option.bind_eq_some_iff.mp h
    have hfirst : st.Performs serde u := .of_step hclaim rfl
    split at h
    · split at h
      · -- nothing was pending
        exact hfirst.trans (performs_map rfl h)
      · obtain ⟨-, rfl⟩ := Prod.mk.inj (Option.some.inj h)
        exact hfirst
    · -- the answer is lost, and with it the entries
      exact hfirst.trans (performs_map rfl h)
  | _ => cases h

theorem InnerStage.performs_read {stage : InnerStage} {next : Option InnerStage}
    (h : stage.read serde count cancelled st = some (next, st')) : st.Performs serde st' := by
  cases stage with
  | selecting =>
    simp only [read] at h
    split at h
    · cases h
    · obtain ⟨u, hread, h⟩ := Option.bind_eq_some_iff.mp h
      have hfirst : st.Performs serde u := .of_step hread rfl
      split at h
      · exact hfirst.trans (performs_map rfl h)
      · obtain ⟨-, rfl⟩ := Prod.mk.inj (Option.some.inj h)
        exact hfirst
  | _ => cases h

/-- **Every step of `run_inner` is a run of the writer.** -/
theorem InnerStage.step_refines {stage : InnerStage} {a : InnerAction} {next : Option InnerStage}
    (h : stage.step serde count cancelled st a = some (next, st')) : st.Performs serde st' := by
  cases a with
  | call a =>
    simp only [step] at h
    split at h
    · next hperforms => exact performs_map (inner_of_performs hperforms) h
    · cases h
  | returns => exact performs_returns h
  | fails => exact performs_fails h
  | beginBatch => exact performs_beginBatch h
  | claim answered => exact performs_claim h
  | shutdown delivered =>
    simp only [step] at h
    split at h
    · exact performs_unanswered h
    · cases h
  | tick delivered =>
    simp only [step] at h
    split at h
    · exact performs_unanswered h
    · cases h
  | read => exact performs_read h
  | readFails delivered =>
    simp only [step] at h
    split at h
    · exact performs_unanswered h
    · cases h

end Refinement

end Kurl
