import Kurl.Analytics.FlushExact
import Kurl.Analytics.OneWriter

/-!
# Kurl — the shutdown of the analytics service (`analytics/src/event_consumer.rs`)

What an instance still does once its token is cancelled (`after_shutdown`). It begins no read, and no
batch of pending entries beyond the one in which the cancellation finds it. A read that was under
way is dropped, but may have been delivered entries. It takes the lock at most once more, and begins
at most two flushes: that of a tick in whose `drain_pending` the cancellation found it, and the
last one.

What it leaves behind: when the last flush of `run_inner` returns `Ok`, Postgres has every click
that was processed, and it stays so until an instance tries to take the lock again
(`counts_of_stopped`). The links are those whose rows the flush found and that have not been
deleted since.
-/

namespace Kurl

open Lib

/-! ## After the token is cancelled -/

/-- What a cancelled instance does only so often. -/
inductive Quota where
  /-- A flush of `run_inner` begins. -/
  | flush
  /-- An `XAUTOCLAIM` is sent. -/
  | claim
  /-- A read that was under way is dropped, and had been delivered its entries. -/
  | delivery
  /-- It tries to take the lock. -/
  | attempt
  deriving DecidableEq

namespace Quota

/-- What a cancelled instance may have left at most, wherever the cancellation finds it. -/
def most : Quota → Nat
  | .flush => 2
  | _ => 1

/-- What is left in `run_inner`. -/
def inner : Quota → InnerStage → Nat
  | .flush, .draining true | .flush, .claiming true | .flush, .callingFlush false => 2
  | .flush, .flushing true => 0
  | .flush, _ => 1
  -- of a batch only if its token was asked before the cancellation
  | .claim, .claiming _ => 1
  | .claim, _ => 0
  | .delivery, .callingFlush true | .delivery, .flushing true => 0
  | .delivery, _ => 1
  | .attempt, _ => 0

/-- With the lock, `run_inner` begins with its first stage. -/
def left (q : Quota) : RunStage → Nat
  | .acquiring => q.inner .ensuringGroup + if q = .attempt then 1 else 0
  | .inner _ stage _ => q.inner stage
  | _ => 0

def usedBy : Quota → InnerAction → Bool
  | .flush, .call (.flush _) => true
  | .claim, .claim _ => true
  | .delivery, .shutdown delivered => delivered
  | _, _ => false

/-- The action of this instance that counts. -/
def counts (q : Quota) (i : Nat) : FleetAction → Bool
  | .inner j a => j = i && q.usedBy a
  | .acquire j _ _ => q = .attempt && j = i
  | .acquireFails j => q = .attempt && j = i
  | _ => false

theorem inner_le_most (q : Quota) (stage : InnerStage) : q.inner stage ≤ q.most := by
  cases q <;> cases stage with
  | draining tick => cases tick <;> decide
  | claiming tick => cases tick <;> decide
  | callingFlush last => cases last <;> decide
  | flushing last => cases last <;> decide
  | _ => decide

theorem left_le_most (q : Quota) (stage : RunStage) : q.left stage ≤ q.most := by
  cases stage with
  | acquiring => cases q <;> decide
  | inner _ stage _ => exact q.inner_le_most stage
  | _ => exact Nat.zero_le _

end Quota

/-- A batch of pending entries is begun, or a branch of `select!` is done that a cancelled token
leaves no turn. -/
def InnerAction.takes : InnerAction → Bool
  | .beginBatch | .tick _ | .read | .readFails _ => true
  | _ => false

def FleetAction.takes (i : Nat) : FleetAction → Bool
  | .inner j a => j = i && a.takes
  | _ => false

section Cancelled

variable {serde : SerdeJson} {count : Nat}

/-- The steps of `run_inner` under a cancelled token, with the stage after each. -/
inductive InnerStage.CancelledStep : InnerStage → InnerAction → Option InnerStage → Prop
  | call {stage : InnerStage} {phase : WriterPhase} {a : WriterAction}
      (h : stage.performs phase a = true) : CancelledStep stage (.call a) (some stage.next)
  | groupEnsured : CancelledStep .ensuringGroup .returns (some .rehydrating)
  | groupFails : CancelledStep .ensuringGroup .fails none
  | rehydrated : CancelledStep .rehydrating .returns (some (.draining false))
  | rehydrateFails : CancelledStep .rehydrating .fails none
  | drained (tick : Bool) : CancelledStep (.draining tick) .returns (some (afterDrain tick))
  | noConnection (tick : Bool) : CancelledStep (.claiming tick) .fails (afterDrainError tick)
  | claimed (tick answered : Bool) :
      CancelledStep (.claiming tick) (.claim answered) (some (.draining tick))
  | nothingPending (tick answered : Bool) :
      CancelledStep (.claiming tick) (.claim answered) (some (afterDrain tick))
  | claimFails (tick answered : Bool) :
      CancelledStep (.claiming tick) (.claim answered) (afterDrainError tick)
  | shutdown (delivered : Bool) :
      CancelledStep .selecting (.shutdown delivered) (some (.callingFlush true))
  | connected : CancelledStep .connecting .returns (some .processing)
  | connectFails : CancelledStep .connecting .fails (some .selecting)
  | processed : CancelledStep .processing .returns (some .selecting)
  | backedOff : CancelledStep .backingOff .returns (some .selecting)
  | flushed (last : Bool) : CancelledStep (.flushing last) .returns (afterFlush last)
  | flushFails (last : Bool) : CancelledStep (.flushing last) .fails (afterFlush last)

/-- **A step of `run_inner` under a cancelled token.** -/
theorem InnerStage.CancelledStep.of_step {stage : InnerStage} {st st' : WriterState}
    {a : InnerAction} {next : Option InnerStage}
    (h : stage.step serde count true st a = some (next, st')) : stage.CancelledStep a next := by
  -- what comes after a call of the writer is up to the stage
  have hmap {x : Option WriterState} {f : WriterState → Option InnerStage}
      (h : x.map (fun st => (f st, st)) = some (next, st')) : next = f st' := by
    obtain ⟨w, -, heq⟩ := Option.map_eq_some_iff.mp h
    obtain ⟨rfl, rfl⟩ := Prod.mk.inj heq
    rfl
  cases a with
  | call a =>
    simp only [step] at h
    split at h
    · next hperforms => exact hmap h ▸ .call hperforms
    · cases h
  | returns =>
    cases stage with
    | ensuringGroup =>
      simp only [step, returns] at h
      split at h
      · exact (Prod.mk.inj (Option.some.inj h)).1 ▸ .groupEnsured
      · cases h
    | rehydrating => exact hmap h ▸ .rehydrated
    | draining tick =>
      simp only [step, returns] at h
      split at h
      · exact (Prod.mk.inj (Option.some.inj h)).1 ▸ .drained tick
      · cases h
    | connecting => exact (Prod.mk.inj (Option.some.inj h)).1 ▸ .connected
    | processing =>
      simp only [step, returns] at h
      split at h
      · exact hmap h ▸ .processed
      · cases h
    | backingOff => exact (Prod.mk.inj (Option.some.inj h)).1 ▸ .backedOff
    | flushing last => exact hmap h ▸ .flushed last
    | claiming tick => cases h
    | selecting => cases h
    | callingFlush last => cases h
  | fails =>
    cases stage with
    | ensuringGroup => exact (Prod.mk.inj (Option.some.inj h)).1 ▸ .groupFails
    | rehydrating => exact (Prod.mk.inj (Option.some.inj h)).1 ▸ .rehydrateFails
    | claiming tick => exact (Prod.mk.inj (Option.some.inj h)).1 ▸ .noConnection tick
    | connecting => exact hmap h ▸ .connectFails
    | flushing last =>
      simp only [step, fails] at h
      split at h
      · exact (Prod.mk.inj (Option.some.inj h)).1 ▸ .flushFails last
      · exact hmap h ▸ .flushFails last
    | draining tick => cases h
    | selecting => cases h
    | processing => cases h
    | backingOff => cases h
    | callingFlush last => cases h
  | beginBatch =>
    -- the token is asked first
    cases stage with
    | draining tick =>
      simp only [step, beginBatch] at h
      split at h <;> cases h
    | _ => cases h
  | claim answered =>
    cases stage with
    | claiming tick =>
      simp only [step, claim] at h
      obtain ⟨w, -, h⟩ := Option.bind_eq_some_iff.mp h
      split at h
      · split at h
        · exact hmap h ▸ .nothingPending tick answered
        · exact (Prod.mk.inj (Option.some.inj h)).1 ▸ .claimed tick answered
      · exact hmap h ▸ .claimFails tick answered
    | _ => cases h
  | shutdown delivered =>
    simp only [step] at h
    split at h
    · next hguard => exact hguard.1 ▸ hmap h ▸ .shutdown delivered
    · cases h
  | tick delivered => simp [step] at h
  | read => cases stage <;> cases h
  | readFails delivered => simp [step] at h

/-- It begins nothing new with the stream. -/
theorem InnerStage.CancelledStep.takes {stage : InnerStage} {a : InnerAction}
    {next : Option InnerStage} (h : stage.CancelledStep a next) : a.takes = false := by
  cases h <;> rfl

/-- A call of a stage uses no quota, but for the call that begins a flush. -/
theorem Quota.inner_call (q : Quota) {stage : InnerStage} {phase : WriterPhase} {a : WriterAction}
    (h : stage.performs phase a = true) :
    q.inner stage.next + (if q.usedBy (.call a) then 1 else 0) ≤ q.inner stage := by
  cases stage with
  | callingFlush last =>
    cases a with
    | flush now => cases q <;> cases last <;> exact le_refl _
    | _ => cases h
  | _ =>
    cases a with
    | flush now => cases h
    | _ => cases q <;> exact le_refl _

/-- **It uses what is left of each quota.** -/
theorem InnerStage.CancelledStep.quota {stage : InnerStage} {a : InnerAction}
    {next : Option InnerStage} (h : stage.CancelledStep a next) (q : Quota) :
    next.elim 0 q.inner + (if q.usedBy a then 1 else 0) ≤ q.inner stage := by
  cases h with
  | call hperforms => exact q.inner_call hperforms
  | drained tick => cases q <;> cases tick <;> decide
  | noConnection tick => cases q <;> cases tick <;> decide
  | claimed tick answered => cases q <;> cases tick <;> cases answered <;> decide
  | nothingPending tick answered => cases q <;> cases tick <;> cases answered <;> decide
  | claimFails tick answered => cases q <;> cases tick <;> cases answered <;> decide
  | shutdown delivered => cases q <;> cases delivered <;> decide
  | flushed last => cases q <;> cases last <;> decide
  | flushFails last => cases q <;> cases last <;> decide
  | _ => cases q <;> decide

/-- What a cancelled instance still may do, in one step of the instances. -/
structure EventConsumer.WindsDown (a : FleetAction) (i : Nat) (c c' : EventConsumer) : Prop where
  cancelled : c'.cancelled = true
  takes : a.takes i = false
  quota : ∀ q : Quota, q.left c'.stage + (if q.counts i a then 1 else 0) ≤ q.left c.stage

/-- The instance that an action is of. -/
def FleetAction.owner : FleetAction → Option Nat
  | .cancel i | .acquire i _ _ | .acquireFails i | .inner i _ | .release i _ | .retry i
  | .returns i | .crash i => some i
  | .spawn | .endSession _ | .environment _ => none

/-- A step of another instance, or of none. -/
theorem EventConsumer.WindsDown.of_owner {a : FleetAction} {i : Nat} {c : EventConsumer}
    (hcancelled : c.cancelled = true) (howner : a.owner ≠ some i) : c.WindsDown a i c := by
  have hquiet : a.takes i = false ∧ ∀ q : Quota, q.counts i a = false := by
    cases a with
    | acquire j _ _ =>
      have hne : decide (j = i) = false := decide_eq_false fun heq => howner (congrArg some heq)
      exact ⟨rfl, fun q => by rw [Quota.counts, hne, Bool.and_false]⟩
    | acquireFails j =>
      have hne : decide (j = i) = false := decide_eq_false fun heq => howner (congrArg some heq)
      exact ⟨rfl, fun q => by rw [Quota.counts, hne, Bool.and_false]⟩
    | inner j a =>
      have hne : decide (j = i) = false := decide_eq_false fun heq => howner (congrArg some heq)
      exact ⟨by rw [FleetAction.takes, hne, Bool.false_and],
        fun q => by rw [Quota.counts, hne, Bool.false_and]⟩
    | _ => exact ⟨rfl, fun _ => rfl⟩
  refine ⟨hcancelled, hquiet.1, fun q => ?_⟩
  rw [hquiet.2 q]
  exact le_refl _

/-- An instance takes a step; it may be this one. -/
theorem EventConsumer.windsDown_set {instances : List EventConsumer} {a : FleetAction} {i j : Nat}
    {c d e : EventConsumer} (hc : instances[i]? = some c) (hcancelled : c.cancelled = true)
    (hj : instances[j]? = some e) (howner : a.owner = some j)
    (hself : e.cancelled = true → e.WindsDown a j d) :
    ∃ c', (instances.set j d)[i]? = some c' ∧ c.WindsDown a i c' := by
  rcases eq_or_ne j i with rfl | hne
  · obtain rfl := Option.some.inj (hc.symm.trans hj)
    have hlt := (List.getElem?_eq_some_iff.mp hc).1
    exact ⟨d, List.getElem?_set_self hlt, hself hcancelled⟩
  · refine ⟨c, (List.getElem?_set_ne hne).trans hc, .of_owner hcancelled ?_⟩
    rw [howner]
    exact fun heq => hne (Option.some.inj heq)

/-- A step of `run` outside `run_inner`. -/
theorem EventConsumer.windsDown_run {a : FleetAction} {stage stage' : RunStage} {j : Nat}
    {cancelled : Bool} (htakes : a.takes j = false)
    (hquota : ∀ q : Quota, q.left stage' + (if q.counts j a then 1 else 0) ≤ q.left stage) :
    cancelled = true → EventConsumer.WindsDown a j ⟨cancelled, stage⟩ ⟨cancelled, stage'⟩ :=
  fun hcancelled => ⟨hcancelled, htakes, hquota⟩

/-- **Step lemma**, for a cancelled instance: whoever takes the step, it stays cancelled, takes
nothing from the stream, and has as much less of each quota as it has used. -/
theorem Fleet.Step.windsDown {st st' : Fleet} {a : FleetAction} {i : Nat} {c : EventConsumer}
    (hc : st.instances[i]? = some c) (hcancelled : c.cancelled = true)
    (hstep : st.Step serde count a st') :
    ∃ c', st'.instances[i]? = some c' ∧ c.WindsDown a i c' := by
  -- an attempt that fails leaves nothing
  have hattempt {a : FleetAction} {j : Nat} (hcounts : ∀ q : Quota, q.counts j a =
      (decide (q = .attempt) && decide (j = j))) (q : Quota) :
      q.left .waiting + (if q.counts j a then 1 else 0) ≤ q.left .acquiring := by
    rw [hcounts]
    cases q <;> simp [Quota.left, Quota.inner]
  cases hstep with
  | spawn =>
    have hlt := (List.getElem?_eq_some_iff.mp hc).1
    exact ⟨c, (List.getElem?_append_left hlt).trans hc,
      .of_owner hcancelled fun howner => by cases howner⟩
  | @cancel j e hj =>
    exact EventConsumer.windsDown_set hc hcancelled hj rfl fun _ => ⟨rfl, rfl, fun _ => le_refl _⟩
  | @acquire j conn cancelled lock hj hlock =>
    -- `run_inner` begins, with what it may do
    refine EventConsumer.windsDown_set hc hcancelled hj rfl
      (EventConsumer.windsDown_run rfl fun q => ?_)
    cases q <;> simp [Quota.left, Quota.inner, Quota.counts]
  | @acquireUnknown j conn cancelled lock hj hlock =>
    exact EventConsumer.windsDown_set hc hcancelled hj rfl
      (EventConsumer.windsDown_run rfl (hattempt fun _ => rfl))
  | @acquireBusy j conn cancelled answered hj hlock =>
    exact EventConsumer.windsDown_set hc hcancelled hj rfl
      (EventConsumer.windsDown_run rfl (hattempt fun _ => rfl))
  | @acquireFails j cancelled hj =>
    exact EventConsumer.windsDown_set hc hcancelled hj rfl
      (EventConsumer.windsDown_run rfl (hattempt fun _ => rfl))
  | @inner j conn cancelled stage phase a next w hj hinner =>
    refine EventConsumer.windsDown_set hc hcancelled hj rfl fun hk => ?_
    obtain rfl : cancelled = true := hk
    have hcancelled := InnerStage.CancelledStep.of_step hinner
    refine ⟨rfl, ?_, fun q => ?_⟩
    · rw [FleetAction.takes, hcancelled.takes, Bool.and_false]
    · have hquota := hcancelled.quota q
      rw [Quota.counts, decide_eq_true rfl, Bool.true_and]
      cases next with
      | none => exact hquota
      | some stage => exact hquota
  | release reached hj =>
    exact EventConsumer.windsDown_set hc hcancelled hj rfl
      (EventConsumer.windsDown_run rfl fun _ => le_refl _)
  | retry hj =>
    -- a cancelled instance returns instead
    exact EventConsumer.windsDown_set hc hcancelled hj rfl fun hk => by cases hk
  | returns hj =>
    exact EventConsumer.windsDown_set hc hcancelled hj rfl
      (EventConsumer.windsDown_run rfl fun _ => le_refl _)
  | endSession s => exact ⟨c, hc, .of_owner hcancelled fun howner => by cases howner⟩
  | @crash j e hj =>
    exact EventConsumer.windsDown_set hc hcancelled hj rfl
      (EventConsumer.windsDown_run rfl fun _ => Nat.zero_le _)
  | environment _ _ _ => exact ⟨c, hc, .of_owner hcancelled fun howner => by cases howner⟩

/-- The token of the instance is cancelled. -/
def Fleet.Cancelled (st : Fleet) (i : Nat) : Prop :=
  ∃ c : EventConsumer, st.instances[i]? = some c ∧ c.cancelled = true

/-- Steps that a cancelled instance has only so many of. -/
theorem Fleet.countP_le {st st' : Fleet} {as : List FleetAction} {i : Nat} {c : EventConsumer}
    (hrun : (fleet serde count).run st as = some st') (hc : st.instances[i]? = some c)
    (hcancelled : c.cancelled = true) (counted : FleetAction → Bool) (left : EventConsumer → Nat)
    (hleft : ∀ {a : FleetAction} {c c' : EventConsumer}, c.WindsDown a i c' →
      left c' + (if counted a then 1 else 0) ≤ left c) : as.countP counted ≤ left c := by
  have hrule : ((st'.instances[i]?).elim 0 left) + as.countP counted ≤
      (st.instances[i]?).elim 0 left := by
    apply Machine.run_bounded (I := fun st => st.Cancelled i) counted
      (fun st => (st.instances[i]?).elim 0 left) _ _ hrun ⟨c, hc, hcancelled⟩
    · rintro s a s' ⟨d, hd, hk⟩ hstep
      obtain ⟨d', hd', hdown⟩ := (Fleet.Step.of_step hstep).windsDown hd hk
      exact ⟨d', hd', hdown.cancelled⟩
    · rintro s a s' ⟨d, hd, hk⟩ hstep
      obtain ⟨d', hd', hdown⟩ := (Fleet.Step.of_step hstep).windsDown hd hk
      simp only [hd, hd', Option.elim_some]
      exact hleft hdown
  rw [hc, Option.elim_some] at hrule
  omega

/-- **After the shutdown.** Whatever the instances and the stores do after the token of an instance
is cancelled, it begins no read and no batch of pending entries. It sends at most one `XAUTOCLAIM`,
and only if the cancellation found it on the way there; at most one read is dropped that had been
delivered its entries; it tries to take the lock at most once, and begins at most two flushes. -/
theorem after_shutdown {st st' : Fleet} {as : List FleetAction} {i : Nat} {c : EventConsumer}
    (hrun : (fleet serde count).run st as = some st') (hc : st.instances[i]? = some c)
    (hcancelled : c.cancelled = true) :
    as.countP (FleetAction.takes i) = 0 ∧
      ∀ q : Quota, as.countP (q.counts i) ≤ q.left c.stage ∧ q.left c.stage ≤ q.most := by
  refine ⟨?_, fun q => ⟨?_, q.left_le_most c.stage⟩⟩
  · refine Nat.le_zero.mp (Fleet.countP_le hrun hc hcancelled _ (fun _ => 0) fun hdown => ?_)
    rw [hdown.takes]
    exact le_refl _
  · exact Fleet.countP_le hrun hc hcancelled _ (fun c => q.left c.stage) fun hdown => hdown.quota q

/-- An instance becomes the writer; a tick drops a read that had been delivered its entry, and the
cancellation finds the instance in the batch of this tick. -/
def cancelledInBatch : List FleetAction :=
  [.environment (.append (epochEntry 1)), .spawn, .acquire 0 0 true] ++
  ([.call .ensureConsumerGroup, .returns, .call (.selectGlobal DateTime.unixEpoch HashMap.empty),
    .call (.selectLinks HashMap.empty), .returns, .beginBatch, .claim true, .tick true,
    .beginBatch] : List InnerAction).map (.inner 0) ++ [.cancel 0]

/-- It claims the entry, records its click, and flushes for the tick and once more; both flushes
fail at their capture. -/
def batchThenFlushes : List FleetAction :=
  ([.claim true, .call (.processEntry true), .call .endBatch, .returns,
    .call (.flush DateTime.unixEpoch), .fails, .shutdown false,
    .call (.flush DateTime.unixEpoch), .fails] : List InnerAction).map (.inner 0) ++
  [.release 0 true, .returns 0]

theorem after_shutdown_inBatch : ∃ st st',
    (fleet epochSerde 1).run .init cancelledInBatch = some st ∧
    (fleet epochSerde 1).run st batchThenFlushes = some st' ∧
    batchThenFlushes.countP (Quota.claim.counts 0) = 1 ∧
    batchThenFlushes.countP (Quota.flush.counts 0) = 2 ∧
    batchThenFlushes.countP (FleetAction.takes 0) = 0 ∧
    ∀ q : Quota, batchThenFlushes.countP (q.counts 0) ≤ q.most := by
  have hvalues : (((fleet epochSerde 1).run .init cancelledInBatch).bind fun st =>
      ((fleet epochSerde 1).run st batchThenFlushes).map fun _ =>
        (st.instances[0]?).map EventConsumer.cancelled) = some (some true) := by
    decide
  obtain ⟨st, hrun, hrest⟩ := Option.bind_eq_some_iff.mp hvalues
  obtain ⟨st', hrest, hst⟩ := Option.map_eq_some_iff.mp hrest
  obtain ⟨c, hc, hcancelled⟩ := Option.map_eq_some_iff.mp hst
  obtain ⟨htakes, hquota⟩ := after_shutdown (i := 0) hrest hc hcancelled
  exact ⟨st, st', hrun, hrest, by decide, by decide, htakes,
    fun q => (hquota q).1.trans (hquota q).2⟩

end Cancelled

/-! ## What a stopped service leaves -/

/-- Postgres has every click that was processed: of a day, and of a link whose rows were kept. -/
def Stores.Exact (serde : SerdeJson) (s : Stores) : Prop :=
  ∀ b : Bucket, b.Of s.kept → s.pg.count b = ackedCount serde s.redis s.log b

/-- No instance tries to take the lock, and Redis keeps its data. -/
def FleetAction.waits : FleetAction → Bool
  | .acquire _ _ _ => false
  | .environment .loseData => false
  | _ => true

/-- No instance is in `run_inner`, and Postgres has every click that was processed. -/
structure Fleet.Stopped (serde : SerdeJson) (st : Fleet) : Prop where
  idle : ∀ c ∈ st.instances, c.writes = false
  stream : StreamInv st.stores.redis st.stores.log
  exact : st.stores.Exact serde

section Stopped

variable {serde : SerdeJson} {count : Nat} {st st' : Fleet} {a : FleetAction}

/-- One instance changes, and nothing of the stores. -/
theorem Fleet.Stopped.set (h : st.Stopped serde) {d : EventConsumer} (hd : d.writes = false)
    (lock : AdvisoryLock) (i : Nat) :
    Fleet.Stopped serde ⟨st.stores, lock, st.instances.set i d⟩ := by
  refine ⟨fun c hc => ?_, h.stream, h.exact⟩
  rcases List.mem_or_eq_of_mem_set hc with hc | rfl
  · exact h.idle c hc
  · exact hd

/-- The other services change nothing that a stopped one has to keep. -/
theorem Fleet.Stopped.environment (h : st.Stopped serde) {b : WriterAction} {w : WriterState}
    (hb : b.environment = true) (hlose : b ≠ .loseData)
    (hstep : (st.stores.at .stopped).step serde b = some w) :
    Fleet.Stopped serde { st with stores := w.stores } := by
  have hstep : (st.stores.at .stopped).Step serde b w := WriterState.Step.of_step hstep
  cases hstep with
  | append entry hadd =>
    refine ⟨h.idle, h.stream.xadd hadd, fun b hb => ?_⟩
    exact (h.exact b hb).trans (ackedCount_xadd serde h.stream hadd b).symm
  | createLink hcreate =>
    obtain ⟨-, rfl⟩ := Postgres.createLink_ok hcreate
    exact ⟨h.idle, h.stream, fun b hb => Eq.trans (by cases b <;> rfl) (h.exact b hb)⟩
  | deleteLink _ hdelete =>
    obtain rfl := Postgres.deleteLink_ok hdelete
    refine ⟨h.idle, h.stream, fun b hb => ?_⟩
    obtain ⟨hrow, hof⟩ := row_withoutLink_of st.stores.pg hb
    exact (congrArg (Option.getD · 0) hrow).trans (h.exact b hof)
  | createFails => exact h
  | deleteFails => exact h
  | loseData => exact absurd rfl hlose
  | drop _ hphase => exact absurd hphase id
  | _ => cases hb

/-- **Step lemma.** Nobody writes and nobody tries to, so only the gateway and the core service move
the stores, and they keep what `Exact` says. -/
theorem Fleet.Stopped.step (h : st.Stopped serde) (hwaits : a.waits = true)
    (hstep : st.Step serde count a st') : st'.Stopped serde := by
  cases hstep with
  | spawn =>
    refine ⟨fun c hc => ?_, h.stream, h.exact⟩
    rcases List.mem_append.mp hc with hc | hc
    · exact h.idle c hc
    · rw [List.mem_singleton.mp hc]
      rfl
  | cancel hc =>
    have hidle := h.idle _ (List.mem_of_getElem? hc)
    exact h.set (d := ⟨true, _⟩) hidle _ _
  | acquire _ _ => cases hwaits
  | acquireUnknown _ _ => cases hwaits
  | acquireBusy _ _ => cases hwaits
  | acquireFails _ => exact h.set (d := ⟨_, .waiting⟩) rfl _ _
  | inner hc _ => cases h.idle _ (List.mem_of_getElem? hc)
  | release _ _ => exact h.set (d := ⟨_, .waiting⟩) rfl _ _
  | retry _ => exact h.set (d := ⟨_, .acquiring⟩) rfl _ _
  | returns _ => exact h.set (d := ⟨_, .ended⟩) rfl _ _
  | endSession _ => exact ⟨h.idle, h.stream, h.exact⟩
  | crash _ => exact h.set (d := ⟨_, .ended⟩) rfl _ _
  | environment hb _ hstep =>
    exact h.environment hb (fun heq => by rw [heq] at hwaits; cases hwaits) hstep

/-- **What a flush leaves** that returns `Ok`, that of a tick or the last one. -/
theorem Fleet.exact_of_returns {as : List FleetAction} {i conn : Nat} {cancelled last : Bool}
    {phase : WriterPhase} (hmeets : (fleet serde count).Meets Fleet.KeepsGuard .init as)
    (hrun : (fleet serde count).run .init as = some st)
    (hflushing : st.instances[i]? = some ⟨cancelled, .inner conn (.flushing last) phase⟩)
    (hlose : .environment .loseData ∉ as)
    (hreturns : (fleet serde count).step st (.inner i .returns) = some st')
    (hfit : ∀ b, st'.project.appended serde b < 2 ^ 53) :
    st'.stores.Exact serde ∧ StreamInv st'.stores.redis st'.stores.log ∧ st'.stores.lost = [] := by
  have hheld := guarded_of_run hmeets hrun Fleet.Guarded.init i _ conn hflushing
    (decide_eq_true rfl)
  have hproject : st.project = st.stores.at phase := by
    rw [Fleet.project, Fleet.phase_of_heldBy hflushing hheld]
    exact congrArg st.stores.at (if_pos rfl)
  obtain ⟨bs, hbs, hmatch⟩ := Fleet.run_refines_of_keepsGuard hmeets hrun Fleet.Guarded.init
  rw [hproject] at hbs
  -- the step is a `flushReturns` of the writer
  change Fleet.step serde count st (.inner i .returns) = some st' at hreturns
  simp only [Fleet.step, hflushing] at hreturns
  obtain ⟨⟨next, w⟩, hinner, rfl⟩ := Option.map_eq_some_iff.mp hreturns
  obtain ⟨u, hflush, heq⟩ := Option.map_eq_some_iff.mp hinner
  obtain ⟨rfl, rfl⟩ := Prod.mk.inj heq
  have hwriter : (writer serde).run .init (bs ++ [.flushReturns]) = some u :=
    (writer serde).run_append_some.mpr ⟨_, hbs, (writer serde).run_cons_some.mpr ⟨u, hflush, rfl⟩⟩
  have hlose' : .loseData ∉ bs := fun hmem => hlose (FleetAction.mem_of_filter hmatch hmem rfl)
  have hfit' : u.CountsFit serde fun _ => 0 :=
    fun b => ⟨le_refl _, by rw [zero_add]; exact hfit b⟩
  have hlost : u.lost = [] := lost_eq hwriter (Machine.meets_of_forall _ (fun b hb heq => by
    rcases List.mem_append.mp hb with hb | hb
    · exact hlose' (heq ▸ hb)
    · rw [List.mem_singleton.mp hb] at heq
      cases heq) _)
  refine ⟨fun b hb => ?_, (writer_inv hwriter (WriterInv.init serde) hfit').stream, hlost⟩
  have hcount := count_of_flushReturns hwriter hlose' (WriterInv.init serde)
    (FilledInv.init serde) hfit' trivial hb
  unfold WriterState.creditable at hcount
  rw [hlost, zero_add] at hcount
  exact hcount.trans (zero_add _)

/-- When it is the last one, nobody is in `run_inner` any more. -/
theorem Fleet.idle_of_returns {i conn : Nat} {cancelled : Bool} {phase : WriterPhase}
    (h : st.Guarded)
    (hlast : st.instances[i]? = some ⟨cancelled, .inner conn (.flushing true) phase⟩)
    (hreturns : (fleet serde count).step st (.inner i .returns) = some st') :
    ∀ c ∈ st'.instances, c.writes = false := by
  have hheld := h i _ conn hlast (decide_eq_true rfl)
  have hlt := (List.getElem?_eq_some_iff.mp hlast).1
  have hguarded := h.step (a := .inner i .returns) trivial (Fleet.Step.of_step hreturns)
  change Fleet.step serde count st (.inner i .returns) = some st' at hreturns
  simp only [Fleet.step, hlast] at hreturns
  obtain ⟨⟨next, w⟩, hinner, rfl⟩ := Option.map_eq_some_iff.mp hreturns
  obtain ⟨u, -, heq⟩ := Option.map_eq_some_iff.mp hinner
  obtain ⟨rfl, rfl⟩ := Prod.mk.inj heq
  intro c hc
  rw [Bool.eq_false_iff]
  intro hwrites
  -- another instance in `run_inner` would have the lock as well
  obtain ⟨conn', hconn'⟩ := EventConsumer.writes_iff.mp hwrites
  obtain ⟨j, hj⟩ := List.mem_iff_getElem?.mp hc
  have hsame := (hguarded j c conn' hj hconn').unique hheld
  obtain rfl : j = i := congrArg PoolConnection.owner hsame
  obtain rfl := Option.some.inj ((List.getElem?_set_self hlt).symm.trans hj)
  cases hwrites

/-- What is appended is never fewer later. -/
theorem Fleet.appended_le {as : List FleetAction}
    (hmeets : (fleet serde count).Meets Fleet.KeepsGuard st as)
    (hrun : (fleet serde count).run st as = some st') (h : st.Guarded) (b : Bucket) :
    st.project.appended serde b ≤ st'.project.appended serde b := by
  obtain ⟨bs, hbs, -⟩ := Fleet.run_refines_of_keepsGuard hmeets hrun h
  exact (writer serde).run_invariant
    (I := fun w => st.project.appended serde b ≤ w.appended serde b)
    (fun _ _ _ hle hstep => hle.trans ((WriterState.Step.of_step hstep).countWhere_le _))
    hbs (le_refl _)

/-- **A stopped service has lost nothing.** Once `run_inner` has returned `Ok`, and until an instance
tries to take the lock again, the daily rows are the clicks that were acknowledged: of every
day, and of every link whose row was there throughout since its last upsert. -/
theorem counts_of_stopped {as cs : List FleetAction} {i conn : Nat} {cancelled : Bool}
    {phase : WriterPhase}
    (hmeets : (fleet serde count).Meets Fleet.KeepsGuard .init (as ++ .inner i .returns :: cs))
    (hrun : (fleet serde count).run .init as = some st)
    (hlast : st.instances[i]? = some ⟨cancelled, .inner conn (.flushing true) phase⟩)
    (hrest : (fleet serde count).run st (.inner i .returns :: cs) = some st')
    (hlose : .environment .loseData ∉ as) (hwaits : ∀ a ∈ cs, a.waits = true)
    (hfit : ∀ b, st'.project.appended serde b < 2 ^ 53) :
    (∀ d, st'.stores.pg.globalDailyClicks.val d =
      ackedCount serde st'.stores.redis st'.stores.log (.global d)) ∧
    ∀ c ∈ st'.stores.kept, ∀ d, st'.stores.pg.linkDailyClicks.val (c, d) =
      ackedCount serde st'.stores.redis st'.stores.log (.link c d) := by
  obtain ⟨hmeets, hmeets'⟩ := ((fleet serde count).meets_append hrun).mp hmeets
  obtain ⟨t, hreturns, hrest⟩ := (fleet serde count).run_cons_some.mp hrest
  have hguarded := guarded_of_run hmeets hrun Fleet.Guarded.init
  have hguarded' := hguarded.step (a := .inner i .returns) trivial (Fleet.Step.of_step hreturns)
  have hmeets' := (((fleet serde count).meets_cons hreturns).mp hmeets').2
  obtain ⟨hexact, hstream, -⟩ := Fleet.exact_of_returns hmeets hrun hlast hlose hreturns
    fun b => lt_of_le_of_lt (Fleet.appended_le hmeets' hrest hguarded' b) (hfit b)
  have hstopped : t.Stopped serde :=
    ⟨Fleet.idle_of_returns hguarded hlast hreturns, hstream, hexact⟩
  have hend : st'.Stopped serde := (fleet serde count).run_invariant_of_meets
    (C := fun _ a => a.waits = true)
    (fun _ _ _ h hw hstep => h.step hw (Fleet.Step.of_step hstep))
    (Machine.meets_of_forall _ hwaits t) hrest hstopped
  exact ⟨fun d => hend.exact (.global d) (fun code hcode => by cases hcode),
    fun c hc d => hend.exact (.link c d) (fun code hcode => Option.some.inj hcode ▸ hc)⟩

/-- An instance takes the lock, records a click, is cancelled, and flushes up to the reconciling
of Redis. -/
def clickStopping : List FleetAction :=
  [.environment (.createLink "a" "https://example.org" none), .spawn, .acquire 0 0 true,
    .inner 0 (.call .ensureConsumerGroup), .inner 0 .returns,
    .inner 0 (.call (.selectGlobal DateTime.unixEpoch HashMap.empty)),
    .inner 0 (.call (.selectLinks HashMap.empty)), .inner 0 .returns, .inner 0 .beginBatch,
    .inner 0 (.claim true),
    .environment (.append (epochEntry 1)), .inner 0 .read, .inner 0 .returns,
    .inner 0 (.call (.processEntry true)), .inner 0 .returns, .cancel 0,
    .inner 0 (.shutdown false)] ++
  (clickMerged ++ clickFlushed.dropLast).map fun a => .inner 0 (.call a)

/-- Another click comes while the guard is released. -/
def clickStopped : List FleetAction :=
  [.environment (.append (epochEntry 2)), .release 0 true, .returns 0]

theorem EventConsumer.eq_of_flushesLast {c : EventConsumer} (h : c.flushesLast = true) :
    ∃ conn phase, c = ⟨c.cancelled, .inner conn (.flushing true) phase⟩ := by
  obtain ⟨cancelled, stage⟩ := c
  unfold flushesLast at h
  split at h
  · next conn last phase hstage =>
    obtain rfl : stage = .inner conn (.flushing last) phase := hstage
    obtain rfl : last = true := h
    exact ⟨conn, phase, rfl⟩
  · cases h

theorem counts_of_stopped_click : ∃ st st', (fleet epochSerde 1).run .init clickStopping = some st ∧
    (fleet epochSerde 1).run st (.inner 0 .returns :: clickStopped) = some st' ∧
    st'.stores.pg.globalDailyClicks.val 0 = 1 ∧
    ∀ d, st'.stores.pg.globalDailyClicks.val d =
      ackedCount epochSerde st'.stores.redis st'.stores.log (.global d) := by
  have hvalues : (((fleet epochSerde 1).run .init clickStopping).bind fun st =>
      ((fleet epochSerde 1).run st (.inner 0 .returns :: clickStopped)).map fun st' =>
        ((st.instances[0]?).map EventConsumer.flushesLast,
          st'.stores.pg.globalDailyClicks.val 0,
          decide ((st'.stores.lost ++ st'.stores.log).length ≤ 2))) =
      some (some true, 1, true) := by
    decide
  obtain ⟨st, hrun, hrest⟩ := Option.bind_eq_some_iff.mp hvalues
  obtain ⟨st', hrest, hst⟩ := Option.map_eq_some_iff.mp hrest
  simp only [Prod.mk.injEq, decide_eq_true_eq] at hst
  obtain ⟨hstage, hglobal, hlen⟩ := hst
  obtain ⟨c, hc, hflushes⟩ := Option.map_eq_some_iff.mp hstage
  obtain ⟨conn, phase, heq⟩ := EventConsumer.eq_of_flushesLast hflushes
  have hfit : ∀ b, st'.project.appended epochSerde b < 2 ^ 53 := by
    intro b
    have hle := countWhere_le_length (st'.stores.lost ++ st'.stores.log)
      fun e => entryHits epochSerde e b
    show countWhere (st'.stores.lost ++ st'.stores.log) _ < _
    omega
  refine ⟨st, st', hrun, hrest, hglobal,
    (counts_of_stopped (by decide) hrun (heq ▸ hc) hrest ?_ (by decide) hfit).1⟩
  simp [clickStopping, clickMerged, clickFlushed]

end Stopped

end Kurl
