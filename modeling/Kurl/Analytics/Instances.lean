import Kurl.Analytics.RunInner
import Kurl.Lib.Simulation

/-!
# Kurl — the instances of the analytics service (`analytics/src/event_consumer.rs`)

Any number of processes run `EventConsumer::run` on the same stores. In each round a process
tries to take the advisory lock `ANALYTICS_WRITER_LOCK_ID` on a connection of its pool, and calls
`run_inner` if it gets it. Postgres gives the lock to a *session*: another attempt of the same
session succeeds as well, and the lock is free again when it has been released as often as it was
taken, or the session ends. An attempt or a release whose answer is lost may leave the lock with
a pooled connection that nobody waits for.

Nothing in `run_inner` uses the connection of the guard, so an instance does not notice that its
session has ended, and goes on writing next to the one that takes the lock after it. That is the
only way: an instance in `run_inner` has the lock all along exactly if no session ends whose
instance writes (`Fleet.KeepsGuard`), and then at most one instance is in `run_inner`
(`one_writer`). Where every answer arrives the lock is not lost either: it is free when no
instance is in `run_inner` or releases it, and the next attempt gets it (`acquires_iff`).
-/

namespace Kurl

open Lib

/-! ## The lock -/

/-- A connection of the pool of an instance. -/
structure PoolConnection where
  owner : Nat
  conn : Nat
  deriving DecidableEq

/-- The advisory lock; `again` counts the times that its session took it beyond the first. -/
inductive AdvisoryLock where
  | free
  | held (session : PoolConnection) (again : Nat)
  deriving DecidableEq

namespace AdvisoryLock

/-- `pg_try_advisory_lock` -/
def tryAcquire (s : PoolConnection) : AdvisoryLock → Option AdvisoryLock
  | .free => some (.held s 0)
  | .held holder again => if holder = s then some (.held holder (again + 1)) else none

/-- `pg_advisory_unlock` -/
def unlock (s : PoolConnection) : AdvisoryLock → AdvisoryLock
  | .free => .free
  | .held holder again =>
    if holder = s then
      match again with
      | 0 => .free
      | again + 1 => .held holder again
    else .held holder again

/-- Sessions end, and release what they hold. -/
def dropIf (ended : PoolConnection → Bool) : AdvisoryLock → AdvisoryLock
  | .free => .free
  | .held holder again => if ended holder then .free else .held holder again

def HeldBy (s : PoolConnection) : AdvisoryLock → Prop
  | .free => False
  | .held holder _ => holder = s

theorem HeldBy.unique {s t : PoolConnection} {lock : AdvisoryLock} (hs : lock.HeldBy s)
    (ht : lock.HeldBy t) : s = t := by
  cases lock with
  | free => exact hs.elim
  | held holder again => exact hs.symm.trans ht

theorem heldBy_of_tryAcquire {s : PoolConnection} {lock lock' : AdvisoryLock}
    (h : lock.tryAcquire s = some lock') : lock'.HeldBy s := by
  cases lock with
  | free =>
    obtain rfl := Option.some.inj h
    rfl
  | held holder again =>
    simp only [tryAcquire] at h
    split at h
    · next heq =>
      obtain rfl := Option.some.inj h
      exact heq
    · cases h

/-- Nobody but the session itself held the lock before. -/
theorem HeldBy.of_tryAcquire {s t : PoolConnection} {lock lock' : AdvisoryLock} (ht : lock.HeldBy t)
    (h : lock.tryAcquire s = some lock') : t = s := by
  cases lock with
  | free => exact ht.elim
  | held holder again =>
    simp only [tryAcquire] at h
    split at h
    · next heq => exact ht.symm.trans heq
    · cases h

theorem HeldBy.unlock {s t : PoolConnection} {lock : AdvisoryLock} (h : lock.HeldBy s)
    (hne : s ≠ t) : (lock.unlock t).HeldBy s := by
  cases lock with
  | free => exact h.elim
  | held holder again =>
    have hholder : ¬ holder = t := fun heq => hne (h.symm.trans heq)
    show HeldBy s (if holder = t then _ else AdvisoryLock.held holder again)
    rw [if_neg hholder]
    exact h

theorem unlock_of_not_heldBy {s : PoolConnection} {lock : AdvisoryLock} (h : ¬ lock.HeldBy s) :
    lock.unlock s = lock := by
  cases lock with
  | free => rfl
  | held holder again => exact if_neg h

theorem HeldBy.of_unlock {s t : PoolConnection} {lock : AdvisoryLock}
    (h : (lock.unlock t).HeldBy s) : lock.HeldBy s := by
  cases lock with
  | free => exact h
  | held holder again =>
    by_cases hholder : holder = t
    · cases again with
      | zero =>
        rw [show (AdvisoryLock.held holder 0).unlock t = .free from if_pos hholder] at h
        exact h.elim
      | succ again =>
        rwa [show (AdvisoryLock.held holder (again + 1)).unlock t = .held holder again from
          if_pos hholder] at h
    · have hnot : ¬ (AdvisoryLock.held holder again).HeldBy t := hholder
      rwa [unlock_of_not_heldBy hnot] at h

theorem HeldBy.dropIf {s : PoolConnection} {ended : PoolConnection → Bool} {lock : AdvisoryLock}
    (h : lock.HeldBy s) (hs : ended s = false) : (lock.dropIf ended).HeldBy s := by
  cases lock with
  | free => exact h.elim
  | held holder again =>
    obtain rfl : holder = s := h
    rw [AdvisoryLock.dropIf, hs]
    exact rfl

/-- What is held after sessions have ended was held before, and its session goes on. -/
theorem HeldBy.of_dropIf {s : PoolConnection} {ended : PoolConnection → Bool} {lock : AdvisoryLock}
    (h : (lock.dropIf ended).HeldBy s) : lock.HeldBy s ∧ ended s = false := by
  cases lock with
  | free => exact h.elim
  | held holder again =>
    cases hended : ended holder with
    | true =>
      rw [AdvisoryLock.dropIf, hended] at h
      exact h.elim
    | false =>
      rw [AdvisoryLock.dropIf, hended] at h
      obtain rfl : holder = s := h
      exact ⟨rfl, hended⟩

/-- Sessions that do not have the lock end. -/
theorem dropIf_of_not_heldBy {ended : PoolConnection → Bool} {lock : AdvisoryLock}
    (h : ∀ s, lock.HeldBy s → ended s = false) : lock.dropIf ended = lock := by
  cases lock with
  | free => rfl
  | held s again =>
    have hs := h s rfl
    rw [dropIf, hs]
    rfl

end AdvisoryLock

/-! ## The machine -/

/-- What the instances share. -/
structure Stores where
  redis : Redis
  pg : Postgres
  log : List StreamId
  lost : List StreamId
  kept : Finset String

/-- The stores as a writer sees them that is in this phase. -/
def Stores.at (stores : Stores) (phase : WriterPhase) : WriterState :=
  ⟨stores.redis, stores.pg, phase, stores.log, stores.lost, stores.kept⟩

def WriterState.stores (st : WriterState) : Stores := ⟨st.redis, st.pg, st.log, st.lost, st.kept⟩

/-- Where `run` is. -/
inductive RunStage where
  /-- In `acquire_writer`. -/
  | acquiring
  /-- In `run_inner`, with a guard on this connection. -/
  | inner (conn : Nat) (stage : InnerStage) (phase : WriterPhase)
  /-- In `release_now`. -/
  | releasing (conn : Nat)
  /-- In the `select!` between two rounds. -/
  | waiting
  /-- `run` has returned, or the process is gone. -/
  | ended

/-- A process, and whether its token is cancelled. -/
structure EventConsumer where
  cancelled : Bool
  stage : RunStage

namespace EventConsumer

def new : EventConsumer := ⟨false, .acquiring⟩

/-- The phase of the writer, for the guard on this connection. -/
def phaseOn (c : EventConsumer) (conn : Nat) : WriterPhase :=
  match c.stage with
  | .inner conn' _ phase => if conn' = conn then phase else .stopped
  | _ => .stopped

/-- The instance is in `run_inner`. -/
def writes (c : EventConsumer) : Bool :=
  match c.stage with
  | .inner _ _ _ => true
  | _ => false

/-- It is, with its guard on this connection. -/
def writesOn (c : EventConsumer) (conn : Nat) : Bool :=
  match c.stage with
  | .inner conn' _ _ => conn' = conn
  | _ => false

/-- The instance is in `acquire_writer`. -/
def acquires (c : EventConsumer) : Bool :=
  match c.stage with
  | .acquiring => true
  | _ => false

/-- It is in the last `flush` of `run_inner`. -/
def flushesLast (c : EventConsumer) : Bool :=
  match c.stage with
  | .inner _ (.flushing last) _ => last
  | _ => false

/-- A row lock of its merge makes a deletion wait. -/
def blocksDelete (c : EventConsumer) (shortCode : String) : Bool :=
  match c.stage with
  | .inner _ _ (.merging tx) => tx.locks.blocksDelete shortCode
  | _ => false

end EventConsumer

/-- The stores, the lock and the instances. -/
structure Fleet where
  stores : Stores
  lock : AdvisoryLock
  instances : List EventConsumer

/-- What an instance does in `run`, what it does in `run_inner` (`inner`), and what happens to it
from outside. -/
inductive FleetAction where
  | spawn
  /-- The shutdown of an instance is requested. -/
  | cancel (i : Nat)
  /-- `try_acquire` on a connection reaches Postgres; the answer comes or not. -/
  | acquire (i conn : Nat) (answered : Bool)
  /-- `acquire_writer` fails before that. -/
  | acquireFails (i : Nat)
  | inner (i : Nat) (a : InnerAction)
  /-- `release_now`, which reaches Postgres or not. -/
  | release (i : Nat) (reached : Bool)
  /-- The sleep of `LOCK_RETRY_INTERVAL` is over. -/
  | retry (i : Nat)
  /-- The `select!` sees the cancelled token. -/
  | returns (i : Nat)
  | endSession (s : PoolConnection)
  | crash (i : Nat)
  /-- The other services and the stores. -/
  | environment (a : WriterAction)

def WriterAction.environment : WriterAction → Bool
  | .append _ | .createLink _ _ _ | .deleteLink _ | .loseData => true
  | _ => false

namespace Fleet

def init : Fleet := ⟨WriterState.init.stores, .free, []⟩

def set (st : Fleet) (i : Nat) (c : EventConsumer) : Fleet :=
  { st with instances := st.instances.set i c }

def blocks (st : Fleet) : WriterAction → Bool
  | .deleteLink shortCode => st.instances.any fun c => c.blocksDelete shortCode
  | _ => false

/-- The next stage of an instance in `run_inner`, or the release of the guard. -/
def enter (st : Fleet) (i : Nat) (c : EventConsumer) (conn : Nat) (w : WriterState)
    (next : Option InnerStage) : Fleet :=
  { st with
    stores := w.stores
    instances := st.instances.set i { c with
      stage := match next with
        | some stage => .inner conn stage w.phase
        | none => .releasing conn } }

def step (serde : SerdeJson) (count : Nat) (st : Fleet) : FleetAction → Option Fleet
  | .spawn => some { st with instances := st.instances ++ [.new] }
  | .cancel i => (st.instances[i]?).map fun c => st.set i { c with cancelled := true }
  | .acquire i conn answered =>
    match st.instances[i]? with
    | some ⟨cancelled, .acquiring⟩ =>
      match st.lock.tryAcquire ⟨i, conn⟩ with
      | some lock => some { st with
          lock := lock
          instances := st.instances.set i ⟨cancelled,
            if answered then .inner conn .ensuringGroup .starting else .waiting⟩ }
      | none => some (st.set i ⟨cancelled, .waiting⟩)
    | _ => none
  | .acquireFails i =>
    match st.instances[i]? with
    | some ⟨cancelled, .acquiring⟩ => some (st.set i ⟨cancelled, .waiting⟩)
    | _ => none
  | .inner i a =>
    match st.instances[i]? with
    | some ⟨cancelled, .inner conn stage phase⟩ =>
      (stage.step serde count cancelled (st.stores.at phase) a).map fun (next, w) =>
        st.enter i ⟨cancelled, .waiting⟩ conn w next
    | _ => none
  | .release i reached =>
    match st.instances[i]? with
    | some ⟨cancelled, .releasing conn⟩ => some { st with
        lock := if reached then st.lock.unlock ⟨i, conn⟩ else st.lock
        instances := st.instances.set i ⟨cancelled, .waiting⟩ }
    | _ => none
  | .retry i =>
    match st.instances[i]? with
    -- the `select!` is biased towards the token
    | some ⟨false, .waiting⟩ => some (st.set i ⟨false, .acquiring⟩)
    | _ => none
  | .returns i =>
    match st.instances[i]? with
    | some ⟨true, .waiting⟩ => some (st.set i ⟨true, .ended⟩)
    | _ => none
  | .endSession s => some { st with lock := st.lock.dropIf fun t => t = s }
  | .crash i => (st.instances[i]?).map fun c => { st with
      lock := st.lock.dropIf fun t => t.owner = i
      instances := st.instances.set i { c with stage := .ended } }
  | .environment a =>
    if a.environment ∧ !st.blocks a then
      ((st.stores.at .stopped).step serde a).map fun w => { st with stores := w.stores }
    else none

end Fleet

def fleet (serde : SerdeJson) (count : Nat) : Machine Fleet FleetAction where
  step := Fleet.step serde count

/-! ## Steps -/

/-- **What each step does.** -/
inductive Fleet.Step (serde : SerdeJson) (count : Nat) (st : Fleet) : FleetAction → Fleet → Prop
  | spawn : Step serde count st .spawn { st with instances := st.instances ++ [.new] }
  | cancel {i : Nat} {c : EventConsumer} (hc : st.instances[i]? = some c) :
      Step serde count st (.cancel i) (st.set i { c with cancelled := true })
  | acquire {i conn : Nat} {cancelled : Bool} {lock : AdvisoryLock}
      (hc : st.instances[i]? = some ⟨cancelled, .acquiring⟩)
      (hlock : st.lock.tryAcquire ⟨i, conn⟩ = some lock) :
      Step serde count st (.acquire i conn true) { st with
        lock := lock
        instances := st.instances.set i ⟨cancelled, .inner conn .ensuringGroup .starting⟩ }
  | acquireUnknown {i conn : Nat} {cancelled : Bool} {lock : AdvisoryLock}
      (hc : st.instances[i]? = some ⟨cancelled, .acquiring⟩)
      (hlock : st.lock.tryAcquire ⟨i, conn⟩ = some lock) :
      Step serde count st (.acquire i conn false) { st with
        lock := lock
        instances := st.instances.set i ⟨cancelled, .waiting⟩ }
  /-- Another instance has the lock. -/
  | acquireBusy {i conn : Nat} {cancelled answered : Bool}
      (hc : st.instances[i]? = some ⟨cancelled, .acquiring⟩)
      (hlock : st.lock.tryAcquire ⟨i, conn⟩ = none) :
      Step serde count st (.acquire i conn answered) (st.set i ⟨cancelled, .waiting⟩)
  | acquireFails {i : Nat} {cancelled : Bool}
      (hc : st.instances[i]? = some ⟨cancelled, .acquiring⟩) :
      Step serde count st (.acquireFails i) (st.set i ⟨cancelled, .waiting⟩)
  | inner {i conn : Nat} {cancelled : Bool} {stage : InnerStage} {phase : WriterPhase}
      {a : InnerAction} {next : Option InnerStage} {w : WriterState}
      (hc : st.instances[i]? = some ⟨cancelled, .inner conn stage phase⟩)
      (hstep : stage.step serde count cancelled (st.stores.at phase) a = some (next, w)) :
      Step serde count st (.inner i a) (st.enter i ⟨cancelled, .waiting⟩ conn w next)
  | release {i conn : Nat} {cancelled : Bool} (reached : Bool)
      (hc : st.instances[i]? = some ⟨cancelled, .releasing conn⟩) :
      Step serde count st (.release i reached) { st with
        lock := if reached then st.lock.unlock ⟨i, conn⟩ else st.lock
        instances := st.instances.set i ⟨cancelled, .waiting⟩ }
  | retry {i : Nat} (hc : st.instances[i]? = some ⟨false, .waiting⟩) :
      Step serde count st (.retry i) (st.set i ⟨false, .acquiring⟩)
  | returns {i : Nat} (hc : st.instances[i]? = some ⟨true, .waiting⟩) :
      Step serde count st (.returns i) (st.set i ⟨true, .ended⟩)
  | endSession (s : PoolConnection) :
      Step serde count st (.endSession s) { st with lock := st.lock.dropIf fun t => t = s }
  | crash {i : Nat} {c : EventConsumer} (hc : st.instances[i]? = some c) :
      Step serde count st (.crash i) { st with
        lock := st.lock.dropIf fun t => t.owner = i
        instances := st.instances.set i { c with stage := .ended } }
  | environment {a : WriterAction} {w : WriterState} (ha : a.environment = true)
      (hfree : st.blocks a = false) (hstep : (st.stores.at .stopped).step serde a = some w) :
      Step serde count st (.environment a) { st with stores := w.stores }

/-- The inversion holds. A step of `run_inner` is one of the writer on the shared stores, so this
unfolds nothing of the writer. -/
theorem Fleet.Step.of_step {serde : SerdeJson} {count : Nat} {st st' : Fleet} {a : FleetAction}
    (h : (fleet serde count).step st a = some st') : st.Step serde count a st' := by
  change st.step serde count a = some st' at h
  cases a with
  | spawn =>
    obtain rfl := Option.some.inj h
    exact .spawn
  | cancel i =>
    obtain ⟨c, hc, rfl⟩ := Option.map_eq_some_iff.mp h
    exact .cancel hc
  | acquire i conn answered =>
    simp only [step] at h
    split at h
    · next hc =>
      split at h
      · next lock hlock =>
        obtain rfl := Option.some.inj h
        cases answered with
        | true => exact .acquire hc hlock
        | false => exact .acquireUnknown hc hlock
      · next hlock =>
        obtain rfl := Option.some.inj h
        exact .acquireBusy hc hlock
    · cases h
  | acquireFails i =>
    simp only [step] at h
    split at h
    · next hc =>
      obtain rfl := Option.some.inj h
      exact .acquireFails hc
    · cases h
  | inner i a =>
    simp only [step] at h
    split at h
    · next hc =>
      obtain ⟨⟨next, w⟩, hstep, rfl⟩ := Option.map_eq_some_iff.mp h
      exact .inner hc hstep
    · cases h
  | release i reached =>
    simp only [step] at h
    split at h
    · next hc =>
      obtain rfl := Option.some.inj h
      exact .release reached hc
    · cases h
  | retry i =>
    simp only [step] at h
    split at h
    · next hc =>
      obtain rfl := Option.some.inj h
      exact .retry hc
    · cases h
  | returns i =>
    simp only [step] at h
    split at h
    · next hc =>
      obtain rfl := Option.some.inj h
      exact .returns hc
    · cases h
  | endSession s =>
    obtain rfl := Option.some.inj h
    exact .endSession s
  | crash i =>
    obtain ⟨c, hc, rfl⟩ := Option.map_eq_some_iff.mp h
    exact .crash hc
  | environment a =>
    simp only [step] at h
    split at h
    · next hguard =>
      obtain ⟨w, hstep, rfl⟩ := Option.map_eq_some_iff.mp h
      exact .environment hguard.1 (by simpa using hguard.2) hstep
    · cases h

/-! ## One writer -/

section Guard

variable {serde : SerdeJson} {count : Nat} {st st' : Fleet} {a : FleetAction}

/-- An instance in `run_inner` has the lock. -/
def Fleet.Guarded (st : Fleet) : Prop :=
  ∀ i c conn, st.instances[i]? = some c → c.writesOn conn = true → st.lock.HeldBy ⟨i, conn⟩

/-- The session of an instance in `run_inner` does not end. -/
def Fleet.KeepsGuard (st : Fleet) : FleetAction → Prop
  | .endSession s => ∀ c ∈ st.instances[s.owner]?, c.writesOn s.conn = false
  | _ => True

instance (st : Fleet) : DecidablePred st.KeepsGuard
  | .endSession s =>
    inferInstanceAs (Decidable (∀ c ∈ st.instances[s.owner]?, c.writesOn s.conn = false))
  | .spawn | .cancel _ | .acquire _ _ _ | .acquireFails _ | .inner _ _ | .release _ _ | .retry _
  | .returns _ | .crash _ | .environment _ => isTrue trivial

/-- One instance changes, and the lock for nobody else. -/
theorem Fleet.Guarded.set (h : st.Guarded) {i : Nat} {c : EventConsumer} {lock : AdvisoryLock}
    (hothers : ∀ s : PoolConnection, s.owner ≠ i → st.lock.HeldBy s → lock.HeldBy s)
    (hself : ∀ conn, c.writesOn conn = true → lock.HeldBy ⟨i, conn⟩) (stores : Stores) :
    Fleet.Guarded ⟨stores, lock, st.instances.set i c⟩ := by
  intro j d conn hd hwrites
  by_cases hij : i = j
  · subst hij
    have hlt : i < st.instances.length := by
      have hset := (List.getElem?_eq_some_iff.mp hd).1
      rwa [List.length_set] at hset
    rw [List.getElem?_set_self hlt] at hd
    obtain rfl := Option.some.inj hd
    exact hself conn hwrites
  · rw [List.getElem?_set_ne hij] at hd
    exact hothers ⟨j, conn⟩ (fun heq => hij heq.symm) (h j d conn hd hwrites)

theorem Fleet.Guarded.set_idle (h : st.Guarded) {i : Nat} {c : EventConsumer}
    (hidle : ∀ conn, c.writesOn conn = false) : (st.set i c).Guarded :=
  h.set (fun _ _ hs => hs) (fun conn hw => absurd hw (by simp [hidle conn])) st.stores

/-- **Step lemma.** An instance enters `run_inner` with the lock, and loses it only by a release or
with its session. -/
theorem Fleet.Guarded.step (h : st.Guarded) (hkeeps : st.KeepsGuard a)
    (hstep : st.Step serde count a st') : st'.Guarded := by
  cases hstep with
  | spawn =>
    intro i c conn hc hwrites
    rcases Nat.lt_or_ge i st.instances.length with hlt | hge
    · rw [List.getElem?_append_left hlt] at hc
      exact h i c conn hc hwrites
    · rw [List.getElem?_append_right hge] at hc
      obtain rfl := List.mem_singleton.mp (List.mem_of_getElem? hc)
      cases hwrites
  | cancel hc =>
    exact h.set (c := ⟨true, _⟩) (fun _ _ hs => hs) (fun conn hw => h _ _ conn hc hw) st.stores
  | acquire hc hlock =>
    -- the lock was free, or the session had it: nobody else was guarded by it
    apply h.set
    · intro s hs hheld
      rw [hheld.of_tryAcquire hlock] at hs
      exact absurd rfl hs
    · intro conn' hw
      obtain rfl : _ = conn' := of_decide_eq_true hw
      exact AdvisoryLock.heldBy_of_tryAcquire hlock
  | acquireUnknown hc hlock =>
    -- the lock may be with a pooled connection now, but no instance writes because of that
    apply h.set
    · intro s hs hheld
      rw [hheld.of_tryAcquire hlock] at hs
      exact absurd rfl hs
    · intro conn' hw
      cases hw
  | acquireBusy _ _ => exact h.set_idle fun _ => rfl
  | acquireFails _ => exact h.set_idle fun _ => rfl
  | inner hc _ =>
    apply h.set (fun _ _ hs => hs)
    intro conn' hw
    split at hw
    · obtain rfl : _ = conn' := of_decide_eq_true hw
      exact h _ _ _ hc (decide_eq_true rfl)
    · cases hw
  | release reached hc =>
    -- an unlock takes the lock from its own session only
    apply h.set
    · intro s hs hheld
      cases reached with
      | true => exact hheld.unlock fun heq => hs (congrArg PoolConnection.owner heq)
      | false => exact hheld
    · intro conn' hw
      cases hw
  | retry _ => exact h.set_idle fun _ => rfl
  | returns _ => exact h.set_idle fun _ => rfl
  | endSession s =>
    -- this is the step that the condition is about: the session is none that writes
    intro i c conn hc hwrites
    apply (h i c conn hc hwrites).dropIf
    apply decide_eq_false
    rintro rfl
    rw [hkeeps c hc] at hwrites
    cases hwrites
  | crash _ =>
    -- a crash ends the sessions of one process and leaves those of the others
    apply h.set
    · intro s hs hheld
      exact hheld.dropIf (decide_eq_false hs)
    · intro conn' hw
      cases hw
  | environment _ _ _ => exact h

theorem Fleet.Guarded.init : Fleet.init.Guarded := fun _ _ _ hc _ => by cases hc

/-- **Run lemma.** From a guarded state on, as long as no session ends whose instance writes. -/
theorem guarded_of_run {as : List FleetAction}
    (hmeets : (fleet serde count).Meets Fleet.KeepsGuard st as)
    (hrun : (fleet serde count).run st as = some st') (hinit : st.Guarded) : st'.Guarded :=
  (fleet serde count).run_invariant_of_meets
    (fun _ _ _ h hkeeps hstep => h.step hkeeps (Fleet.Step.of_step hstep)) hmeets hrun hinit

/-- The connection of a guard. -/
theorem EventConsumer.writes_iff {c : EventConsumer} :
    c.writes = true ↔ ∃ conn, c.writesOn conn = true := by
  unfold writes writesOn
  split
  · next conn _ _ _ => exact ⟨fun _ => ⟨conn, decide_eq_true rfl⟩, fun _ => rfl⟩
  · exact ⟨fun h => (by cases h), fun ⟨_, h⟩ => (by cases h)⟩

/-- A session ends whose instance writes: it goes on without the lock. -/
theorem Fleet.not_guarded (hbreaks : ¬ st.KeepsGuard a) (hstep : st.Step serde count a st') :
    ¬ st'.Guarded := by
  intro h'
  cases hstep with
  | endSession s =>
    unfold KeepsGuard at hbreaks
    push Not at hbreaks
    obtain ⟨c, hc, hwrites⟩ := hbreaks
    have hheld := h' s.owner c s.conn hc (by simpa using hwrites)
    have hended := hheld.of_dropIf.2
    simp at hended
  | _ => exact hbreaks trivial

/-- **Mutual exclusion.** In every run, whoever is in `run_inner` has the lock at every point
exactly if no session ends whose instance writes; and then no two instances are in
`run_inner`. -/
theorem one_writer {as : List FleetAction} (hrun : (fleet serde count).run .init as = some st) :
    ((∀ bs t, bs <+: as → (fleet serde count).run .init bs = some t → t.Guarded) ↔
      (fleet serde count).Meets Fleet.KeepsGuard .init as) ∧
    ((fleet serde count).Meets Fleet.KeepsGuard .init as → ∀ (i j : Nat) (c d : EventConsumer),
      st.instances[i]? = some c → st.instances[j]? = some d → c.writes = true →
      d.writes = true → i = j) := by
  constructor
  · apply Machine.always_iff_meets _ _ hrun Fleet.Guarded.init
    · intro s a s' h hkeeps hstep
      exact h.step hkeeps (Fleet.Step.of_step hstep)
    · intro s a s' _ hbreaks hstep
      exact Fleet.not_guarded hbreaks (Fleet.Step.of_step hstep)
  · intro hmeets i j c d hc hd hwrites hwrites'
    have hguarded := guarded_of_run hmeets hrun Fleet.Guarded.init
    obtain ⟨conn, hconn⟩ := EventConsumer.writes_iff.mp hwrites
    obtain ⟨conn', hconn'⟩ := EventConsumer.writes_iff.mp hwrites'
    have hsame := (hguarded i c conn hc hconn).unique (hguarded j d conn' hd hconn')
    exact congrArg PoolConnection.owner hsame

/-- An instance takes the lock, another one finds it taken, and takes it over when the first one
is gone. -/
def takeover : List FleetAction :=
  [.spawn, .spawn, .acquire 0 0 true, .acquire 1 0 true, .inner 0 (.call .ensureConsumerGroup),
    .crash 0, .retry 1, .acquire 1 0 true]

theorem one_writer_takeover : ∃ st, (fleet epochSerde 10).run .init takeover = some st ∧
    st.instances.map EventConsumer.writes = [false, true] ∧
    ∀ (i j : Nat) (c d : EventConsumer), st.instances[i]? = some c → st.instances[j]? = some d →
      c.writes = true → d.writes = true → i = j := by
  have hvalues : (((fleet epochSerde 10).run .init takeover).map
      fun st => st.instances.map EventConsumer.writes) = some [false, true] := by
    decide
  obtain ⟨st, hrun, hwrites⟩ := Option.map_eq_some_iff.mp hvalues
  exact ⟨st, hrun, hwrites, (one_writer hrun).2 (by decide)⟩

/-- The session of the first one ends, and it does not notice. -/
example : (((fleet epochSerde 10).run .init [.spawn, .spawn, .acquire 0 0 true,
    .endSession ⟨0, 0⟩, .acquire 1 0 true]).map
      fun st => st.instances.map EventConsumer.writes) = some [true, true] := by decide

end Guard

/-! ## The lock is not lost -/

section Handover

variable {serde : SerdeJson} {count : Nat} {st st' : Fleet} {a : FleetAction}

/-- The instance has a guard on this connection: it is in `run_inner` or releases it. -/
def EventConsumer.holdsOn (c : EventConsumer) (conn : Nat) : Bool :=
  match c.stage with
  | .inner conn' _ _ | .releasing conn' => conn' = conn
  | _ => false

/-- Postgres is reached and its answer arrives, and no session ends that has the lock. -/
def Fleet.Answered (st : Fleet) : FleetAction → Prop
  | .acquire _ _ answered => answered = true
  | .release _ reached => reached = true
  | .endSession s => ∀ c ∈ st.instances[s.owner]?, c.holdsOn s.conn = false
  | _ => True

instance (st : Fleet) : DecidablePred st.Answered
  | .acquire _ _ answered => inferInstanceAs (Decidable (answered = true))
  | .release _ reached => inferInstanceAs (Decidable (reached = true))
  | .endSession s =>
    inferInstanceAs (Decidable (∀ c ∈ st.instances[s.owner]?, c.holdsOn s.conn = false))
  | .spawn | .cancel _ | .acquireFails _ | .inner _ _ | .retry _ | .returns _ | .crash _
  | .environment _ => isTrue trivial

/-- The lock is held once, by the session of the one guard there is, or there is no guard. -/
structure Fleet.HandedOver (st : Fleet) : Prop where
  once : ∀ s again, st.lock = .held s again → again = 0
  guard : ∀ i conn, st.lock.HeldBy ⟨i, conn⟩ ↔
    ∃ c : EventConsumer, st.instances[i]? = some c ∧ c.holdsOn conn = true

theorem Fleet.HandedOver.init : Fleet.init.HandedOver where
  once := fun _ _ h => by cases h
  guard := fun i conn => ⟨fun h => h.elim, fun ⟨c, hc, _⟩ => by cases hc⟩

/-- An instance changes, and its guard does not. -/
theorem Fleet.HandedOver.set (h : st.HandedOver) {i : Nat} {c d : EventConsumer}
    (hc : st.instances[i]? = some c) (hsame : ∀ conn, d.holdsOn conn = c.holdsOn conn)
    (stores : Stores) : Fleet.HandedOver ⟨stores, st.lock, st.instances.set i d⟩ := by
  refine ⟨h.once, fun j conn => (h.guard j conn).trans ?_⟩
  by_cases hij : i = j
  · subst hij
    have hlt := (List.getElem?_eq_some_iff.mp hc).1
    simp only [hc, List.getElem?_set_self hlt, Option.some.injEq, exists_eq_left', hsame]
  · simp only [List.getElem?_set_ne hij]

/-- Only this instance can have had the lock, which is free now. -/
theorem Fleet.HandedOver.set_free (h : st.HandedOver) {i : Nat} {d : EventConsumer}
    (hlock : ∀ s, st.lock.HeldBy s → s.owner = i) (hd : ∀ conn, d.holdsOn conn = false)
    (stores : Stores) : Fleet.HandedOver ⟨stores, .free, st.instances.set i d⟩ where
  once := fun _ _ hlock => by cases hlock
  guard := fun j conn => by
    refine ⟨fun hheld => hheld.elim, fun ⟨c, hc, hholds⟩ => ?_⟩
    by_cases hij : i = j
    · subst hij
      have hlt : i < st.instances.length := by
        have hset := (List.getElem?_eq_some_iff.mp hc).1
        rwa [List.length_set] at hset
      obtain rfl := Option.some.inj ((List.getElem?_set_self hlt).symm.trans hc)
      rw [hd conn] at hholds
      cases hholds
    · have hold := (List.getElem?_set_ne hij).symm.trans hc
      exact absurd (hlock _ ((h.guard j conn).mpr ⟨c, hold, hholds⟩)).symm hij

/-- An instance that has no guard takes the lock: it was free. -/
theorem Fleet.HandedOver.free_of_tryAcquire (h : st.HandedOver) {i conn : Nat} {c : EventConsumer}
    {lock : AdvisoryLock} (hc : st.instances[i]? = some c) (hnone : c.holdsOn conn = false)
    (hlock : st.lock.tryAcquire ⟨i, conn⟩ = some lock) :
    st.lock = .free ∧ lock = .held ⟨i, conn⟩ 0 := by
  cases hbefore : st.lock with
  | free =>
    rw [hbefore] at hlock
    exact ⟨rfl, (Option.some.inj hlock).symm⟩
  | held s again =>
    have hs : st.lock.HeldBy s := by
      rw [hbefore]
      rfl
    obtain rfl := hs.of_tryAcquire hlock
    obtain ⟨d, hd, hholds⟩ := (h.guard i conn).mp hs
    obtain rfl := Option.some.inj (hc.symm.trans hd)
    rw [hnone] at hholds
    cases hholds

/-- **Step lemma.** With every answer arriving, the lock and the one guard come and go together. -/
theorem Fleet.HandedOver.step (h : st.HandedOver) (hanswered : st.Answered a)
    (hstep : st.Step serde count a st') : st'.HandedOver := by
  cases hstep with
  | spawn =>
    refine ⟨h.once, fun i conn => (h.guard i conn).trans ?_⟩
    constructor
    · rintro ⟨c, hc, hholds⟩
      have hlt := (List.getElem?_eq_some_iff.mp hc).1
      exact ⟨c, (List.getElem?_append_left hlt).trans hc, hholds⟩
    · rintro ⟨c, hc, hholds⟩
      -- the new instance has no guard yet
      rcases Nat.lt_or_ge i st.instances.length with hlt | hge
      · exact ⟨c, (List.getElem?_append_left hlt).symm.trans hc, hholds⟩
      · have hnew := (List.getElem?_append_right hge).symm.trans hc
        obtain rfl := List.mem_singleton.mp (List.mem_of_getElem? hnew)
        cases hholds
  | cancel hc => exact h.set (d := ⟨true, _⟩) hc (fun _ => rfl) _
  | @acquire i conn cancelled lock hc hlock =>
    obtain ⟨hfree, rfl⟩ := h.free_of_tryAcquire hc rfl hlock
    have hlt := (List.getElem?_eq_some_iff.mp hc).1
    refine ⟨fun s again heq => by cases heq; rfl, fun j conn' => ?_⟩
    -- the guard is where the lock is: with this instance, and with no other
    by_cases hij : i = j
    · subst hij
      constructor
      · intro heq
        obtain rfl : conn = conn' := congrArg PoolConnection.conn heq
        exact ⟨_, List.getElem?_set_self hlt, decide_eq_true rfl⟩
      · rintro ⟨c, hc', hholds⟩
        obtain rfl := Option.some.inj ((List.getElem?_set_self hlt).symm.trans hc')
        obtain rfl : conn = conn' := of_decide_eq_true hholds
        rfl
    · constructor
      · intro heq
        exact absurd (congrArg PoolConnection.owner heq) hij
      · rintro ⟨c, hc', hholds⟩
        have hbefore := (h.guard j conn').mpr
          ⟨c, (List.getElem?_set_ne hij).symm.trans hc', hholds⟩
        rw [hfree] at hbefore
        exact hbefore.elim
  | acquireUnknown _ _ => cases hanswered
  | acquireBusy hc _ => exact h.set (d := ⟨_, .waiting⟩) hc (fun _ => rfl) _
  | acquireFails hc => exact h.set (d := ⟨_, .waiting⟩) hc (fun _ => rfl) _
  | @inner _ _ _ _ _ _ next _ hc _ =>
    refine h.set hc (fun _ => ?_) _
    cases next <;> rfl
  | @release i conn cancelled reached hc =>
    obtain rfl : reached = true := hanswered
    have hheld := (h.guard i conn).mpr ⟨_, hc, decide_eq_true rfl⟩
    -- the session took the lock once, so one release frees it
    have hfree : st.lock.unlock ⟨i, conn⟩ = .free := by
      cases hlock : st.lock with
      | free => rfl
      | held s again =>
        rw [hlock] at hheld
        obtain rfl : s = ⟨i, conn⟩ := hheld
        rw [h.once _ again hlock]
        exact if_pos rfl
    rw [if_pos rfl, hfree]
    exact h.set_free (fun s hs => congrArg PoolConnection.owner (hs.unique hheld)) (fun _ => rfl) _
  | retry hc => exact h.set (d := ⟨_, .acquiring⟩) hc (fun _ => rfl) _
  | returns hc => exact h.set (d := ⟨_, .ended⟩) hc (fun _ => rfl) _
  | endSession s =>
    rw [AdvisoryLock.dropIf_of_not_heldBy fun t ht => ?_]
    · exact h
    · apply decide_eq_false
      rintro rfl
      obtain ⟨c, hc, hholds⟩ := (h.guard t.owner t.conn).mp ht
      rw [hanswered c hc] at hholds
      cases hholds
  | @crash i c hc =>
    -- the lock goes with the sessions of the process, if one of them had it
    by_cases hheld : ∃ s, st.lock.HeldBy s ∧ s.owner = i
    · obtain ⟨s, hs, howner⟩ := hheld
      have hfree : (st.lock.dropIf fun t => t.owner = i) = .free := by
        cases hlock : st.lock with
        | free => rfl
        | held t again =>
          rw [hlock] at hs
          obtain rfl : t = s := hs
          simp [AdvisoryLock.dropIf, howner]
      rw [hfree]
      exact h.set_free (fun t ht => by rw [ht.unique hs, howner]) (fun _ => rfl) _
    · have hother : ∀ s, st.lock.HeldBy s → s.owner ≠ i := fun s hs howner => hheld ⟨s, hs, howner⟩
      rw [AdvisoryLock.dropIf_of_not_heldBy fun s hs => decide_eq_false (hother s hs)]
      refine h.set hc (fun conn => ?_) _
      -- an instance without the lock has no guard
      cases hholds : c.holdsOn conn with
      | false => rfl
      | true => exact absurd rfl (hother _ ((h.guard i conn).mpr ⟨c, hc, hholds⟩))
  | environment _ _ _ => exact ⟨h.once, h.guard⟩

/-- The instance is in `run_inner` or releases its guard. -/
def EventConsumer.holds (c : EventConsumer) : Bool :=
  match c.stage with
  | .inner _ _ _ | .releasing _ => true
  | _ => false

theorem EventConsumer.holds_of_holdsOn {c : EventConsumer} {conn : Nat}
    (h : c.holdsOn conn = true) : c.holds = true := by
  unfold holdsOn at h
  unfold holds
  split at h
  · rfl
  · rfl
  · cases h

theorem EventConsumer.holdsOn_of_holds {c : EventConsumer} (h : c.holds = true) :
    ∃ conn, c.holdsOn conn = true := by
  unfold holds at h
  unfold holdsOn
  split at h
  · next conn _ _ _ => exact ⟨conn, decide_eq_true rfl⟩
  · next conn _ => exact ⟨conn, decide_eq_true rfl⟩
  · cases h

/-- **The lock is handed over.** In a run where the answers of Postgres arrive and no session ends
that has the lock, whatever else happens, an attempt gets the lock exactly if no instance is in
`run_inner` or releases its guard. -/
theorem acquires_iff {as : List FleetAction}
    (hmeets : (fleet serde count).Meets Fleet.Answered .init as)
    (hrun : (fleet serde count).run .init as = some st) {i : Nat} {cancelled : Bool}
    (hc : st.instances[i]? = some ⟨cancelled, .acquiring⟩) (conn : Nat) :
    (st.lock.tryAcquire ⟨i, conn⟩).isSome = true ↔ ∀ c ∈ st.instances, c.holds = false := by
  have h : st.HandedOver := (fleet serde count).run_invariant_of_meets
    (fun _ _ _ h hanswered hstep => h.step hanswered (Fleet.Step.of_step hstep)) hmeets hrun
    Fleet.HandedOver.init
  constructor
  · -- the attempt found the lock free, and a guard would have it
    intro hsome c hmem
    obtain ⟨lock, hlock⟩ := Option.isSome_iff_exists.mp hsome
    obtain ⟨hfree, -⟩ := h.free_of_tryAcquire hc rfl hlock
    rw [Bool.eq_false_iff]
    intro hholds
    obtain ⟨conn', hconn'⟩ := EventConsumer.holdsOn_of_holds hholds
    obtain ⟨j, hj⟩ := List.mem_iff_getElem?.mp hmem
    have hheld := (h.guard j conn').mpr ⟨c, hj, hconn'⟩
    rw [hfree] at hheld
    exact hheld.elim
  · -- if somebody had the lock it would be an instance with a guard
    intro hnone
    cases hlock : st.lock with
    | free => rfl
    | held s again =>
      have hs : st.lock.HeldBy ⟨s.owner, s.conn⟩ := by
        rw [hlock]
        rfl
      obtain ⟨c, hcs, hholds⟩ := (h.guard s.owner s.conn).mp hs
      have hfalse := hnone c (List.mem_of_getElem? hcs)
      rw [EventConsumer.holds_of_holdsOn hholds] at hfalse
      cases hfalse

theorem EventConsumer.stage_of_acquires {c : EventConsumer} (h : c.acquires = true) :
    c.stage = .acquiring := by
  unfold acquires at h
  split at h
  · next hstage => exact hstage
  · cases h

/-- The second instance of `takeover`, before it takes the lock. -/
theorem acquires_iff_takeover : ∃ st, (fleet epochSerde 10).run .init takeover.dropLast = some st ∧
    ((st.lock.tryAcquire ⟨1, 0⟩).isSome = true ↔ ∀ c ∈ st.instances, c.holds = false) := by
  have hvalues : ((fleet epochSerde 10).run .init takeover.dropLast).map
      (fun st => (st.instances[1]?).map EventConsumer.acquires) = some (some true) := by
    decide
  obtain ⟨st, hrun, hst⟩ := Option.map_eq_some_iff.mp hvalues
  obtain ⟨c, hc, hacquires⟩ := Option.map_eq_some_iff.mp hst
  have hstage := EventConsumer.stage_of_acquires hacquires
  have hc' : st.instances[1]? = some ⟨c.cancelled, .acquiring⟩ := by rw [hc, ← hstage]
  exact ⟨st, hrun, acquires_iff (by decide) hrun hc' 0⟩

end Handover

end Kurl
