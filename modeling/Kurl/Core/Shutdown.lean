import Kurl.Core.Service

/-!
# Kurl — the shutdown of the core service (`core/src/main.rs`, `core/src/cache.rs`)

The process around `core`: requests are accepted, do their database operation, send and return,
while the cache worker receives. After the signal the shutdown future cancels the token and
waits for the worker. The worker sees the token when its queue is empty, closes the channel,
drains it and ends; then the future resolves, the server accepts no more requests and finishes
those in progress, and `main` returns.

The server goes on serving until the future resolves, and finishes requests after that. A send
on the closed channel fails, the request logs that and returns `Ok` all the same. `sent` and
`applied` record the ops of the requests that returned `Ok` and the ops the worker applied; with
an open channel the first is the second and the queue (`CoreProcess.Complete`), and a send on
the closed one makes it longer for good (`CoreProcess.Short`).

The senders are in the state of the service, which `main` holds to its end, so `recv` does not
return `None` before.

* `Moves` — what each step asks of the state and does to it, one case for each;
* `Step` — the same with the steps put together that the ops do not tell apart.
-/

namespace Kurl

open Lib

/-- A request that has not done its database operation. -/
inductive LinkRequest where
  | createLink (shortCode target : String) (expiration : Option DateTime)
  | getLink (shortCode : String)
  | deleteLink (shortCode : String)
  deriving DecidableEq

def LinkRequest.action : LinkRequest → CoreAction
  | .createLink shortCode target expiration => .createLink shortCode target expiration
  | .getLink shortCode => .getLink shortCode
  | .deleteLink shortCode => .deleteLink shortCode

/-- Where the task of `spawn_cache_worker` is. -/
inductive WorkerStage where
  /-- In the `select!`. -/
  | receiving
  /-- In the branch of the cancelled token, before `rx.close()`. -/
  | closing
  | draining
  | exited
  deriving DecidableEq

/-- A send succeeds. -/
def WorkerStage.channelOpen : WorkerStage → Bool
  | .receiving | .closing => true
  | .draining | .exited => false

/-- The worker is in `rx.recv()`. -/
def WorkerStage.receives : WorkerStage → Bool
  | .receiving | .draining => true
  | .closing | .exited => false

/-- Where `axum::serve` is. -/
inductive ServerStage where
  | serving
  /-- The token is cancelled, and the shutdown future waits for the worker. -/
  | cancelled
  /-- The future has resolved: no request is accepted any more. -/
  | finishing
  | exited
  deriving DecidableEq

def ServerStage.accepts : ServerStage → Bool
  | .serving | .cancelled => true
  | .finishing | .exited => false

/-- The service, the requests that have not begun, where the worker and `main` are, and the ops sent
and applied. -/
structure CoreProcess where
  core : CoreState
  server : ServerStage
  worker : WorkerStage
  accepted : List LinkRequest
  /-- The ops of the requests that returned `Ok`, whether or not the channel took them. -/
  sent : List CacheOp
  /-- The ops the worker applied. -/
  applied : List CacheOp

/-- The process when it starts to serve, with what is in Postgres and Redis. -/
def CoreProcess.start (now : Int) (pg : Postgres) (cache : Table String CacheEntry) : CoreProcess :=
  ⟨⟨now, pg, cache, [], []⟩, .serving, .receiving, [], [], []⟩

/-- The steps of the requests, of the worker and of `main`, and time. -/
inductive CoreProcessAction where
  | accept (request : LinkRequest)
  /-- An accepted request does its database operation. -/
  | operate (i : Nat)
  /-- A request sends its op, if it has one, and returns. -/
  | send (i : Nat)
  /-- The connection of a request is closed before its send. -/
  | disconnect (i : Nat)
  /-- The worker receives an op and applies it. -/
  | receive
  /-- The worker finds its queue empty and the token cancelled. -/
  | selectCancelled
  | close
  | workerExit
  /-- The signal: the token is cancelled. -/
  | shutdown
  /-- `task_tracker.wait()` returns. -/
  | resolve
  | exit
  | tick (nanos : Nat)

namespace CoreProcess

def step (cacheTtl : Nat) (st : CoreProcess) (a : CoreProcessAction) : Option CoreProcess :=
  if st.server = .exited then none else match a with
  | .accept request =>
    if st.server.accepts then some { st with accepted := st.accepted ++ [request] } else none
  | .operate i =>
    match st.accepted[i]? with
    | some request => ((Kurl.core cacheTtl).step st.core request.action).map fun core =>
        { st with core := core, accepted := st.accepted.eraseIdx i }
    | none => none
  | .send i =>
    match st.core.requests[i]? with
    | some request =>
      if st.worker.channelOpen then
        ((Kurl.core cacheTtl).step st.core (.send i)).map fun core =>
          { st with core := core, sent := st.sent ++ request.ops cacheTtl st.core }
      else
        -- the error of the send is logged
        some { st with
          core := { st.core with requests := st.core.requests.eraseIdx i }
          sent := st.sent ++ request.ops cacheTtl st.core }
    | none => none
  | .disconnect i =>
    if i < st.core.requests.length then
      some { st with core := { st.core with requests := st.core.requests.eraseIdx i } }
    else none
  | .receive =>
    match st.core.queue with
    | op :: _ =>
      if st.worker.receives then
        ((Kurl.core cacheTtl).step st.core .work).map fun core =>
          { st with core := core, applied := st.applied ++ [op] }
      else none
    | [] => none
  | .selectCancelled =>
    if st.worker = .receiving ∧ st.core.queue = [] ∧ st.server ≠ .serving then
      some { st with worker := .closing }
    else none
  | .close => if st.worker = .closing then some { st with worker := .draining } else none
  | .workerExit =>
    if st.worker = .draining ∧ st.core.queue = [] then some { st with worker := .exited } else none
  | .shutdown => if st.server = .serving then some { st with server := .cancelled } else none
  | .resolve =>
    if st.server = .cancelled ∧ st.worker = .exited then some { st with server := .finishing }
    else none
  | .exit =>
    if st.server = .finishing ∧ st.accepted = [] ∧ st.core.requests = [] then
      some { st with server := .exited }
    else none
  | .tick nanos => some { st with core := { st.core with now := st.core.now + nanos } }

end CoreProcess

def coreProcess (cacheTtl : Nat) : Machine CoreProcess CoreProcessAction where
  step := CoreProcess.step cacheTtl

/-- A request that has an op to send gets to its send while the channel is open. -/
def sendsWhileOpen (cacheTtl : Nat) (st : CoreProcess) : CoreProcessAction → Bool
  | .send i => st.worker.channelOpen ||
      (st.core.requests[i]?).all fun request => (request.ops cacheTtl st.core).isEmpty
  | _ => true

namespace CoreProcess

/-- Every op sent is applied or in the queue, in this order. -/
def Complete (st : CoreProcess) : Prop := st.sent = st.applied ++ st.core.queue

/-- An op sent is neither applied nor in the queue. -/
def Short (st : CoreProcess) : Prop := st.applied.length + st.core.queue.length < st.sent.length

/-- An entry for a code with a `Del` among these ops comes from a `Set` after that `Del`. -/
def NoneLeft (ops : List CacheOp) (cache : Table String CacheEntry) : Prop :=
  ∀ before code rest, ops = before ++ .del code :: rest → ∀ entry, cache.get code = some entry →
    ∃ ttl, .set code entry.value ttl entry.origin ∈ rest

/-- The shutdown future does not resolve before the worker has drained the queue. -/
structure Drained (st : CoreProcess) : Prop where
  server : st.server = .finishing ∨ st.server = .exited → st.worker = .exited
  worker : st.worker = .exited → st.core.queue = []

/-! ## Steps -/

/-- **What each step does**, with what it asks of the state. -/
inductive Moves (cacheTtl : Nat) (st : CoreProcess) : CoreProcessAction → CoreProcess → Prop
  | accept (request : LinkRequest) (haccepts : st.server.accepts = true) :
      Moves cacheTtl st (.accept request) { st with accepted := st.accepted ++ [request] }
  | operate {i : Nat} {request : LinkRequest} {core : CoreState}
      (hrequest : st.accepted[i]? = some request)
      (hcore : st.core.step cacheTtl request.action = some core) :
      Moves cacheTtl st (.operate i) { st with core := core, accepted := st.accepted.eraseIdx i }
  | sendOpen {i : Nat} {request : Pending} (hrequest : st.core.requests[i]? = some request)
      (hopen : st.worker.channelOpen = true) :
      Moves cacheTtl st (.send i) { st with
        core := { st.core with
          queue := st.core.queue ++ request.ops cacheTtl st.core
          requests := st.core.requests.eraseIdx i }
        sent := st.sent ++ request.ops cacheTtl st.core }
  /-- `tx.send` returns an error, which the request logs. -/
  | sendClosed {i : Nat} {request : Pending} (hrequest : st.core.requests[i]? = some request)
      (hclosed : st.worker.channelOpen = false) :
      Moves cacheTtl st (.send i) { st with
        core := { st.core with requests := st.core.requests.eraseIdx i }
        sent := st.sent ++ request.ops cacheTtl st.core }
  | disconnect {i : Nat} (hlt : i < st.core.requests.length) :
      Moves cacheTtl st (.disconnect i)
        { st with core := { st.core with requests := st.core.requests.eraseIdx i } }
  | receive {op : CacheOp} {queue : List CacheOp} (hqueue : st.core.queue = op :: queue)
      (hreceives : st.worker.receives = true) :
      Moves cacheTtl st .receive { st with
        core := { st.core with
          cache := processOp st.core.now st.core.cache op
          queue := queue }
        applied := st.applied ++ [op] }
  | selectCancelled (hworker : st.worker = .receiving) (hqueue : st.core.queue = [])
      (hserver : st.server ≠ .serving) :
      Moves cacheTtl st .selectCancelled { st with worker := .closing }
  | close (hworker : st.worker = .closing) :
      Moves cacheTtl st .close { st with worker := .draining }
  | workerExit (hworker : st.worker = .draining) (hqueue : st.core.queue = []) :
      Moves cacheTtl st .workerExit { st with worker := .exited }
  | shutdown (hserver : st.server = .serving) :
      Moves cacheTtl st .shutdown { st with server := .cancelled }
  | resolve (hserver : st.server = .cancelled) (hworker : st.worker = .exited) :
      Moves cacheTtl st .resolve { st with server := .finishing }
  | exit (hserver : st.server = .finishing) (haccepted : st.accepted = [])
      (hrequests : st.core.requests = []) :
      Moves cacheTtl st .exit { st with server := .exited }
  | tick (nanos : Nat) :
      Moves cacheTtl st (.tick nanos) { st with core := { st.core with now := st.core.now + nanos } }

/-- Once `main` has returned there are no steps. -/
theorem running_of_step {cacheTtl : Nat} {st st' : CoreProcess} {a : CoreProcessAction}
    (h : (coreProcess cacheTtl).step st a = some st') : st.server ≠ .exited := by
  intro hexited
  simp only [coreProcess, step, if_pos hexited] at h
  cases h

/-- **Every step is one of these.** -/
theorem Moves.of_step {cacheTtl : Nat} {st st' : CoreProcess} {a : CoreProcessAction}
    (h : (coreProcess cacheTtl).step st a = some st') : st.Moves cacheTtl a st' := by
  have hrunning := running_of_step h
  simp only [coreProcess, step, if_neg hrunning] at h
  cases a with
  | accept request =>
    simp only at h
    split at h
    · next haccepts =>
      obtain rfl := Option.some.inj h
      exact .accept request haccepts
    · cases h
  | operate i =>
    simp only at h
    split at h
    · next request hrequest =>
      -- the step of `core`, which reads the database
      obtain ⟨core, hcore, rfl⟩ := Option.map_eq_some_iff.mp h
      exact .operate hrequest hcore
    · cases h
  | send i =>
    simp only at h
    split at h
    · next request hrequest =>
      split at h
      · next hopen =>
        obtain ⟨core, hcore, rfl⟩ := Option.map_eq_some_iff.mp h
        change st.core.step cacheTtl (.send i) = some core at hcore
        simp only [CoreState.step, hrequest, Option.some.injEq] at hcore
        subst hcore
        exact .sendOpen hrequest hopen
      · next hclosed =>
        obtain rfl := Option.some.inj h
        exact .sendClosed hrequest (Bool.eq_false_iff.mpr hclosed)
    · cases h
  | disconnect i =>
    simp only at h
    split at h
    · next hlt =>
      obtain rfl := Option.some.inj h
      exact .disconnect hlt
    · cases h
  | receive =>
    simp only at h
    split at h
    · next op queue hqueue =>
      split at h
      · next hreceives =>
        obtain ⟨core, hcore, rfl⟩ := Option.map_eq_some_iff.mp h
        change st.core.step cacheTtl .work = some core at hcore
        simp only [CoreState.step, hqueue, Option.some.injEq] at hcore
        subst hcore
        exact .receive hqueue hreceives
      · cases h
    · cases h
  | selectCancelled =>
    simp only at h
    split at h
    · next hguard =>
      obtain rfl := Option.some.inj h
      exact .selectCancelled hguard.1 hguard.2.1 hguard.2.2
    · cases h
  | close =>
    simp only at h
    split at h
    · next hguard =>
      obtain rfl := Option.some.inj h
      exact .close hguard
    · cases h
  | workerExit =>
    simp only at h
    split at h
    · next hguard =>
      obtain rfl := Option.some.inj h
      exact .workerExit hguard.1 hguard.2
    · cases h
  | shutdown =>
    simp only at h
    split at h
    · next hguard =>
      obtain rfl := Option.some.inj h
      exact .shutdown hguard
    · cases h
  | resolve =>
    simp only at h
    split at h
    · next hguard =>
      obtain rfl := Option.some.inj h
      exact .resolve hguard.1 hguard.2
    · cases h
  | exit =>
    simp only at h
    split at h
    · next hguard =>
      obtain rfl := Option.some.inj h
      exact .exit hguard.1 hguard.2.1 hguard.2.2
    · cases h
  | tick nanos =>
    obtain rfl := Option.some.inj h
    exact .tick nanos

/-- The same by what it does to the queue, the cache and the two stages, for the results on the ops.
-/
inductive Step (cacheTtl : Nat) (st : CoreProcess) : CoreProcessAction → CoreProcess → Prop
  /-- Nothing is sent and nothing applied. -/
  | quiet {a : CoreProcessAction} (core : CoreState) (accepted : List LinkRequest)
      (hsend : ∀ i, a ≠ .send i) (hqueue : core.queue = st.core.queue)
      (hcache : core.cache = st.core.cache) :
      Step cacheTtl st a { st with core := core, accepted := accepted }
  | sendOpen {i : Nat} (request : Pending) (hrequest : st.core.requests[i]? = some request)
      (hopen : st.worker.channelOpen = true) :
      Step cacheTtl st (.send i) { st with
        core := { st.core with
          queue := st.core.queue ++ request.ops cacheTtl st.core
          requests := st.core.requests.eraseIdx i }
        sent := st.sent ++ request.ops cacheTtl st.core }
  | sendClosed {i : Nat} (request : Pending) (hrequest : st.core.requests[i]? = some request)
      (hclosed : st.worker.channelOpen = false) :
      Step cacheTtl st (.send i) { st with
        core := { st.core with requests := st.core.requests.eraseIdx i }
        sent := st.sent ++ request.ops cacheTtl st.core }
  | receive {op : CacheOp} (queue : List CacheOp) (hqueue : st.core.queue = op :: queue) :
      Step cacheTtl st .receive { st with
        core := { st.core with
          cache := processOp st.core.now st.core.cache op
          queue := queue }
        applied := st.applied ++ [op] }
  | worker {a : CoreProcessAction} {worker : WorkerStage} (hsend : ∀ i, a ≠ .send i)
      (hlast : st.worker ≠ .exited)
      (hexited : worker = .exited → st.core.queue = []) : Step cacheTtl st a { st with worker := worker }
  | server {a : CoreProcessAction} {server : ServerStage} (hsend : ∀ i, a ≠ .send i)
      (hresolved : server = .finishing ∨ server = .exited →
        st.worker = .exited ∨ st.server = .finishing) :
      Step cacheTtl st a { st with server := server }

/-- The database operation of a request neither sends nor applies anything. -/
theorem operate_frame {cacheTtl : Nat} {st st' : CoreState} {request : LinkRequest}
    (h : st.step cacheTtl request.action = some st') :
    st'.queue = st.queue ∧ st'.cache = st.cache := by
  cases request with
  | createLink code target expiration => cases CoreState.Step.of_step h <;> exact ⟨rfl, rfl⟩
  | getLink code => cases CoreState.Step.of_step h <;> exact ⟨rfl, rfl⟩
  | deleteLink code => cases CoreState.Step.of_step h <;> exact ⟨rfl, rfl⟩

/-- Most steps are `quiet`: they change what the requests wait for, and neither the queue, the cache,
the two records nor the two stages. -/
theorem Step.of_step {cacheTtl : Nat} {st st' : CoreProcess} {a : CoreProcessAction}
    (h : (coreProcess cacheTtl).step st a = some st') : st.Step cacheTtl a st' := by
  cases Moves.of_step h with
  | accept request _ => exact .quiet st.core _ (by simp) rfl rfl
  | operate _ hcore =>
    obtain ⟨hqueue, hcache⟩ := operate_frame hcore
    exact .quiet _ _ (by simp) hqueue hcache
  | sendOpen hrequest hopen => exact .sendOpen _ hrequest hopen
  | sendClosed hrequest hclosed => exact .sendClosed _ hrequest hclosed
  | disconnect _ => exact .quiet { st.core with requests := _ } st.accepted (by simp) rfl rfl
  | receive hqueue _ => exact .receive _ hqueue
  | selectCancelled hworker _ _ => exact .worker (by simp) (by simp [hworker]) (by simp)
  | close hworker => exact .worker (by simp) (by simp [hworker]) (by simp)
  | workerExit hworker hqueue =>
    -- the worker ends on an empty queue only: this is what `Drained` needs
    exact .worker (by simp) (by simp [hworker]) fun _ => hqueue
  | shutdown _ => exact .server (by simp) (by simp)
  | resolve _ hworker => exact .server (by simp) fun _ => .inl hworker
  | exit hserver _ _ => exact .server (by simp) fun _ => .inr hserver
  | tick _ => exact .quiet { st.core with now := _ } st.accepted (by simp) rfl rfl

section Steps

variable {cacheTtl : Nat} {st st' : CoreProcess} {a : CoreProcessAction}

theorem Drained.step (h : st.Drained) (hstep : (coreProcess cacheTtl).step st a = some st') :
    st'.Drained := by
  cases Step.of_step hstep with
  | quiet core accepted _ hqueue _ => exact ⟨h.server, fun hexited => hqueue.trans (h.worker hexited)⟩
  | sendOpen _ _ hopen =>
    -- a worker that has ended has closed the channel
    refine ⟨h.server, fun hexited => ?_⟩
    change st.worker = .exited at hexited
    rw [hexited] at hopen
    cases hopen
  | sendClosed _ _ _ => exact ⟨h.server, h.worker⟩
  | receive queue hqueue =>
    refine ⟨h.server, fun hexited => ?_⟩
    rw [h.worker hexited] at hqueue
    cases hqueue
  | worker _ hlast hexited => exact ⟨fun hresolved => absurd (h.server hresolved) hlast, hexited⟩
  | server _ hresolved =>
    -- the future resolves after the worker, and `main` finishes after the future
    refine ⟨fun hserver => ?_, h.worker⟩
    rcases hresolved hserver with hexited | hfinishing
    · exact hexited
    · exact h.server (Or.inl hfinishing)

/-- With the channel open an op sent is queued, and the worker moves it on. -/
theorem Complete.step (h : st.Complete) (hcond : sendsWhileOpen cacheTtl st a = true)
    (hstep : (coreProcess cacheTtl).step st a = some st') : st'.Complete := by
  cases Step.of_step hstep with
  | quiet core accepted _ hqueue _ =>
    show st.sent = st.applied ++ core.queue
    rw [hqueue]
    exact h
  | sendOpen request _ _ =>
    show st.sent ++ _ = st.applied ++ (st.core.queue ++ request.ops cacheTtl st.core)
    rw [h, List.append_assoc]
  | sendClosed request hrequest hclosed =>
    -- the condition leaves a request that has nothing to send
    have hnone : request.ops cacheTtl st.core = [] := by
      simpa [sendsWhileOpen, hrequest, hclosed] using hcond
    show st.sent ++ _ = st.applied ++ st.core.queue
    rw [hnone, List.append_nil]
    exact h
  | receive queue hqueue =>
    show st.sent = st.applied ++ [_] ++ _
    rw [List.append_assoc, List.singleton_append, ← hqueue]
    exact h
  | worker _ _ _ => exact h
  | server _ _ => exact h

/-- An op sent on the closed channel is lost. -/
theorem Complete.short (h : st.Complete) (hcond : ¬ sendsWhileOpen cacheTtl st a = true)
    (hstep : (coreProcess cacheTtl).step st a = some st') : st'.Short := by
  have hsend : ∀ {b : CoreProcessAction}, (∀ i, b ≠ .send i) →
      sendsWhileOpen cacheTtl st b = true := by
    intro b hb
    cases b with
    | send i => exact absurd rfl (hb i)
    | _ => rfl
  cases Step.of_step hstep with
  | sendClosed request hrequest hclosed =>
    have hsome : request.ops cacheTtl st.core ≠ [] := by
      simpa [sendsWhileOpen, hrequest, hclosed] using hcond
    have hpos := List.length_pos_iff.mpr hsome
    show st.applied.length + st.core.queue.length < (st.sent ++ _).length
    rw [h, List.length_append, List.length_append]
    omega
  | sendOpen _ _ hopen => exact absurd (by simp [sendsWhileOpen, hopen]) hcond
  | quiet _ _ hquiet _ _ => exact absurd (hsend hquiet) hcond
  | receive _ _ => exact absurd rfl hcond
  | worker hquiet _ _ => exact absurd (hsend hquiet) hcond
  | server hquiet _ => exact absurd (hsend hquiet) hcond

/-- What is lost stays lost. -/
theorem Short.step (h : st.Short) (hstep : (coreProcess cacheTtl).step st a = some st') :
    st'.Short := by
  unfold Short at h
  -- `receive` moves an op from the queue to the applied ones, and the sends lengthen `sent` by as
  -- much as the queue, or by more
  cases Step.of_step hstep with
  | quiet core accepted _ hqueue _ =>
    show st.applied.length + core.queue.length < st.sent.length
    rw [hqueue]
    exact h
  | sendOpen _ _ _ =>
    show st.applied.length + (st.core.queue ++ _).length < (st.sent ++ _).length
    rw [List.length_append, List.length_append]
    omega
  | sendClosed _ _ _ =>
    show st.applied.length + st.core.queue.length < (st.sent ++ _).length
    rw [List.length_append]
    omega
  | receive queue hqueue =>
    rw [hqueue, List.length_cons] at h
    show (st.applied ++ [_]).length + queue.length < st.sent.length
    rw [List.length_append, List.length_singleton]
    omega
  | worker _ _ _ => exact h
  | server _ _ => exact h

/-- Nothing is lost, or something is. -/
theorem complete_or_short_step (h : st.Complete ∨ st.Short)
    (hstep : (coreProcess cacheTtl).step st a = some st') : st'.Complete ∨ st'.Short := by
  rcases h with hcomplete | hshort
  · by_cases hcond : sendsWhileOpen cacheTtl st a = true
    · exact Or.inl (hcomplete.step hcond hstep)
    · exact Or.inr (hcomplete.short hcond hstep)
  · exact Or.inr (hshort.step hstep)

/-- The worker applies a `Del`, or a `Set` that comes after the ones before. -/
theorem NoneLeft.processOp {ops : List CacheOp} {cache : Table String CacheEntry}
    (h : NoneLeft ops cache) (now : Int) (op : CacheOp) :
    NoneLeft (ops ++ [op]) (processOp now cache op) := by
  intro before code rest hops entry hget
  -- the `Del` is the last op, or the last op comes after it
  rcases List.eq_nil_or_concat rest with rfl | ⟨rest, last, rfl⟩
  · -- the `Del` is the op applied
    obtain ⟨-, rfl⟩ := List.append_singleton_inj.mp hops
    change (cache.erase code).get code = some entry at hget
    rw [Table.get_erase, if_pos rfl] at hget
    cases hget
  · have hsplit : ops ++ [op] = (before ++ .del code :: rest) ++ [last] := by
      rw [hops, List.concat_eq_append, List.append_assoc, List.cons_append]
    obtain ⟨hold, rfl⟩ := List.append_singleton_inj.mp hsplit
    have hkept : cache.get code = some entry →
        ∃ ttl, .set code entry.value ttl entry.origin ∈ rest.concat op := by
      intro hcache
      obtain ⟨ttl, hmem⟩ := h before code rest hold entry hcache
      exact ⟨ttl, by rw [List.concat_eq_append]; exact List.mem_append_left _ hmem⟩
    cases op with
    | del key =>
      change (cache.erase key).get code = some entry at hget
      rw [Table.get_erase] at hget
      split at hget
      · cases hget
      · exact hkept hget
    | set key value ttl origin =>
      simp only [Kurl.processOp] at hget
      split at hget
      · rw [Table.get_set] at hget
        split at hget
        · next hcode =>
          obtain rfl := Option.some.inj hget
          exact ⟨ttl, by simp [hcode]⟩
        · exact hkept hget
      · exact hkept hget

theorem NoneLeft.step (h : NoneLeft st.applied st.core.cache)
    (hstep : (coreProcess cacheTtl).step st a = some st') :
    NoneLeft st'.applied st'.core.cache := by
  cases Step.of_step hstep with
  | quiet core accepted _ _ hcache =>
    show NoneLeft st.applied core.cache
    rw [hcache]
    exact h
  | receive queue hqueue => exact h.processOp _ _
  | sendOpen _ _ _ => exact h
  | sendClosed _ _ _ => exact h
  | worker _ _ _ => exact h
  | server _ _ => exact h

end Steps

end CoreProcess

/-- **Ops at the shutdown.** In a run that ends with the return of `main`, the op of every request
that returned `Ok` is applied, and no deleted link keeps an entry from before its deletion,
exactly if no request got to its send after the worker had closed the channel. -/
theorem sent_applied_iff {cacheTtl : Nat} {now : Int} {pg : Postgres}
    {cache : Table String CacheEntry} {as : List CoreProcessAction} {st : CoreProcess}
    (hrun : (coreProcess cacheTtl).run (.start now pg cache) as = some st)
    (hexit : st.server = .exited) :
    ((∀ op, st.sent.count op ≤ st.applied.count op) ∧
        CoreProcess.NoneLeft st.sent st.core.cache) ↔
      (coreProcess cacheTtl).Meets (fun st a => sendsWhileOpen cacheTtl st a = true)
        (.start now pg cache) as := by
  -- when `main` returns the worker has drained the queue
  have hdrained : st.Drained := (coreProcess cacheTtl).run_invariant (fun _ _ _ h hs => h.step hs)
    hrun ⟨by simp [CoreProcess.start], by simp [CoreProcess.start]⟩
  have hempty : st.core.queue = [] := hdrained.worker (hdrained.server (Or.inr hexit))
  have hleft : CoreProcess.NoneLeft st.applied st.core.cache := by
    apply (coreProcess cacheTtl).run_invariant (I := fun st => CoreProcess.NoneLeft st.applied
      st.core.cache) (fun _ _ _ h hs => h.step hs) hrun
    intro before code rest hops
    simp [CoreProcess.start] at hops
  -- a run is either complete to its end or short from the first send on the closed channel
  have hexcl : st.Complete → ¬ st.Short := by
    intro hcomplete hshort
    unfold CoreProcess.Short at hshort
    rw [hcomplete, List.length_append] at hshort
    omega
  rw [(coreProcess cacheTtl).meets_iff_of_breaks (I := CoreProcess.Complete)
    (J := CoreProcess.Short) (fun _ _ _ h hc hs => h.step hc hs)
    (fun _ _ _ h hc hs => h.short hc hs) (fun _ _ _ h hs => h.step hs) hrun rfl hexcl]
  constructor
  · intro hclaim
    -- with a lost op there are more ops sent than applied, and one of them is counted more often
    have hsubperm : List.Subperm st.sent st.applied :=
      List.subperm_ext_iff.mpr fun op _ => hclaim.1 op
    have hle := hsubperm.length_le
    apply Or.resolve_right (b := st.Short)
    · exact (coreProcess cacheTtl).run_invariant
        (fun _ _ _ h hs => CoreProcess.complete_or_short_step h hs) hrun (Or.inl rfl)
    · intro hshort
      unfold CoreProcess.Short at hshort
      omega
  · intro hcomplete
    have hsent : st.sent = st.applied := by
      rw [hcomplete, hempty, List.append_nil]
    rw [hsent]
    exact ⟨fun op => le_refl _, hleft⟩

/-- A link is created, read and deleted; the deletion sends after the signal, and the worker
drains its `Del`. -/
def orderlyShutdown : List CoreProcessAction :=
  [.accept (.createLink "a" "https://example.org" none), .operate 0, .send 0, .receive,
    .accept (.getLink "a"), .operate 0, .send 0, .accept (.deleteLink "a"), .operate 0, .shutdown,
    .receive, .selectCancelled, .send 0, .close, .receive, .workerExit, .resolve, .exit]

theorem sent_applied_iff_orderlyShutdown : ∃ st,
    (coreProcess (60 * nanosPerSec)).run (.start 0 Postgres.empty Table.empty) orderlyShutdown =
      some st ∧ (∀ op, st.sent.count op ≤ st.applied.count op) ∧
        CoreProcess.NoneLeft st.sent st.core.cache := by
  have hrun : ((coreProcess (60 * nanosPerSec)).run (.start 0 Postgres.empty Table.empty)
      orderlyShutdown).map CoreProcess.server = some .exited := by decide
  obtain ⟨st, hst, hexit⟩ := Option.map_eq_some_iff.mp hrun
  exact ⟨st, hst, (sent_applied_iff hst hexit).mpr (by decide)⟩

/-- A deletion that sends after the worker has ended returns `Ok`, and its `Del` is never applied:
the link is gone, and the gateway still finds its cached entry. -/
theorem del_lost_at_shutdown :
    ((coreProcess (60 * nanosPerSec)).run (.start 0 Postgres.empty Table.empty)
      [.accept (.createLink "a" "https://example.org" none), .operate 0, .send 0, .receive,
        .shutdown, .accept (.deleteLink "a"), .operate 0, .selectCancelled, .close, .workerExit,
        .resolve, .send 0, .exit]).map (fun st =>
      (st.server, st.sent.count (.del "a"), st.applied.count (.del "a"),
        (st.core.pg.links.get "a").isNone, (st.core.redisQuery "a").map CacheEntry.value)) =
      some (.exited, 1, 0, true, some "https://example.org") := by
  decide

end Kurl
