import Kurl.Core.Shutdown
import Kurl.Lib.Progress

/-!
# Kurl — the shutdown of the core service ends (`core/src/main.rs`, `core/src/cache.rs`)

Three parties wait for each other: `main` for the shutdown future and then for the requests, the
future for the cache worker, and the worker for its queue. None of them waits in a circle: the
worker waits for no request, since a request sends without waiting. The proof has two halves, which
`core_shutdown_ends` puts together.

* **`work_step`** — `work` counts the steps that are left: four for a request that has arrived (its
  operation, its send, the op in the queue, the answer), and those of the two stages. Every step
  takes one away, and only a new request brings some.
* **`ProgressInv.stuck_iff`** — where the process can do nothing by itself, nothing is left to do:
  no request waits, the queue is empty, and `main` serves or has returned.

New requests are accepted until the future resolves, and the worker looks at the token only when its
queue is empty (`biased`). So requests that keep coming can keep the process from its shutdown for
as long as they come: `shutdown_starves` repeats one `get_link`, of which `Busy` is the invariant.
-/

namespace Kurl

open Lib

/-! ## What is left to do -/

def WorkerStage.work : WorkerStage → Nat
  | .receiving => 3
  | .closing => 2
  | .draining => 1
  | .exited => 0

def ServerStage.work : ServerStage → Nat
  | .serving => 3
  | .cancelled => 2
  | .finishing => 1
  | .exited => 0

/-- What an action brings: a request its operation, its send, its op and the step in which it is
accepted, and the clock the step it takes. -/
def CoreProcessAction.brings : CoreProcessAction → Nat
  | .accept _ => 4
  | .tick _ => 1
  | _ => 0

/-- A step of the process itself. -/
def CoreProcessAction.own : CoreProcessAction → Prop
  | .accept _ | .disconnect _ | .shutdown | .tick _ => False
  | _ => True

/-- A request sends one op at most. -/
theorem Pending.ops_length_le (cacheTtl : Nat) (st : CoreState) (request : Pending) :
    (request.ops cacheTtl st).length ≤ 1 := by
  have hset (code target : String) (expiration stored : Option DateTime) :
      (setOp cacheTtl st.now code target expiration stored).length ≤ 1 := by
    unfold setOp
    split
    · exact le_refl 1
    · exact Nat.zero_le 1
  cases request with
  | created code target expiration => exact hset _ _ _ _
  | deleted code => exact le_refl 1
  | read code link =>
    show (if _ then _ else _ : List CacheOp).length ≤ 1
    split
    · exact Nat.zero_le 1
    · exact hset _ _ _ _

namespace CoreProcess

def work (st : CoreProcess) : Nat :=
  3 * st.accepted.length + 2 * st.core.requests.length + st.core.queue.length +
    st.worker.work + st.server.work

section Steps

variable {cacheTtl : Nat} {st st' : CoreProcess} {a : CoreProcessAction}

/-- An operation leaves one request to send at most. -/
theorem operate_length {core core' : CoreState} {request : LinkRequest}
    (h : core.step cacheTtl request.action = some core') :
    core'.requests.length ≤ core.requests.length + 1 := by
  have happend (pending : Pending) :
      (core.requests ++ [pending]).length ≤ core.requests.length + 1 := by
    rw [List.length_append, List.length_singleton]
  cases request with
  | createLink code target expiration =>
    cases CoreState.Step.of_step h with
    | refuse _ => exact Nat.le_succ _
    | create _ => exact happend _
  | getLink code =>
    cases CoreState.Step.of_step h with
    | refuse _ => exact Nat.le_succ _
    | read _ => exact happend _
  | deleteLink code =>
    cases CoreState.Step.of_step h with
    | refuse _ => exact Nat.le_succ _
    | delete _ => exact happend _

/-- Every step takes work away, and a request brings some. -/
theorem work_step (h : (coreProcess cacheTtl).step st a = some st') :
    st'.work + 1 ≤ st.work + a.brings := by
  -- each case shows the request, the op or the stage that its work comes from
  cases Moves.of_step h with
  | accept request _ =>
    simp only [work, CoreProcessAction.brings, List.length_append, List.length_singleton]
    omega
  | operate hrequest hcore =>
    -- the request waits for its send now, or is answered
    have hlength := operate_length hcore
    have hqueue := congrArg List.length (operate_frame hcore).1
    obtain ⟨hlt, -⟩ := List.getElem?_eq_some_iff.mp hrequest
    simp only [work, CoreProcessAction.brings, List.length_eraseIdx_of_lt hlt, hqueue]
    omega
  | @sendOpen i request hrequest _ =>
    -- the op of the request moves into the queue
    have hops := Pending.ops_length_le cacheTtl st.core request
    obtain ⟨hlt, -⟩ := List.getElem?_eq_some_iff.mp hrequest
    simp only [work, CoreProcessAction.brings, List.length_eraseIdx_of_lt hlt, List.length_append]
    omega
  | sendClosed hrequest _ =>
    obtain ⟨hlt, -⟩ := List.getElem?_eq_some_iff.mp hrequest
    simp only [work, CoreProcessAction.brings, List.length_eraseIdx_of_lt hlt]
    omega
  | disconnect hlt =>
    -- the caller is gone, and axum drops the future with what it had to send
    simp only [work, CoreProcessAction.brings, List.length_eraseIdx_of_lt hlt]
    omega
  | receive hqueue _ =>
    simp only [work, CoreProcessAction.brings, hqueue, List.length_cons]
    omega
  | selectCancelled hworker _ _ =>
    -- from here the stages of the worker and of `main` each go one further
    simp only [work, CoreProcessAction.brings, hworker, WorkerStage.work]
    omega
  | close hworker =>
    simp only [work, CoreProcessAction.brings, hworker, WorkerStage.work]
    omega
  | workerExit hworker _ =>
    simp only [work, CoreProcessAction.brings, hworker, WorkerStage.work]
    omega
  | shutdown hserver =>
    simp only [work, CoreProcessAction.brings, hserver, ServerStage.work]
    omega
  | resolve hserver _ =>
    simp only [work, CoreProcessAction.brings, hserver, ServerStage.work]
    omega
  | exit hserver _ _ =>
    simp only [work, CoreProcessAction.brings, hserver, ServerStage.work]
    omega
  | tick nanos =>
    simp only [work, CoreProcessAction.brings]
    omega

/-! ## Where the process can do nothing -/

/-- What a step does to `main` and the worker: they wait for the signal, and `main` returns when
all requests are over. -/
structure Advances (st st' : CoreProcess) : Prop where
  serving : st'.server = .serving →
    st.server = .serving ∧ (st.worker = .receiving → st'.worker = .receiving)
  exited : st'.server = .exited → st'.accepted = [] ∧ st'.core.requests = []

/-- Every step advances: by cases, of which only those of the worker and of `main` change a stage.
-/
theorem advances_of_step (h : (coreProcess cacheTtl).step st a = some st') : st.Advances st' := by
  have hrunning := running_of_step h
  -- a step of a request leaves both stages
  have hquiet {next : CoreProcess} (hserver : next.server = st.server)
      (hworker : next.worker = st.worker) : st.Advances next := by
    constructor
    · exact fun hserving => ⟨hserver ▸ hserving, fun hreceiving => hworker.trans hreceiving⟩
    · exact fun hexited => absurd (hserver ▸ hexited) hrunning
  -- a worker that closes or ends has left `recv`
  have hleft {next : CoreProcess} (hserver : next.server = st.server)
      (hworker : st.worker ≠ .receiving) : st.Advances next := by
    constructor
    · exact fun hserving => ⟨hserver ▸ hserving, fun hreceiving => absurd hreceiving hworker⟩
    · exact fun hexited => absurd (hserver ▸ hexited) hrunning
  cases Moves.of_step h with
  | selectCancelled _ _ hserver =>
    -- the worker leaves `recv` on the token, which is set only after the signal
    exact ⟨fun hserving => absurd hserving hserver, fun hexited => absurd hexited hrunning⟩
  | close hworker => exact hleft rfl (by simp [hworker])
  | workerExit hworker _ => exact hleft rfl (by simp [hworker])
  | shutdown _ => exact ⟨(fun hserving => by cases hserving), fun hexited => by cases hexited⟩
  | resolve _ _ => exact ⟨(fun hserving => by cases hserving), fun hexited => by cases hexited⟩
  | exit _ haccepted hrequests =>
    -- the guard of `axum::serve`: no request is left
    exact ⟨(fun hserving => by cases hserving), fun _ => ⟨haccepted, hrequests⟩⟩
  | _ => exact hquiet rfl rfl

/-- What holds of every run: the worker receives while `main` serves, and nothing is left once it
has returned. -/
structure ProgressInv (st : CoreProcess) : Prop where
  drained : st.Drained
  serving : st.server = .serving → st.worker = .receiving
  exited : st.server = .exited → st.accepted = [] ∧ st.core.requests = []

theorem ProgressInv.start (now : Int) (pg : Postgres) (cache : Table String CacheEntry) :
    (CoreProcess.start now pg cache).ProgressInv where
  drained := ⟨by simp [CoreProcess.start], by simp [CoreProcess.start]⟩
  serving := fun _ => rfl
  exited := fun hexited => by cases hexited

/-- **Step lemma**, from what a step does to `main` and to the worker (`advances_of_step`). -/
theorem ProgressInv.step (h : st.ProgressInv)
    (hstep : (coreProcess cacheTtl).step st a = some st') : st'.ProgressInv where
  drained := h.drained.step hstep
  serving := by
    intro hserving
    obtain ⟨hbefore, hworker⟩ := (advances_of_step hstep).serving hserving
    exact hworker (h.serving hbefore)
  exited := (advances_of_step hstep).exited

/-- Nothing goes on in the process, and no one waits. -/
structure Rests (st : CoreProcess) : Prop where
  server : st.server = .serving ∧ st.worker = .receiving ∨
    st.server = .exited ∧ st.worker = .exited
  accepted : st.accepted = []
  requests : st.core.requests = []
  queue : st.core.queue = []

/-- Every request has been answered, and the queue is empty if the worker still receives. -/
theorem empty_of_stuck (hrunning : st.server ≠ .exited)
    (hstuck : (coreProcess cacheTtl).Stuck CoreProcessAction.own st) :
    st.accepted = [] ∧ st.core.requests = [] ∧
      (st.worker.receives = true → st.core.queue = []) := by
  refine ⟨?_, ?_, fun hreceives => ?_⟩
  · cases haccepted : st.accepted with
    | nil => rfl
    | cons request rest =>
      have hnone := hstuck (.operate 0) trivial
      simp only [coreProcess, CoreProcess.step, if_neg hrunning, haccepted,
        List.getElem?_cons_zero] at hnone
      -- a database operation always returns
      have hsome : ∃ core, st.core.step cacheTtl request.action = some core := by
        cases request with
        | createLink code target expiration =>
          simp only [LinkRequest.action, CoreState.step]
          split
          · exact ⟨_, rfl⟩
          · split <;> exact ⟨_, rfl⟩
        | getLink code =>
          simp only [LinkRequest.action, CoreState.step]
          split <;> exact ⟨_, rfl⟩
        | deleteLink code =>
          simp only [LinkRequest.action, CoreState.step]
          split <;> exact ⟨_, rfl⟩
      obtain ⟨core, hcore⟩ := hsome
      have hmap := Option.map_eq_none_iff.mp hnone
      exact absurd (hcore.symm.trans hmap) (by simp)
  · cases hrequests : st.core.requests with
    | nil => rfl
    | cons request rest =>
      -- a send succeeds on an open channel and is logged on a closed one
      have hnone := hstuck (.send 0) trivial
      simp only [coreProcess, CoreProcess.step, if_neg hrunning, hrequests,
        List.getElem?_cons_zero] at hnone
      split at hnone
      · have hmap := Option.map_eq_none_iff.mp hnone
        simp [Kurl.core, CoreState.step, hrequests] at hmap
      · cases hnone
  · cases hqueue : st.core.queue with
    | nil => rfl
    | cons op queue =>
      have hnone := hstuck .receive trivial
      simp only [coreProcess, CoreProcess.step, if_neg hrunning, hqueue, if_pos hreceives] at hnone
      have hmap := Option.map_eq_none_iff.mp hnone
      simp [Kurl.core, CoreState.step, hqueue] at hmap

/-- **Where nothing moves, nothing is left**, and `main` serves or has returned. -/
theorem ProgressInv.stuck_iff (h : st.ProgressInv) :
    (coreProcess cacheTtl).Stuck CoreProcessAction.own st ↔ st.Rests := by
  constructor
  · intro hstuck
    by_cases hexited : st.server = .exited
    · have hworker := h.drained.server (.inr hexited)
      obtain ⟨haccepted, hrequests⟩ := h.exited hexited
      exact ⟨.inr ⟨hexited, hworker⟩, haccepted, hrequests, h.drained.worker hworker⟩
    obtain ⟨haccepted, hrequests, hqueue⟩ := empty_of_stuck hexited hstuck
    -- from here the worker leads `main` to its end
    cases hworker : st.worker with
    | receiving =>
      have hempty := hqueue (by rw [hworker]; rfl)
      -- `main` serves on, or the token is set and the worker sees it
      by_cases hserving : st.server = .serving
      · exact ⟨.inl ⟨hserving, hworker⟩, haccepted, hrequests, hempty⟩
      · have hnone := hstuck .selectCancelled trivial
        simp only [coreProcess, CoreProcess.step, if_neg hexited] at hnone
        rw [if_pos ⟨hworker, hempty, hserving⟩] at hnone
        cases hnone
    | closing =>
      -- the worker is on its way: it can close, and then end on the empty queue
      have hnone := hstuck .close trivial
      simp only [coreProcess, CoreProcess.step, if_neg hexited, hworker] at hnone
      cases hnone
    | draining =>
      have hempty := hqueue (by rw [hworker]; rfl)
      have hnone := hstuck .workerExit trivial
      simp only [coreProcess, CoreProcess.step, if_neg hexited] at hnone
      rw [if_pos ⟨hworker, hempty⟩] at hnone
      cases hnone
    | exited =>
      -- the worker has ended: the future resolves, and `main` returns since no request is left
      cases hserver : st.server with
      | serving =>
        have hreceiving := h.serving hserver
        rw [hworker] at hreceiving
        cases hreceiving
      | exited => exact absurd hserver hexited
      | cancelled =>
        have hnone := hstuck .resolve trivial
        simp only [coreProcess, CoreProcess.step, if_neg hexited] at hnone
        rw [if_pos ⟨hserver, hworker⟩] at hnone
        cases hnone
      | finishing =>
        have hnone := hstuck .exit trivial
        simp only [coreProcess, CoreProcess.step, if_neg hexited] at hnone
        rw [if_pos ⟨hserver, haccepted, hrequests⟩] at hnone
        cases hnone
  · intro hrests a hown
    -- a process that rests: every own step lacks its request, its op or its stage
    rcases hrests.server with ⟨hserver, hworker⟩ | ⟨hserver, -⟩
    · have hrunning : st.server ≠ .exited := by
        rw [hserver]
        decide
      simp only [coreProcess, CoreProcess.step, if_neg hrunning]
      cases a with
      | accept _ => exact hown.elim
      | disconnect _ => exact hown.elim
      | shutdown => exact hown.elim
      | tick _ => exact hown.elim
      | operate i => simp [hrests.accepted]
      | send i => simp [hrests.requests]
      | receive => simp [hrests.queue]
      | selectCancelled => simp [hserver]
      | close => simp [hworker]
      | workerExit => simp [hworker]
      | resolve => simp [hserver]
      | exit => simp [hserver]
    · simp only [coreProcess, CoreProcess.step, if_pos hserver]

end Steps

end CoreProcess

section Shutdown

variable {cacheTtl : Nat} {now : Int} {pg : Postgres} {cache : Table String CacheEntry}
  {as : List CoreProcessAction} {st : CoreProcess}

/-- **The shutdown ends.** A run has at most four steps for every request, six for `main` and the
worker, and those of the clock. Where the process can do nothing by itself, and only there, all
requests are over, the queue is empty, and `main` serves or has returned; and there is always a
way to such a state, in which `main` has returned if the signal had come. -/
theorem core_shutdown_ends
    (hrun : (coreProcess cacheTtl).run (.start now pg cache) as = some st) :
    as.length + st.work ≤ 6 + (as.map CoreProcessAction.brings).sum ∧
      ((coreProcess cacheTtl).Stuck CoreProcessAction.own st ↔ st.Rests) ∧
      ∃ bs t, (∀ b ∈ bs, CoreProcessAction.own b) ∧ (coreProcess cacheTtl).run st bs = some t ∧
        t.Rests ∧ (st.server ≠ .serving → t.server = .exited) := by
  have hinv : st.ProgressInv := (coreProcess cacheTtl).run_invariant
    (fun _ _ _ h hstep => h.step hstep) hrun (.start now pg cache)
  refine ⟨?_, hinv.stuck_iff, ?_⟩
  · exact (coreProcess cacheTtl).run_length_le CoreProcess.work CoreProcessAction.brings
      (I := fun _ => True) (fun _ _ _ _ _ => trivial)
      (fun _ _ _ _ hstep => CoreProcess.work_step hstep) hrun trivial
  · -- the process goes on by itself for as long as it can
    obtain ⟨bs, t, hown, hrest, hstuck⟩ := (coreProcess cacheTtl).exists_stuck
      (I := CoreProcess.ProgressInv) CoreProcessAction.own CoreProcess.work
      (fun _ _ _ h hstep => h.step hstep)
      (fun u a u' _ hown hstep => by
        have hwork := CoreProcess.work_step hstep
        have hbrings : a.brings = 0 := by
          cases a with
          | accept _ => exact hown.elim
          | tick _ => exact hown.elim
          | _ => rfl
        omega) hinv
    have hrests : t.Rests := by
      refine CoreProcess.ProgressInv.stuck_iff ?_ |>.mp hstuck
      exact (coreProcess cacheTtl).run_invariant (fun _ _ _ h hstep => h.step hstep) hrest hinv
    refine ⟨bs, t, hown, hrest, hrests, fun hbegun => ?_⟩
    -- after the signal a `main` at rest has returned
    have hlater : t.server ≠ .serving :=
      (coreProcess cacheTtl).run_invariant (I := fun u => u.server ≠ .serving)
        (fun _ _ _ h hstep hserving => h ((CoreProcess.advances_of_step hstep).serving hserving).1)
        hrest hbegun
    exact (hrests.server.resolve_left fun h => hlater h.1).1

/-- The signal comes while a link is created and another is being deleted. -/
def shutdownWhileSending : List CoreProcessAction :=
  [.accept (.createLink "a" "https://example.org" none), .operate 0, .accept (.deleteLink "b"),
    .send 0, .shutdown, .accept (.getLink "a"), .tick 1]

theorem core_shutdown_ends_whileSending : ∃ st,
    (coreProcess (60 * nanosPerSec)).run (.start 0 Postgres.empty Table.empty)
        shutdownWhileSending = some st ∧
      ∃ bs t, (∀ b ∈ bs, CoreProcessAction.own b) ∧
        (coreProcess (60 * nanosPerSec)).run st bs = some t ∧
        t.Rests ∧ (st.server ≠ .serving → t.server = .exited) := by
  have hsome : ((coreProcess (60 * nanosPerSec)).run (.start 0 Postgres.empty Table.empty)
      shutdownWhileSending).isSome = true := by decide
  obtain ⟨st, hst⟩ := Option.isSome_iff_exists.mp hsome
  exact ⟨st, hst, (core_shutdown_ends hst).2.2⟩

/-! ## Requests that keep coming -/

/-- The signal has come, the worker has an op in its queue, and the code's link can be read: it
has the target and never expires. -/
structure CoreProcess.Busy (code target : String) (st : CoreProcess) : Prop where
  server : st.server = .cancelled
  worker : st.worker = .receiving
  queue : st.core.queue ≠ []
  link : st.core.pg.getLink code = .ok ⟨target, none⟩

/-- One further `get_link` of the code, from its arrival to its response: it is accepted, reads the
link, and sends the `Set` and answers. Then the worker receives one op, from the other end of the
queue. -/
def CoreProcess.oneMore (st : CoreProcess) (code : String) : List CoreProcessAction :=
  [.accept (.getLink code), .operate st.accepted.length, .send st.core.requests.length, .receive]

theorem Pending.ops_read {code target : String} (hsecond : 0 < asSecs cacheTtl) (core : CoreState) :
    (Pending.read code ⟨target, none⟩).ops cacheTtl core =
      [.set code target cacheTtl ⟨core.now, none⟩] := by
  have httl : calculateCacheTtl cacheTtl core.now none = some cacheTtl := by
    simp only [calculateCacheTtl, Option.filter_some, gt_iff_lt, hsecond, decide_true, if_true]
  simp only [Pending.ops, CoreState.expired, Option.any_none, setOp, httl]
  rfl

/-- The last of a list is taken away again. -/
theorem eraseIdx_length_append {α : Type} (l : List α) (a : α) :
    (l ++ [a]).eraseIdx l.length = l := by
  rw [List.eraseIdx_append_of_length_le (le_refl _), Nat.sub_self, List.eraseIdx_cons_zero,
    List.append_nil]

/-- The request comes and goes: the requests that wait are the ones before it, its `Set` is sent,
and the queue is as long as before. -/
theorem CoreProcess.Busy.oneMore {code target : String} (h : st.Busy code target)
    (hsecond : 0 < asSecs cacheTtl) : ∃ t,
      (coreProcess cacheTtl).run st (st.oneMore code) = some t ∧ t.Busy code target ∧
        t.oneMore code = st.oneMore code ∧ t.core.now = st.core.now ∧
        t.sent = st.sent ++ [.set code target cacheTtl ⟨st.core.now, none⟩] ∧
        (coreProcess cacheTtl).Meets (fun u _ => u.core.queue ≠ []) st (st.oneMore code) := by
  obtain ⟨hserver, hworker, hqueue, hlink⟩ := h
  obtain ⟨op, rest, hcons⟩ := List.exists_cons_of_ne_nil hqueue
  obtain ⟨set, hset⟩ : ∃ set, set = CacheOp.set code target cacheTtl ⟨st.core.now, none⟩ :=
    ⟨_, rfl⟩
  have hops (core : CoreState) (hnow : core.now = st.core.now) :
      (Pending.read code ⟨target, none⟩).ops cacheTtl core = [set] := by
    rw [Pending.ops_read hsecond, hnow, hset]
  have hrunning : st.server ≠ .exited := by
    rw [hserver]
    decide
  have haccepts : st.server.accepts = true := by
    rw [hserver]
    rfl
  have hopen : st.worker.channelOpen = true ∧ st.worker.receives = true := by
    rw [hworker]
    exact ⟨rfl, rfl⟩
  -- the four steps, one by one, with the state each leads to
  have haccept : (coreProcess cacheTtl).step st (.accept (.getLink code)) =
      some { st with accepted := st.accepted ++ [.getLink code] } := by
    simp only [coreProcess, CoreProcess.step, if_neg hrunning, haccepts, if_true]
  have hoperate : (coreProcess cacheTtl).step
      { st with accepted := st.accepted ++ [.getLink code] } (.operate st.accepted.length) =
      some { st with core := { st.core with
        requests := st.core.requests ++ [.read code ⟨target, none⟩] } } := by
    simp only [coreProcess, CoreProcess.step, if_neg hrunning, List.getElem?_concat_length,
      eraseIdx_length_append, Kurl.core, LinkRequest.action, CoreState.step, hlink, Option.map_some]
  have hsend : (coreProcess cacheTtl).step
      { st with core := { st.core with
        requests := st.core.requests ++ [.read code ⟨target, none⟩] } }
      (.send st.core.requests.length) =
      some { st with
        core := { st.core with queue := st.core.queue ++ [set] }
        sent := st.sent ++ [set] } := by
    simp only [coreProcess, CoreProcess.step, if_neg hrunning, List.getElem?_concat_length,
      eraseIdx_length_append, hopen.1, if_true, Kurl.core, CoreState.step, hops, Option.map_some]
  have hreceive : (coreProcess cacheTtl).step
      { st with
        core := { st.core with queue := st.core.queue ++ [set] }
        sent := st.sent ++ [set] } .receive =
      some { st with
        core := { st.core with
          cache := processOp st.core.now st.core.cache op
          queue := rest ++ [set] }
        sent := st.sent ++ [set]
        applied := st.applied ++ [op] } := by
    simp only [coreProcess, CoreProcess.step, if_neg hrunning, hcons, List.cons_append, hopen.2,
      if_true, Kurl.core, CoreState.step, Option.map_some]
  refine ⟨{ st with
    core := { st.core with
      cache := processOp st.core.now st.core.cache op
      queue := rest ++ [set] }
    sent := st.sent ++ [set]
    applied := st.applied ++ [op] }, ?_, ⟨hserver, hworker, ?_, hlink⟩, rfl, rfl, ?_, ?_⟩
  · rw [CoreProcess.oneMore, Machine.run_cons, haccept, Option.bind_some, Machine.run_cons,
      hoperate, Option.bind_some, Machine.run_cons, hsend, Option.bind_some, Machine.run_cons,
      hreceive]
    rfl
  · exact List.append_ne_nil_of_right_ne_nil rest (List.cons_ne_nil set [])
  · rw [hset]
  · -- the queue is never empty: the `Set` goes in before the op at its head comes out
    refine ((coreProcess cacheTtl).meets_cons haccept).mpr ⟨hqueue, ?_⟩
    refine ((coreProcess cacheTtl).meets_cons hoperate).mpr ⟨hqueue, ?_⟩
    refine ((coreProcess cacheTtl).meets_cons hsend).mpr ⟨hqueue, ?_⟩
    refine ((coreProcess cacheTtl).meets_cons hreceive).mpr ⟨?_, trivial⟩
    exact List.append_ne_nil_of_left_ne_nil hqueue [set]

/-- **Requests that keep coming keep the process alive.** After the signal, with an op in the queue
of the worker and a link that can be read, any number of further `get_link` requests of the code is
accepted and answered, one after the other, and each sends the `Set` of its link. The worker never
finds its queue empty, which it has to before it sees the token, and after the last of the requests
the next one finds the process as the first did. -/
theorem shutdown_starves {code target : String} (h : st.Busy code target)
    (hsecond : 0 < asSecs cacheTtl) (n : Nat) : ∃ t,
      (coreProcess cacheTtl).run st (List.replicate n (st.oneMore code)).flatten = some t ∧
        t.Busy code target ∧
        t.sent = st.sent ++ List.replicate n (.set code target cacheTtl ⟨st.core.now, none⟩) ∧
        (coreProcess cacheTtl).Meets (fun u _ => u.core.queue ≠ []) st
          (List.replicate n (st.oneMore code)).flatten := by
  induction n generalizing st with
  | zero => exact ⟨st, rfl, h, (List.append_nil _).symm, trivial⟩
  | succ n ih =>
    -- the first round leaves a state in which the other rounds are the same actions
    obtain ⟨u, hfirst, hu, hround, hnow, hsent, hmeets⟩ := h.oneMore hsecond
    obtain ⟨t, hrest, ht, hmore, hmeets'⟩ := ih hu
    rw [hround] at hrest hmeets'
    rw [List.replicate_succ, List.flatten_cons]
    refine ⟨t, (coreProcess cacheTtl).run_append_some.mpr ⟨u, hfirst, hrest⟩, ht, ?_,
      ((coreProcess cacheTtl).meets_append hfirst).mpr ⟨hmeets, hmeets'⟩⟩
    rw [hmore, hsent, hnow, List.append_assoc, List.singleton_append, List.replicate_succ]

/-- The signal comes while the `Set` of a new link is in the queue. -/
def shutdownWithSet : List CoreProcessAction :=
  [.accept (.createLink "a" "https://example.org" none), .operate 0, .send 0, .shutdown]

theorem shutdown_starves_withSet : ∃ st t,
    (coreProcess (60 * nanosPerSec)).run (.start 0 Postgres.empty Table.empty) shutdownWithSet =
        some st ∧
      (coreProcess (60 * nanosPerSec)).run st (List.replicate 1000 (st.oneMore "a")).flatten =
        some t ∧
      t.Busy "a" "https://example.org" ∧
      t.sent = st.sent ++ List.replicate 1000
        (.set "a" "https://example.org" (60 * nanosPerSec) ⟨st.core.now, none⟩) ∧
      (coreProcess (60 * nanosPerSec)).Meets (fun u _ => u.core.queue ≠ []) st
        (List.replicate 1000 (st.oneMore "a")).flatten := by
  have hvalues : ((coreProcess (60 * nanosPerSec)).run (.start 0 Postgres.empty Table.empty)
      shutdownWithSet).map (fun st => (st.server, st.worker, st.core.queue.isEmpty,
        (st.core.pg.getLink "a").toOption)) =
      some (.cancelled, .receiving, false, some ⟨"https://example.org", none⟩) := by decide
  obtain ⟨st, hst, heq⟩ := Option.map_eq_some_iff.mp hvalues
  obtain ⟨hserver, heq⟩ := Prod.mk.inj heq
  obtain ⟨hworker, heq⟩ := Prod.mk.inj heq
  obtain ⟨hqueue, hlink⟩ := Prod.mk.inj heq
  have hbusy : st.Busy "a" "https://example.org" := by
    refine ⟨hserver, hworker, ?_, ?_⟩
    · rw [← List.isEmpty_eq_false_iff]
      exact hqueue
    · cases hget : st.core.pg.getLink "a" with
      | error e =>
        rw [hget] at hlink
        cases hlink
      | ok link =>
        rw [hget] at hlink
        exact congrArg Except.ok (Option.some.inj hlink)
  have hsecond : 0 < asSecs (60 * nanosPerSec) := by decide
  obtain ⟨t, hwitness⟩ := shutdown_starves hbusy hsecond 1000
  exact ⟨st, t, hst, hwitness⟩

end Shutdown

end Kurl
