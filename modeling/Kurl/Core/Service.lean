import Kurl.Postgres
import Kurl.Lib.Machine

/-!
# Kurl — the core service and its cache (`core/src/grpc.rs`, `core/src/cache.rs`)

Any number of `create_link`, `get_link` and `delete_link` requests, one worker, one clock. A request
does its database operation in one step and sends its `CacheOp` in a later one; in between it is in
`requests`. The channel is a FIFO queue, and the worker takes one op from it and applies it at the
time of that step. A request that fails before it could send anything ends with its first step.

What a request sends is computed when it sends (`Pending.ops`): the TTL is the smaller of the
configured one and what remains of the link, in whole seconds, and a TTL of less than a second sends
nothing.

The cache is addressed by the short code, since `RedisKeys::link_cache_key` is injective. An entry
stays in the table after its deadline; `redisQuery` does not see it any more.

`CoreState.Step` lists what each step does; the invariants of the modules about `core` go by its
cases.
-/

namespace Kurl

open Lib

/-- Nanoseconds in a second. Durations and the clock count nanoseconds. -/
def nanosPerSec : Nat := 1000000000

/-- `Duration::as_secs`. -/
def asSecs (duration : Nat) : Nat := duration / nanosPerSec

/-- `TimeDelta::to_std().ok()`. -/
def toStd (delta : Int) : Option Nat := if 0 ≤ delta then some delta.toNat else none

/-- `calculate_cache_ttl`. -/
def calculateCacheTtl (cacheTtl : Nat) (now : Int) (expiration : Option DateTime) : Option Nat :=
  let ttl := match expiration with
    | some expiration => (toStd (expiration.nanos - now)).map fun remaining => min remaining cacheTtl
    | none => some cacheTtl
  ttl.filter fun ttl => asSecs ttl > 0

/-- When an op was sent, and the expiration of the row it was sent for. The code does not carry
this; statements about an op refer to it. -/
structure Origin where
  sentAt : Int
  expiration : Option DateTime
  deriving DecidableEq

/-- `CacheOp`, with the row that a `Set` was computed from. -/
inductive CacheOp where
  | set (key value : String) (ttl : Nat) (origin : Origin)
  | del (key : String)
  deriving DecidableEq

/-- What `SETEX` stores: the key disappears at the deadline. -/
structure CacheEntry where
  value : String
  deadline : Int
  origin : Origin
  deriving DecidableEq

/-- A request between its database operation and its send, with its local variables. -/
inductive Pending where
  | created (shortCode target : String) (expiration : Option DateTime)
  | read (shortCode : String) (link : Postgres.Link)
  | deleted (shortCode : String)
  deriving DecidableEq

/-- The table, the cache, the queue of the worker, the requests between their two steps, and the
clock. -/
structure CoreState where
  now : Int
  pg : Postgres
  cache : Table String CacheEntry
  queue : List CacheOp
  requests : List Pending

namespace CoreState

/-- The service before its first request. -/
def init (now : Int) (pg : Postgres) : CoreState := ⟨now, pg, Table.empty, [], []⟩

/-- The gateway's `redis_query`: a live entry. -/
def redisQuery (st : CoreState) (shortCode : String) : Option CacheEntry :=
  (st.cache.get shortCode).filter fun entry => st.now < entry.deadline

/-- The check on the expiration of a request or a row. -/
def expired (st : CoreState) (expiration : Option DateTime) : Bool :=
  expiration.any fun expiration => expiration.nanos ≤ st.now

end CoreState

/-- `CacheOp::Set`, unless there is no whole second left. -/
def setOp (cacheTtl : Nat) (now : Int) (shortCode target : String) (expiration stored : Option DateTime) :
    List CacheOp :=
  match calculateCacheTtl cacheTtl now expiration with
  | some ttl => [.set shortCode target ttl ⟨now, stored⟩]
  | none => []

/-- What a request sends when it completes. -/
def Pending.ops (cacheTtl : Nat) (st : CoreState) : Pending → List CacheOp
  | .created shortCode target expiration =>
    setOp cacheTtl st.now shortCode target expiration (expiration.map DateTime.toTimestamptz)
  | .read shortCode link =>
    if st.expired link.expiration then []
    else setOp cacheTtl st.now shortCode link.target link.expiration link.expiration
  | .deleted shortCode => [.del shortCode]

/-- `process_op`. -/
def processOp (now : Int) (cache : Table String CacheEntry) : CacheOp → Table String CacheEntry
  | .set key value ttl origin =>
    if asSecs ttl > 0 then
      cache.set key ⟨value, now + (asSecs ttl * nanosPerSec : Nat), origin⟩
    else cache
  | .del key => cache.erase key

/-- A request does its database operation or sends, the worker applies an op, or time passes. -/
inductive CoreAction where
  /-- The database operation of a request. -/
  | createLink (shortCode target : String) (expiration : Option DateTime)
  | getLink (shortCode : String)
  | deleteLink (shortCode : String)
  /-- The request at this position computes its TTL, sends its op and returns. -/
  | send (i : Nat)
  /-- The worker receives an op and applies it. -/
  | work
  | tick (nanos : Nat)

def CoreState.step (cacheTtl : Nat) (st : CoreState) : CoreAction → Option CoreState
  | .createLink shortCode target expiration =>
    if st.expired expiration then some st
    else match st.pg.createLink shortCode target expiration with
      | .ok pg => some { st with
          pg := pg
          requests := st.requests ++ [.created shortCode target expiration] }
      | .error _ => some st
  | .getLink shortCode =>
    match st.pg.getLink shortCode with
    | .ok link => some { st with requests := st.requests ++ [.read shortCode link] }
    | .error _ => some st
  | .deleteLink shortCode =>
    match st.pg.deleteLink shortCode with
    | .ok pg => some { st with pg := pg, requests := st.requests ++ [.deleted shortCode] }
    | .error _ => some st
  | .send i =>
    match st.requests[i]? with
    | some request => some { st with
        queue := st.queue ++ request.ops cacheTtl st
        requests := st.requests.eraseIdx i }
    | none => none
  | .work =>
    match st.queue with
    | op :: queue => some { st with cache := processOp st.now st.cache op, queue := queue }
    | [] => none
  | .tick nanos => some { st with now := st.now + nanos }

def core (cacheTtl : Nat) : Machine CoreState CoreAction where
  step := CoreState.step cacheTtl

/-! ## Steps -/

/-- **What each step of the core service does.** -/
inductive CoreState.Step (cacheTtl : Nat) (st : CoreState) : CoreAction → CoreState → Prop
  | refuse (a : CoreAction) : Step cacheTtl st a st
  | create {code target : String} {expiration : Option DateTime} {pg : Postgres}
      (hcreate : st.pg.createLink code target expiration = .ok pg) :
      Step cacheTtl st (.createLink code target expiration)
        { st with pg := pg, requests := st.requests ++ [.created code target expiration] }
  | read {code : String} {link : Postgres.Link} (hlink : st.pg.getLink code = .ok link) :
      Step cacheTtl st (.getLink code) { st with requests := st.requests ++ [.read code link] }
  | delete {code : String} {pg : Postgres} (hdelete : st.pg.deleteLink code = .ok pg) :
      Step cacheTtl st (.deleteLink code)
        { st with pg := pg, requests := st.requests ++ [.deleted code] }
  | send {i : Nat} {request : Pending} (hrequest : st.requests[i]? = some request) :
      Step cacheTtl st (.send i)
        { st with
          queue := st.queue ++ request.ops cacheTtl st
          requests := st.requests.eraseIdx i }
  | work {op : CacheOp} {queue : List CacheOp} (hqueue : st.queue = op :: queue) :
      Step cacheTtl st .work { st with cache := processOp st.now st.cache op, queue := queue }
  | tick (nanos : Nat) : Step cacheTtl st (.tick nanos) { st with now := st.now + nanos }

/-- The inversion holds. A database operation that Postgres refuses is a step too: the request is
answered with its error and sends nothing. -/
theorem CoreState.Step.of_step {cacheTtl : Nat} {st st' : CoreState} {a : CoreAction}
    (h : st.step cacheTtl a = some st') : st.Step cacheTtl a st' := by
  cases a with
  | createLink code target expiration =>
    simp only [step] at h
    split at h
    · obtain rfl := Option.some.inj h
      exact .refuse _
    · cases hcreate : st.pg.createLink code target expiration with
      | error e =>
        rw [hcreate] at h
        obtain rfl := Option.some.inj h
        exact .refuse _
      | ok pg =>
        rw [hcreate] at h
        obtain rfl := Option.some.inj h
        exact .create hcreate
  | getLink code =>
    simp only [step] at h
    cases hlink : st.pg.getLink code with
    | error e =>
      rw [hlink] at h
      obtain rfl := Option.some.inj h
      exact .refuse _
    | ok link =>
      rw [hlink] at h
      obtain rfl := Option.some.inj h
      exact .read hlink
  | deleteLink code =>
    simp only [step] at h
    cases hdelete : st.pg.deleteLink code with
    | error e =>
      rw [hdelete] at h
      obtain rfl := Option.some.inj h
      exact .refuse _
    | ok pg =>
      rw [hdelete] at h
      obtain rfl := Option.some.inj h
      exact .delete hdelete
  | send i =>
    simp only [step] at h
    cases hrequest : st.requests[i]? with
    | none =>
      rw [hrequest] at h
      cases h
    | some request =>
      rw [hrequest] at h
      obtain rfl := Option.some.inj h
      exact .send hrequest
  | work =>
    simp only [step] at h
    cases hqueue : st.queue with
    | nil =>
      rw [hqueue] at h
      cases h
    | cons op queue =>
      rw [hqueue] at h
      obtain rfl := Option.some.inj h
      exact .work hqueue
  | tick nanos =>
    obtain rfl := Option.some.inj h
    exact .tick nanos

/-! ## What a request sends -/

/-- A request sends nothing, the deletion of its key, or one `Set` of what it wrote or read. -/
theorem mem_ops {cacheTtl : Nat} {st : CoreState} {request : Pending} {op : CacheOp}
    (h : op ∈ request.ops cacheTtl st) :
    (∃ code, request = .deleted code ∧ op = .del code) ∨
      ∃ code target ttl origin, op = .set code target ttl origin ∧
        ((∃ expiration, request = .created code target expiration) ∨
          ∃ expiration, request = .read code ⟨target, expiration⟩) := by
  have hset : ∀ {code target expiration stored}, op ∈ setOp cacheTtl st.now code target expiration
      stored → ∃ ttl origin, op = .set code target ttl origin := by
    intro code target expiration stored hop
    unfold setOp at hop
    split at hop
    · next ttl _ => exact ⟨ttl, _, List.mem_singleton.mp hop⟩
    · simp at hop
  cases request with
  | created code target expiration =>
    obtain ⟨ttl, origin, rfl⟩ := hset h
    exact Or.inr ⟨code, target, ttl, origin, rfl, Or.inl ⟨expiration, rfl⟩⟩
  | read code link =>
    simp only [Pending.ops] at h
    split at h
    · simp at h
    · obtain ⟨ttl, origin, rfl⟩ := hset h
      exact Or.inr ⟨code, link.target, ttl, origin, rfl, Or.inr ⟨link.expiration, rfl⟩⟩
  | deleted code => exact Or.inl ⟨code, rfl, List.mem_singleton.mp h⟩

/-- The TTL of a `Set` is at most the configured one and what remains of the link. -/
theorem calculateCacheTtl_le {cacheTtl ttl : Nat} {now : Int} {expiration : Option DateTime}
    (h : calculateCacheTtl cacheTtl now expiration = some ttl) : 0 < asSecs ttl ∧ ttl ≤ cacheTtl ∧
      ∀ t ∈ expiration, now + ttl ≤ t.nanos := by
  unfold calculateCacheTtl at h
  obtain ⟨h, hpos⟩ := Option.filter_eq_some_iff.mp h
  have hpos : 0 < asSecs ttl := by simpa using hpos
  cases expiration with
  | none =>
    obtain rfl := Option.some.inj h
    exact ⟨hpos, le_refl _, fun t ht => by simp at ht⟩
  | some t =>
    obtain ⟨remaining, hremaining, rfl⟩ := Option.map_eq_some_iff.mp h
    unfold toStd at hremaining
    split at hremaining
    · obtain rfl := Option.some.inj hremaining
      refine ⟨hpos, min_le_right _ _, fun t' ht' => ?_⟩
      obtain rfl := Option.some.inj ht'
      have hle := min_le_left (t.nanos - now).toNat cacheTtl
      omega
    · simp at hremaining

end Kurl
