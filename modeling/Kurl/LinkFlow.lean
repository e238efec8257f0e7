import Kurl.Core.CacheExpiry
import Kurl.Core.Progress
import Kurl.Gateway.Freshness
import Kurl.Gateway.Shutdown

/-!
# Kurl — from the table of links to the redirects

The core service, its cache and its table (`Kurl.Core.Service`) together with any number of gateways
(`Kurl.Gateway.ClickEvents`). A redirect asks Redis for the entry of its code and on a miss shares
an RPC with the other redirects of the code; the RPC is a `get_link` of the core service, which
reads the row, answers with its own clock and sends a `Set` to the worker. Links come and go in
between: clients create and delete them, and every night `pg_cron` deletes the ones that expired
long ago.

What can be lost is lost: the worker drops an op when Redis does not answer, the core service starts
again without its channel, Redis loses the cached entries, an RPC ends without an answer.

Two steps of a gateway are not its own here: the answer of Redis (`cached`) is what the cache of the
core service holds, and the reply of a flight (`answer`, `fail`) is what its RPC has read, or a
status that says nothing about the row. The rest of a gateway's steps are those of
`Kurl.Gateway.ClickEvents`, unchanged.

Left out are NUL characters in the code of a read or of a deletion, for which Postgres returns an
error where the tables here find no row, and a second instance of the core service. All clocks are
one.
-/

namespace Kurl

open Lib

/-! ## The nightly deletion (`migrations/20260802173655_expiration.sql`) -/

/-- `interval '90 days'`, in nanoseconds. -/
def retention : Int := 90 * 86400000000000

namespace Postgres

/-- The row has `expiration < now() - interval '90 days'`. Postgres' clock has microseconds. -/
def retired (pg : Postgres) (now : Int) (shortCode : String) : Bool :=
  (pg.links.get shortCode).any fun row =>
    row.expiration.any fun expiration => expiration.nanos < now / 1000 * 1000 - retention

/-- The job `delete-expired-links`, with the cascade to `link_daily_clicks`. -/
def deleteExpiredLinks (pg : Postgres) (now : Int) : Postgres :=
  { pg with
    links := pg.links.filter fun code => !pg.retired now code
    linkDailyClicks := pg.linkDailyClicks.filter fun k => !pg.retired now k.1 }

end Postgres

/-! ## The system -/

/-- A gateway, and the rows that the RPCs of its flights have read. -/
structure Frontend where
  gateway : Gateway
  read : Nat → Option (Except DbError Postgres.Link)

/-- The core service and the gateways in front of it. -/
structure LinkSystem where
  core : CoreState
  frontends : List Frontend

/-- A step of the core service, what it may lose, the nightly job, and the steps of the gateways
with the two that are answered here. -/
inductive LinkAction where
  /-- A request of another client, the worker, or the clock. -/
  | core (a : CoreAction)
  /-- `process_op` gets no connection, or no answer: its op is dropped. -/
  | dropOp
  /-- The core service starts again. -/
  | restart
  /-- Redis loses the entry of a code. -/
  | evict (shortCode : String)
  | deleteExpiredLinks
  | start (maxInFlight : Nat)
  /-- Any action of a gateway but the answers of Redis and of the core service. -/
  | gateway (g : Nat) (a : GatewayAction)
  /-- `redis_query` of a request returns, with or without having reached Redis. -/
  | cached (g request : Nat) (reached : Bool)
  /-- The core service reads the row for the RPC of a flight. -/
  | read (g flight : Nat)
  /-- The request at this position of the core service answers the RPC of a flight. -/
  | answer (g flight pending : Nat)
  /-- The RPC ends without an answer about the row. -/
  | fail (g flight : Nat) (status : Status)

/-- The status says nothing about the row: a timeout, a broken connection, a failing database. -/
def Status.transport (status : Status) : Bool :=
  status.code ≠ .notFound ∧ status.code ≠ .failedPrecondition

/-- `LinkService::get_link` after its query; the handler of a row that is there sends its op. -/
def CoreState.reply (cacheTtl : Nat) (st : CoreState) (key : String)
    (row : Except DbError Postgres.Link) (i : Nat) : Option CoreState :=
  match row with
  | .ok link =>
    if st.requests[i]? = some (.read key link) then st.step cacheTtl (.send i) else none
  | .error _ => some st

namespace LinkSystem

/-- The core service before its first request, and no gateway. -/
def init (now : Int) (pg : Postgres) : LinkSystem := ⟨.init now pg, []⟩

/-- What `redis_query` returns. -/
def redisQuery (st : LinkSystem) (shortCode : String) (reached : Bool) : Option String :=
  if reached then (st.core.redisQuery shortCode).map CacheEntry.value else none

/-- One gateway moves. -/
def move (st : LinkSystem) (g : Nat) (fe : Frontend) (a : GatewayAction) : Option LinkSystem :=
  (fe.gateway.step a).map fun gateway =>
    { st with frontends := st.frontends.set g { fe with gateway := gateway } }

def step (cacheTtl : Nat) (st : LinkSystem) : LinkAction → Option LinkSystem
  | .core a => (st.core.step cacheTtl a).map fun core => { st with core := core }
  | .dropOp =>
    match st.core.queue with
    | _ :: queue => some { st with core := { st.core with queue := queue } }
    | [] => none
  | .restart => some { st with core := { st.core with queue := [], requests := [] } }
  | .evict shortCode =>
    some { st with core := { st.core with cache := st.core.cache.erase shortCode } }
  | .deleteExpiredLinks =>
    some { st with core := { st.core with pg := st.core.pg.deleteExpiredLinks st.core.now } }
  | .start maxInFlight =>
    some { st with frontends := st.frontends ++ [⟨.init maxInFlight, fun _ => none⟩] }
  | .gateway _ (.cached _ _) => none
  | .gateway _ (.client (.respond _ _)) => none
  | .gateway g a => (st.frontends[g]?).bind fun fe => st.move g fe a
  | .cached g i reached => (st.frontends[g]?).bind fun fe =>
    (fe.gateway.requests[i]?).bind fun request =>
      st.move g fe (.cached i (st.redisQuery request.shortCode reached))
  | .read g i => (st.frontends[g]?).bind fun fe =>
    match fe.gateway.client.flights[i]?, fe.read i with
    | some ⟨key, .calling⟩, none => (st.core.step cacheTtl (.getLink key)).map fun core =>
      ⟨core, st.frontends.set g
        { fe with read := fun j => if j = i then some (st.core.pg.getLink key) else fe.read j }⟩
    | _, _ => none
  | .answer g i j => (st.frontends[g]?).bind fun fe =>
    match fe.gateway.client.flights[i]?, fe.read i with
    | some ⟨key, .calling⟩, some row => (st.core.reply cacheTtl key row j).bind fun core =>
      { st with core := core }.move g fe
        (.client (.respond i (getLinkReply st.core.now row)))
    | _, _ => none
  | .fail g i status =>
    if status.transport then (st.frontends[g]?).bind fun fe =>
      st.move g fe (.client (.respond i (.error status)))
    else none

end LinkSystem

def links (cacheTtl : Nat) : Machine LinkSystem LinkAction where
  step := LinkSystem.step cacheTtl

/-! ## What each step does -/

/-- Something is lost, and the table and the clock stay. -/
structure CoreState.Loses (st st' : CoreState) : Prop where
  now : st'.now = st.now
  pg : st'.pg = st.pg
  requests : ∀ request ∈ st'.requests, request ∈ st.requests
  queue : ∀ op ∈ st'.queue, op ∈ st.queue
  cache : ∀ code entry, st'.cache.get code = some entry → st.cache.get code = some entry

/-- **What each step of the system does.** -/
inductive LinkSystem.Step (cacheTtl : Nat) (st : LinkSystem) : LinkAction → LinkSystem → Prop
  | core {a : CoreAction} {core : CoreState} (hcore : st.core.step cacheTtl a = some core) :
      Step cacheTtl st (.core a) { st with core := core }
  | lose {a : LinkAction} {core : CoreState} (hlose : st.core.Loses core) :
      Step cacheTtl st a { st with core := core }
  | deleteExpiredLinks : Step cacheTtl st .deleteExpiredLinks
      { st with core := { st.core with pg := st.core.pg.deleteExpiredLinks st.core.now } }
  | start (maxInFlight : Nat) : Step cacheTtl st (.start maxInFlight)
      { st with frontends := st.frontends ++ [⟨.init maxInFlight, fun _ => none⟩] }
  | gateway {g : Nat} {fe : Frontend} {a : GatewayAction} {gw : Gateway}
      (hfe : st.frontends[g]? = some fe) (hcached : ∀ i url, a ≠ .cached i url)
      (hrespond : ∀ i reply, a ≠ .client (.respond i reply))
      (hstep : fe.gateway.step a = some gw) : Step cacheTtl st (.gateway g a)
        { st with frontends := st.frontends.set g { fe with gateway := gw } }
  | cached {g i : Nat} {reached : Bool} {fe : Frontend} {request : RedirectRequest} {gw : Gateway}
      (hfe : st.frontends[g]? = some fe) (hrequest : fe.gateway.requests[i]? = some request)
      (hstep : fe.gateway.step (.cached i (st.redisQuery request.shortCode reached)) = some gw) :
      Step cacheTtl st (.cached g i reached)
        { st with frontends := st.frontends.set g { fe with gateway := gw } }
  | read {g i : Nat} {fe : Frontend} {key : String} {core : CoreState}
      (hfe : st.frontends[g]? = some fe)
      (hflight : fe.gateway.client.flights[i]? = some ⟨key, .calling⟩) (hread : fe.read i = none)
      (hcore : st.core.step cacheTtl (.getLink key) = some core) :
      Step cacheTtl st (.read g i) ⟨core, st.frontends.set g
        { fe with read := fun j => if j = i then some (st.core.pg.getLink key) else fe.read j }⟩
  | answer {g i j : Nat} {fe : Frontend} {key : String} {row : Except DbError Postgres.Link}
      {core : CoreState} {gw : Gateway} (hfe : st.frontends[g]? = some fe)
      (hflight : fe.gateway.client.flights[i]? = some ⟨key, .calling⟩)
      (hread : fe.read i = some row)
      (hcore : core = st.core ∨ st.core.step cacheTtl (.send j) = some core)
      (hstep : fe.gateway.step (.client (.respond i (getLinkReply st.core.now row))) = some gw) :
      Step cacheTtl st (.answer g i j)
        ⟨core, st.frontends.set g { fe with gateway := gw }⟩
  | fail {g i : Nat} {status : Status} {fe : Frontend} {gw : Gateway}
      (htransport : status.transport = true) (hfe : st.frontends[g]? = some fe)
      (hstep : fe.gateway.step (.client (.respond i (.error status))) = some gw) :
      Step cacheTtl st (.fail g i status)
        { st with frontends := st.frontends.set g { fe with gateway := gw } }

/-- The inversion holds. A step of a gateway is plain except for the two that the system answers. -/
theorem LinkSystem.Step.of_step {cacheTtl : Nat} {st st' : LinkSystem} {a : LinkAction}
    (h : (links cacheTtl).step st a = some st') : st.Step cacheTtl a st' := by
  change st.step cacheTtl a = some st' at h
  cases a with
  | core a =>
    -- a request, the worker or the clock of the core service
    obtain ⟨core, hcore, rfl⟩ := Option.map_eq_some_iff.mp h
    exact .core hcore
  | dropOp =>
    -- Redis does not answer the worker, which goes on to its next op
    simp only [step] at h
    split at h
    · next op queue hqueue =>
      obtain rfl := Option.some.inj h
      refine .lose ⟨rfl, rfl, fun _ hmem => hmem, fun op' hmem => ?_, fun _ _ hget => hget⟩
      rw [hqueue]
      exact List.mem_cons_of_mem op hmem
    · cases h
  | restart =>
    -- the channel and the requests are gone, Redis and Postgres are not
    obtain rfl := Option.some.inj h
    exact .lose ⟨rfl, rfl, fun _ hmem => (by cases hmem), fun _ hmem => (by cases hmem),
      fun _ _ hget => hget⟩
  | evict shortCode =>
    obtain rfl := Option.some.inj h
    refine .lose ⟨rfl, rfl, fun _ hmem => hmem, fun _ hmem => hmem, fun code entry hget => ?_⟩
    change (st.core.cache.erase shortCode).get code = some entry at hget
    rw [Table.get_erase] at hget
    split at hget
    · cases hget
    · exact hget
  | deleteExpiredLinks =>
    obtain rfl := Option.some.inj h
    exact .deleteExpiredLinks
  | start maxInFlight =>
    obtain rfl := Option.some.inj h
    exact .start maxInFlight
  | gateway g a =>
    have hplain (hcached : ∀ i url, a ≠ .cached i url)
        (hrespond : ∀ i reply, a ≠ .client (.respond i reply))
        (h : ((st.frontends[g]?).bind fun fe => st.move g fe a) = some st') :
        st.Step cacheTtl (.gateway g a) st' := by
      obtain ⟨fe, hfe, h⟩ := Option.bind_eq_some_iff.mp h
      obtain ⟨gw, hstep, rfl⟩ := Option.map_eq_some_iff.mp h
      exact .gateway hfe hcached hrespond hstep
    cases a with
    | cached i url => cases h
    | client b =>
      cases b with
      | respond i reply => cases h
      | _ => exact hplain (fun _ _ heq => by cases heq) (fun _ _ heq => by cases heq) h
    | _ => exact hplain (fun _ _ heq => by cases heq) (fun _ _ heq => by cases heq) h
  | cached g i reached =>
    obtain ⟨fe, hfe, h⟩ := Option.bind_eq_some_iff.mp h
    obtain ⟨request, hrequest, h⟩ := Option.bind_eq_some_iff.mp h
    obtain ⟨gw, hstep, rfl⟩ := Option.map_eq_some_iff.mp h
    exact .cached hfe hrequest hstep
  | read g i =>
    obtain ⟨fe, hfe, h⟩ := Option.bind_eq_some_iff.mp h
    split at h
    · next key hflight hread =>
      obtain ⟨core, hcore, rfl⟩ := Option.map_eq_some_iff.mp h
      exact .read hfe hflight hread hcore
    · cases h
  | answer g i j =>
    obtain ⟨fe, hfe, h⟩ := Option.bind_eq_some_iff.mp h
    split at h
    · next key row hflight hread =>
      obtain ⟨core, hreply, h⟩ := Option.bind_eq_some_iff.mp h
      obtain ⟨gw, hstep, rfl⟩ := Option.map_eq_some_iff.mp h
      refine .answer hfe hflight hread ?_ hstep
      unfold CoreState.reply at hreply
      split at hreply
      · split at hreply
        · exact .inr hreply
        · cases hreply
      · exact .inl (Option.some.inj hreply).symm
    · cases h
  | fail g i status =>
    -- neither `NotFound` nor `FailedPrecondition`, which only an answer has
    simp only [step] at h
    split at h
    · next htransport =>
      obtain ⟨fe, hfe, h⟩ := Option.bind_eq_some_iff.mp h
      obtain ⟨gw, hstep, rfl⟩ := Option.map_eq_some_iff.mp h
      exact .fail htransport hfe hstep
    · cases h

end Kurl
