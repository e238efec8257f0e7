import Kurl.Lib.HashMap
import Kurl.Lib.Int64
import Kurl.Time

/-!
# Kurl — the Redis data the analytics service works on

One event stream with one consumer group, the click counters and the last-click
timestamps:

* `entries`/`lastId` — the stream `config.redis.streams.events`;
* `group` — the group `Analytics` on it, absent until `XGROUP CREATE` ran;
* `buckets` — the fields of the hashes `stats:global` and `stats:link:{code}`;
* `lastClickedAt` — the strings `stats:last_clicked_at:{code}`.

The key families are disjoint and injective in the code (`RedisKeys`), so a counter is
addressed by a `Bucket` (hash and field) and a timestamp by its code. Field values are the
integers that `HINCRBY` and `HSET` keep there.

Commands are functions on `Redis`. A Lua script runs in `Script`, a state monad *under* an
error: an error stops the script and keeps what its earlier commands did, since Redis does
not roll a script back.
-/

namespace Kurl

open Lib

/-! ## Keys -/

namespace RedisKeys

def globalStatsKey : String := "stats" ++ ":global"

def linkStatsKey (shortCode : String) : String := "stats" ++ ":link:" ++ shortCode

def linkLastClickedAtKey (shortCode : String) : String :=
  "stats" ++ ":last_clicked_at:" ++ shortCode

theorem linkStatsKey_inj {c c' : String} (h : linkStatsKey c = linkStatsKey c') : c = c' := by
  simpa [linkStatsKey] using h

theorem linkLastClickedAtKey_inj {c c' : String}
    (h : linkLastClickedAtKey c = linkLastClickedAtKey c') : c = c' := by
  simpa [linkLastClickedAtKey] using h

/-- The hash of a link, its last-click key and the global hash are different keys, whatever
the codes. -/
theorem stats_keys_disjoint (c c' : String) :
    linkStatsKey c ≠ globalStatsKey ∧ linkLastClickedAtKey c ≠ globalStatsKey ∧
      linkStatsKey c ≠ linkLastClickedAtKey c' := by
  have hlist (a b : String) (h : a.toList ≠ b.toList) : a ≠ b := fun hab => h (hab ▸ rfl)
  refine ⟨hlist _ _ ?_, hlist _ _ ?_, hlist _ _ ?_⟩ <;>
    simp [linkStatsKey, linkLastClickedAtKey, globalStatsKey]

end RedisKeys

/-! ## State -/

/-- The reply types `parse_click_event` distinguishes. -/
inductive RedisValue where
  | bulkString (bytes : List UInt8)
  | simpleString (s : String)
  | other
  deriving DecidableEq

/-- `redis::streams::StreamId`: one entry as delivered. The id `ms-seq` is kept as one
number; `XADD` never issues zero. -/
structure StreamId where
  id : Nat
  map : HashMap String RedisValue
  deriving DecidableEq

/-- A counter: a stats hash and a day field in it. -/
inductive Bucket where
  | global (day : NaiveDate)
  | link (shortCode : String) (day : NaiveDate)
  deriving DecidableEq

def Bucket.day : Bucket → NaiveDate
  | .global day => day
  | .link _ day => day

/-- A consumer group: the last id delivered to it and its pending entries in id order. -/
structure Group where
  lastDelivered : Nat
  pel : List Nat

structure Redis where
  entries : List StreamId
  lastId : Nat
  group : Option Group
  buckets : Table Bucket Int
  lastClickedAt : Table String Int

namespace Redis

/-- Redis without data. -/
def empty : Redis := ⟨[], 0, none, Table.empty, Table.empty⟩

def lastDelivered (r : Redis) : Nat := r.group.elim 0 Group.lastDelivered

def pel (r : Redis) : List Nat := r.group.elim [] Group.pel

/-! ## Stream commands -/

/-- `XADD key * ..`: Redis issues an id above every earlier one. -/
def xadd (r : Redis) (e : StreamId) : Option Redis :=
  if r.lastId < e.id then
    some { r with entries := r.entries ++ [e], lastId := e.id }
  else none

/-- `XGROUP CREATE key group 0 MKSTREAM`; an existing group answers `BUSYGROUP`. -/
def xgroupCreateMkstream (r : Redis) : Redis :=
  match r.group with
  | some _ => r
  | none => { r with group := some ⟨0, []⟩ }

/-- `XREADGROUP GROUP group consumer COUNT count STREAMS key >`: the entries above the
last delivered id become pending. `none` is the `NOGROUP` error. -/
def xreadgroup (r : Redis) (count : Nat) : Option (Redis × List StreamId) :=
  r.group.map fun g =>
    let batch := (r.entries.filter (fun e => g.lastDelivered < e.id)).take count
    let group : Group :=
      { lastDelivered := batch.getLast?.elim g.lastDelivered StreamId.id
        pel := g.pel ++ batch.map StreamId.id }
    ({ r with group := some group }, batch)

/-- `XAUTOCLAIM key group consumer 0 0-0 COUNT count`: the first pending entries in id
order. Ids whose entry is gone from the stream leave the pending list. -/
def xautoclaim (r : Redis) (count : Nat) : Option (Redis × List StreamId) :=
  r.group.map fun g =>
    let scanned := g.pel.take count
    let claimed := r.entries.filter (fun e => e.id ∈ scanned)
    let dead := scanned.filter (fun id => id ∉ r.entries.map StreamId.id)
    ({ r with group := some { g with pel := g.pel.filter (fun id => id ∉ dead) } }, claimed)

/-- `XACK key group id`: one when the entry was pending. -/
def xack (r : Redis) (id : Nat) : Redis × Int :=
  match r.group with
  | none => (r, 0)
  | some g =>
    if id ∈ g.pel then
      ({ r with group := some { g with pel := g.pel.filter (fun j => j ≠ id) } }, 1)
    else (r, 0)

/-- `XDEL key id`. -/
def xdel (r : Redis) (id : Nat) : Redis :=
  { r with entries := r.entries.filter (fun e => e.id ≠ id) }

/-- `XACKDEL key group ACKED IDS 1 id`: acknowledge, and delete once every group has. -/
def xackDel (r : Redis) (id : Nat) : Redis :=
  if id ∈ r.pel then (r.xack id).1.xdel id else r

end Redis

/-! ## Scripts -/

inductive ScriptError where
  /-- `HINCRBY` would leave the 64-bit range. -/
  | overflow
  /-- Reading a global variable the script never defined. -/
  | undefinedGlobal (name : String)
  deriving DecidableEq

/-- A Lua script: Redis state in, Redis state and result or error out. -/
abbrev Script (α : Type) := ExceptT ScriptError (StateM Redis) α

namespace Script

def invoke {α : Type} (script : Script α) (r : Redis) : Except ScriptError α × Redis :=
  script.run.run r

def xack (id : Nat) : Script Int := fun r => (.ok (r.xack id).2, (r.xack id).1)

def xdel (id : Nat) : Script Unit := fun r => (.ok (), r.xdel id)

def hget (b : Bucket) : Script (Option Int) := fun r => (.ok (r.buckets.get b), r)

def hset (b : Bucket) (n : Int) : Script Unit := fun r =>
  (.ok (), { r with buckets := r.buckets.set b n })

/-- `HINCRBY` counts a missing field as zero and refuses to overflow. -/
def hincrby (b : Bucket) (n : Int) : Script Unit := fun r =>
  match addChecked (r.buckets.val b) n with
  | some m => (.ok (), { r with buckets := r.buckets.set b m })
  | none => (.error .overflow, r)

def getLastClickedAt (shortCode : String) : Script (Option Int) := fun r =>
  (.ok (r.lastClickedAt.get shortCode), r)

def setLastClickedAt (shortCode : String) (ts : Int) : Script Unit := fun r =>
  (.ok (), { r with lastClickedAt := r.lastClickedAt.set shortCode ts })

end Script

end Kurl
