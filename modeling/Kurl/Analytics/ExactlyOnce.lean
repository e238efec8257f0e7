import Kurl.Analytics.EventConsumer
import Kurl.Lib.Count
import Kurl.Lib.Machine
import Mathlib.Order.Bounds.Basic

/-!
# Kurl — exactly-once click accounting

The consumer group as a machine. Any number of workers read batches into memory and call
`process_entry` on what they hold, as often as they like and in any order; a delivery whose future
is cancelled is pending in Redis without any worker holding it; a crash empties a worker's memory.
Two components of the state record history and are never read by a step: `log`, every entry
appended, and `counted`, what the `process_entry` calls on an entry have added to each bucket so
far.

`consumer_inv` carries the invariant through every run: an appended entry is undelivered, pending or
acknowledged, `counted` is one exactly on the buckets an acknowledged entry hits, and buckets and
last-click timestamps are functions of the acknowledged entries.

Two things keep the result from being unconditional, and each has a run that shows it
(`accounting_fails_at_epoch_and_limit`). The script takes a missing last click for zero, so a click
at the epoch leaves none; and it acknowledges an entry before it increments, so a counter that has
no room for it (`HasRoom`) loses the click.
-/

namespace Kurl

open Lib

abbrev Worker := Nat

/-- Redis, the memory of the workers, and two histories. -/
structure ConsumerState where
  redis : Redis
  /-- What each worker read and has not forgotten. -/
  memory : Worker → List StreamId
  log : List StreamId
  counted : Nat → Bucket → Int

namespace ConsumerState

def init : ConsumerState := ⟨Redis.empty, fun _ => [], [], fun _ _ => 0⟩

def remember (s : ConsumerState) (w : Worker) (batch : List StreamId) : ConsumerState :=
  { s with memory := fun v => if v = w then s.memory v ++ batch else s.memory v }

end ConsumerState

/-- An entry is appended, the group is created, a worker reads, claims, processes or crashes. -/
inductive ConsumerAction where
  /-- The gateway's `XADD`. -/
  | append (entry : StreamId)
  | ensureConsumerGroup
  /-- `read_stream`; when `cancelled`, `select!` dropped the future after the delivery. -/
  | readStream (w : Worker) (count : Nat) (cancelled : Bool)
  /-- The `XAUTOCLAIM` of `drain_pending_batch`. -/
  | drainPendingBatch (w : Worker) (count : Nat)
  | processEntry (w : Worker) (entry : StreamId)
  | crash (w : Worker)

/-- One step of the consumers of the event stream. -/
def ConsumerState.step (serde : SerdeJson) (s : ConsumerState) :
    ConsumerAction → Option ConsumerState
  | .append entry => (s.redis.xadd entry).map fun r =>
      { s with redis := r, log := s.log ++ [entry] }
  | .ensureConsumerGroup => some { s with redis := s.redis.xgroupCreateMkstream }
  | .readStream w count cancelled => (s.redis.xreadgroup count).map fun (r, batch) =>
      if cancelled then { s with redis := r } else { s with redis := r }.remember w batch
  | .drainPendingBatch w count => (s.redis.xautoclaim count).map fun (r, claimed) =>
      { s with redis := r }.remember w claimed
  | .processEntry w entry =>
      if entry ∈ s.memory w then
        let r := Kurl.processEntry serde s.redis entry
        some { s with
          redis := r
          counted := fun id b => s.counted id b +
            if id = entry.id then r.buckets.val b - s.redis.buckets.val b else 0 }
      else none
  | .crash w => some { s with memory := fun v => if v = w then [] else s.memory v }

def consumer (serde : SerdeJson) : Machine ConsumerState ConsumerAction where
  step := ConsumerState.step serde

/-! ## Accounts -/

section Accounts

variable (serde : SerdeJson)

/-- The number of acknowledged well-formed entries that belong in a bucket. -/
def ackedCount (r : Redis) (log : List StreamId) (b : Bucket) : Int :=
  countWhere log fun e => decide (r.Acked e) && entryHits serde e b

/-- The timestamps of the acknowledged well-formed entries of a code. -/
def ackedTimestamps (r : Redis) (log : List StreamId) (shortCode : String) : Set Int :=
  {ts | ∃ e ∈ log, r.Acked e ∧ ∃ event, parseClickEvent serde e = some event ∧
    event.shortCode = shortCode ∧ event.atTime.timestampMillis = ts}

theorem ackedCount_nonneg (r : Redis) (log : List StreamId) (b : Bucket) :
    0 ≤ ackedCount serde r log b := countWhere_nonneg _ _

theorem ackedCount_congr {r r' : Redis} {log : List StreamId}
    (h : ∀ e ∈ log, r'.Acked e ↔ r.Acked e) (b : Bucket) :
    ackedCount serde r' log b = ackedCount serde r log b :=
  countWhere_congr fun e he => by rw [decide_eq_decide.mpr (h e he)]

theorem ackedTimestamps_congr {r r' : Redis} {log : List StreamId}
    (h : ∀ e ∈ log, r'.Acked e ↔ r.Acked e) (shortCode : String) :
    ackedTimestamps serde r' log shortCode = ackedTimestamps serde r log shortCode := by
  ext ts
  constructor
  · rintro ⟨e, he, hack, hts⟩
    exact ⟨e, he, (h e he).mp hack, hts⟩
  · rintro ⟨e, he, hack, hts⟩
    exact ⟨e, he, (h e he).mpr hack, hts⟩

variable {r r' : Redis} {log : List StreamId} {e : StreamId}

/-- Appending an entry acknowledges nothing. -/
theorem ackedCount_xadd (h : StreamInv r log) (hadd : r.xadd e = some r') (b : Bucket) :
    ackedCount serde r' (log ++ [e]) b = ackedCount serde r log b := by
  unfold ackedCount
  rw [countWhere_concat, decide_eq_false (not_acked_xadd h hadd), Bool.false_and]
  simpa [ackedCount] using ackedCount_congr serde (fun a (_ : a ∈ log) => acked_xadd hadd a) b

theorem ackedTimestamps_xadd (h : StreamInv r log) (hadd : r.xadd e = some r')
    (shortCode : String) :
    ackedTimestamps serde r' (log ++ [e]) shortCode = ackedTimestamps serde r log shortCode := by
  ext ts
  constructor
  · rintro ⟨a, ha, hacked, hrest⟩
    rcases List.mem_append.mp ha with ha | ha
    · exact ⟨a, ha, (acked_xadd hadd a).mp hacked, hrest⟩
    · exact absurd (List.mem_singleton.mp ha ▸ hacked) (not_acked_xadd h hadd)
  · rintro ⟨a, ha, hacked, hrest⟩
    exact ⟨a, List.mem_append_left _ ha, (acked_xadd hadd a).mpr hacked, hrest⟩

/-- Processing a pending entry adds it to the account of every bucket it hits. -/
theorem ackedCount_processEntry (h : StreamInv r log) (he : e ∈ log) (hpend : e.id ∈ r.pel)
    (hroom : ∀ b, entryHits serde e b = true → r.HasRoom b) (b : Bucket) :
    ackedCount serde (processEntry serde r e) log b =
      ackedCount serde r log b + if entryHits serde e b then 1 else 0 := by
  have hnew := fun a (ha : a ∈ log) => acked_processEntry serde h he hpend hroom ha
  have hself : (processEntry serde r e).Acked e := (hnew e he).mpr (.inr rfl)
  have hbefore : ¬ r.Acked e := fun hack => hack.2 hpend
  unfold ackedCount
  rw [countWhere_flip h.nodup he]
  · rw [decide_eq_true hself, Bool.true_and]
  · rw [decide_eq_false hbefore, Bool.false_and]
  · intro a ha hne
    have hiff : (processEntry serde r e).Acked a ↔ r.Acked a := by
      rw [hnew a ha]
      exact or_iff_left hne
    rw [decide_eq_decide.mpr hiff]

end Accounts

/-! ## Last clicks -/

/-- What the last-click key of a code holds for a set of acknowledged timestamps: the
greatest of them, or nothing while none is positive. -/
def LastClick (timestamps : Set Int) : Option Int → Prop
  | some m => IsGreatest timestamps m ∧ 0 < m
  | none => ∀ ts ∈ timestamps, ts ≤ 0

theorem LastClick.eq_some_iff {S : Set Int} {current : Option Int} (h : LastClick S current)
    (m : Int) : current = some m ↔ IsGreatest S m ∧ 0 < m := by
  cases current with
  | none =>
    refine ⟨by simp, ?_⟩
    rintro ⟨hgreatest, hpos⟩
    exact absurd (h m hgreatest.1) (by omega)
  | some c =>
    rw [Option.some.injEq]
    constructor
    · rintro rfl
      exact h
    · rintro ⟨hgreatest, -⟩
      exact h.1.unique hgreatest

/-- One more timestamp, compared the way `RECORD_CLICK` compares. -/
theorem LastClick.insert {S : Set Int} {current : Option Int} (h : LastClick S current)
    (ts : Int) : LastClick (insert ts S) (if current.getD 0 < ts then some ts else current) := by
  cases current with
  | none =>
    simp only [Option.getD_none]
    split
    · next hpos =>
      refine ⟨⟨Set.mem_insert _ _, ?_⟩, hpos⟩
      intro t ht
      rcases ht with rfl | ht
      · exact le_refl _
      · exact le_trans (h t ht) (le_of_lt hpos)
    · next hneg =>
      intro t ht
      rcases ht with rfl | ht
      · omega
      · exact h t ht
  | some m =>
    obtain ⟨⟨hmem, hub⟩, hpos⟩ := h
    simp only [Option.getD_some]
    split
    · next hlt =>
      refine ⟨⟨Set.mem_insert _ _, ?_⟩, by omega⟩
      intro t ht
      rcases ht with rfl | ht
      · exact le_refl _
      · exact le_trans (hub ht) (le_of_lt hlt)
    · next hle =>
      refine ⟨⟨Set.mem_insert_of_mem _ hmem, ?_⟩, hpos⟩
      intro t ht
      rcases ht with rfl | ht
      · omega
      · exact hub ht

section Clicks

variable (serde : SerdeJson) {r : Redis} {log : List StreamId} {e : StreamId}

/-- A pending entry adds the timestamp of its event to those of the event's code. -/
theorem ackedTimestamps_of_click (h : StreamInv r log) (he : e ∈ log) (hpend : e.id ∈ r.pel)
    (hroom : ∀ b, entryHits serde e b = true → r.HasRoom b) {event : ClickEvent}
    (hparse : parseClickEvent serde e = some event) :
    ackedTimestamps serde (processEntry serde r e) log event.shortCode =
      insert event.atTime.timestampMillis (ackedTimestamps serde r log event.shortCode) := by
  have hnew := fun a (ha : a ∈ log) => acked_processEntry serde h he hpend hroom ha
  ext ts
  constructor
  · rintro ⟨a, ha, hack, event', hparse', hcode', rfl⟩
    rcases (hnew a ha).mp hack with hack | rfl
    · exact .inr ⟨a, ha, hack, event', hparse', hcode', rfl⟩
    · rw [hparse] at hparse'
      rw [Option.some.inj hparse']
      exact .inl rfl
  · rintro (rfl | ⟨a, ha, hack, hrest⟩)
    · exact ⟨e, he, (hnew e he).mpr (.inr rfl), event, hparse, rfl, rfl⟩
    · exact ⟨a, ha, (hnew a ha).mpr (.inl hack), hrest⟩

/-- A click on another code, or a malformed entry, adds none. -/
theorem ackedTimestamps_of_other (h : StreamInv r log) (he : e ∈ log) (hpend : e.id ∈ r.pel)
    (hroom : ∀ b, entryHits serde e b = true → r.HasRoom b) {shortCode : String}
    (hcode : ¬ ∃ event, parseClickEvent serde e = some event ∧ event.shortCode = shortCode) :
    ackedTimestamps serde (processEntry serde r e) log shortCode =
      ackedTimestamps serde r log shortCode := by
  have hnew := fun a (ha : a ∈ log) => acked_processEntry serde h he hpend hroom ha
  ext ts
  constructor
  · rintro ⟨a, ha, hack, event', hparse', hcode', rfl⟩
    rcases (hnew a ha).mp hack with hack | rfl
    · exact ⟨a, ha, hack, event', hparse', hcode', rfl⟩
    · exact absurd ⟨event', hparse', hcode'⟩ hcode
  · rintro ⟨a, ha, hack, hrest⟩
    exact ⟨a, ha, (hnew a ha).mpr (.inl hack), hrest⟩

/-- The last click that the script leaves, where the one before is exact as a Lua number. -/
theorem get_entryClickedAt_of_click {clicked : Table String Int} {event : ClickEvent}
    (hparse : parseClickEvent serde e = some event)
    (hold : toDouble ((clicked.get event.shortCode).getD 0) =
      (clicked.get event.shortCode).getD 0) :
    (entryClickedAt serde clicked e).get event.shortCode =
      if (clicked.get event.shortCode).getD 0 < event.atTime.timestampMillis then
        some event.atTime.timestampMillis else clicked.get event.shortCode := by
  unfold entryClickedAt advanceLastClickedAt
  rw [hparse, Option.elim_some, toDouble_of_lt event.atTime.timestampMillis_lt, hold]
  by_cases hlt : (clicked.get event.shortCode).getD 0 < event.atTime.timestampMillis
  · rw [if_pos hlt, if_pos hlt, Table.get_set_self]
  · rw [if_neg hlt, if_neg hlt]

theorem get_entryClickedAt_of_other {clicked : Table String Int} {shortCode : String}
    (hcode : ¬ ∃ event, parseClickEvent serde e = some event ∧ event.shortCode = shortCode) :
    (entryClickedAt serde clicked e).get shortCode = clicked.get shortCode := by
  unfold entryClickedAt advanceLastClickedAt
  cases hparse : parseClickEvent serde e with
  | none => rfl
  | some event =>
    have hne : shortCode ≠ event.shortCode := fun heq => hcode ⟨event, hparse, heq.symm⟩
    rw [Option.elim_some]
    split
    · exact Table.get_set_of_ne _ _ hne
    · rfl

/-- Processing a pending entry advances the last click of its code, and of no other. -/
theorem lastClick_processEntry (h : StreamInv r log) (he : e ∈ log) (hpend : e.id ∈ r.pel)
    (hroom : ∀ b, entryHits serde e b = true → r.HasRoom b) (shortCode : String)
    (hcur : LastClick (ackedTimestamps serde r log shortCode) (r.lastClickedAt.get shortCode)) :
    LastClick (ackedTimestamps serde (processEntry serde r e) log shortCode)
      ((processEntry serde r e).lastClickedAt.get shortCode) := by
  obtain ⟨-, -, -, -, -, hclicked⟩ := processEntry_of_mem serde hpend hroom
  rw [hclicked]
  -- the entry contributes a timestamp to this code only if it is a click on it
  by_cases hcode : ∃ event, parseClickEvent serde e = some event ∧ event.shortCode = shortCode
  · obtain ⟨event, hparse, rfl⟩ := hcode
    have hold : toDouble ((r.lastClickedAt.get event.shortCode).getD 0) =
        (r.lastClickedAt.get event.shortCode).getD 0 := by
      cases hget : r.lastClickedAt.get event.shortCode with
      | none => exact toDouble_of_lt (by decide)
      | some m =>
        rw [hget] at hcur
        obtain ⟨-, -, -, event', -, -, rfl⟩ := hcur.1.1
        exact toDouble_of_lt event'.atTime.timestampMillis_lt
    rw [ackedTimestamps_of_click serde h he hpend hroom hparse,
      get_entryClickedAt_of_click serde hparse hold]
    exact hcur.insert _
  · rw [ackedTimestamps_of_other serde h he hpend hroom hcode,
      get_entryClickedAt_of_other serde hcode]
    exact hcur

end Clicks

/-! ## The invariant -/

/-- What holds in every reachable state, as long as no counter can reach the 64-bit limit. -/
structure ConsumerInv (serde : SerdeJson) (s : ConsumerState) : Prop where
  stream : StreamInv s.redis s.log
  memory_mem : ∀ w, ∀ e ∈ s.memory w, e ∈ s.log
  counted_eq : ∀ e ∈ s.log, ∀ b, s.counted e.id b =
    if s.redis.Acked e ∧ entryHits serde e b = true then 1 else 0
  counted_new : ∀ id, s.redis.lastId < id → ∀ b, s.counted id b = 0
  buckets_eq : ∀ b, s.redis.buckets.val b = ackedCount serde s.redis s.log b
  lastClick : ∀ shortCode, LastClick (ackedTimestamps serde s.redis s.log shortCode)
    (s.redis.lastClickedAt.get shortCode)

namespace ConsumerInv

variable {serde : SerdeJson} {s : ConsumerState}

theorem init : ConsumerInv serde ConsumerState.init where
  stream := StreamInv.empty
  memory_mem := by simp [ConsumerState.init]
  counted_eq := by simp [ConsumerState.init]
  counted_new := by simp [ConsumerState.init]
  buckets_eq := by simp [ConsumerState.init, Redis.empty, ackedCount]
  lastClick := by
    intro shortCode ts hts
    obtain ⟨e, he, -⟩ := hts
    simp [ConsumerState.init] at he

/-- A step that changes neither the acknowledgements nor the accounts, such as a delivery. -/
theorem of_delivery (h : ConsumerInv serde s) {s' : ConsumerState}
    (hstream : StreamInv s'.redis s.log) (hlog : s'.log = s.log)
    (hmem : ∀ w, ∀ e ∈ s'.memory w, e ∈ s.log) (hcounted : s'.counted = s.counted)
    (hack : ∀ e ∈ s.log, s'.redis.Acked e ↔ s.redis.Acked e)
    (hlast : s'.redis.lastId = s.redis.lastId) (hbuckets : s'.redis.buckets = s.redis.buckets)
    (hclicked : s'.redis.lastClickedAt = s.redis.lastClickedAt) : ConsumerInv serde s' where
  stream := hlog ▸ hstream
  memory_mem := by rw [hlog]; exact hmem
  counted_eq := by
    rw [hlog, hcounted]
    intro e he b
    rw [h.counted_eq e he b]
    simp only [hack e he]
  counted_new := by rw [hlast, hcounted]; exact h.counted_new
  buckets_eq := by
    intro b
    rw [hbuckets, hlog, ackedCount_congr serde hack, h.buckets_eq b]
  lastClick := by
    intro shortCode
    rw [hclicked, hlog, ackedTimestamps_congr serde hack]
    exact h.lastClick shortCode

theorem mem_of_remember {w v : Worker} {batch : List StreamId}
    (hmem : ∀ w, ∀ e ∈ s.memory w, e ∈ s.log) (hbatch : ∀ e ∈ batch, e ∈ s.log) {e : StreamId}
    (he : e ∈ (s.remember w batch).memory v) : e ∈ s.log := by
  by_cases hv : v = w
  · rw [show (s.remember w batch).memory v = s.memory v ++ batch from if_pos hv,
      List.mem_append] at he
    rcases he with he | he
    · exact hmem v e he
    · exact hbatch e he
  · rw [show (s.remember w batch).memory v = s.memory v from if_neg hv] at he
    exact hmem v e he

/-- A pending entry finds room in its counters while fewer than `2^63` entries were
appended: it is itself not counted yet. -/
theorem hasRoom (h : ConsumerInv serde s) (hlen : s.log.length ≤ i64Max) {e : StreamId}
    (he : e ∈ s.log) (hpend : e.id ∈ s.redis.pel) (b : Bucket) : s.redis.HasRoom b := by
  have hlow := ackedCount_nonneg serde s.redis s.log b
  have hhigh : ackedCount serde s.redis s.log b < s.log.length :=
    countWhere_lt_length he (by simp [Redis.Acked, hpend])
  unfold Redis.HasRoom
  rw [h.buckets_eq b]
  unfold i64Min
  omega

theorem append (h : ConsumerInv serde s) {e : StreamId} {r : Redis}
    (hadd : s.redis.xadd e = some r) :
    ConsumerInv serde { s with redis := r, log := s.log ++ [e] } := by
  obtain ⟨hlt, hr⟩ := xadd_cases hadd
  have hack := acked_xadd hadd
  have hnot := not_acked_xadd h.stream hadd
  refine
    { stream := h.stream.xadd hadd, memory_mem := ?_, counted_eq := ?_, counted_new := ?_,
      buckets_eq := ?_, lastClick := ?_ }
  · exact fun w a ha => List.mem_append_left _ (h.memory_mem w a ha)
  · intro a ha b
    rcases List.mem_append.mp ha with ha | ha
    · simp only [hack a]
      exact h.counted_eq a ha b
    · -- nothing was ever counted under the fresh id
      rw [List.mem_singleton.mp ha, h.counted_new e.id hlt b, if_neg fun hcon => hnot hcon.1]
  · intro id hid b
    have hlast : r.lastId = e.id := by rw [hr]
    exact h.counted_new id (Nat.lt_trans hlt (hlast ▸ hid)) b
  · intro b
    have hbuckets : r.buckets = s.redis.buckets := by rw [hr]
    show r.buckets.val b = _
    rw [hbuckets, ackedCount_xadd serde h.stream hadd, h.buckets_eq b]
  · intro shortCode
    have hclicked : r.lastClickedAt = s.redis.lastClickedAt := by rw [hr]
    show LastClick (ackedTimestamps serde r (s.log ++ [e]) shortCode) (r.lastClickedAt.get _)
    rw [ackedTimestamps_xadd serde h.stream hadd, hclicked]
    exact h.lastClick shortCode

/-- `process_entry` on any entry a worker holds: the first call while the entry is pending
counts it, every other call does nothing. -/
theorem process (h : ConsumerInv serde s) (hlen : s.log.length ≤ i64Max) {e : StreamId}
    (he : e ∈ s.log) : ConsumerInv serde { s with
      redis := Kurl.processEntry serde s.redis e
      counted := fun id b => s.counted id b + if id = e.id then
        (Kurl.processEntry serde s.redis e).buckets.val b - s.redis.buckets.val b else 0 } := by
  -- a pending entry is counted and acknowledged; for any other the script does nothing
  by_cases hpend : e.id ∈ s.redis.pel
  · have hroom := fun b (_ : entryHits serde e b = true) => h.hasRoom hlen he hpend b
    obtain ⟨-, hlast, -, -, hbuckets, -⟩ := processEntry_of_mem serde hpend hroom
    have hack := fun a (ha : a ∈ s.log) => acked_processEntry serde h.stream he hpend hroom ha
    have hnot : ¬ s.redis.Acked e := fun hcon => hcon.2 hpend
    refine
      { stream := h.stream.processEntry serde hroom, memory_mem := h.memory_mem,
        counted_eq := ?_, counted_new := ?_, buckets_eq := ?_, lastClick := ?_ }
    · intro a ha b
      show s.counted a.id b + _ = _
      rw [h.counted_eq a ha b, hbuckets b]
      simp only [hack a ha]
      by_cases hid : a.id = e.id
      · have hae : a = e := h.stream.eq_of_id_eq ha he hid
        subst hae
        simp [hnot]
      · have hne : a ≠ e := fun hae => hid (hae ▸ rfl)
        simp [hid, hne]
    · intro id hid b
      rw [hlast] at hid
      have hne : id ≠ e.id := Nat.ne_of_gt (Nat.lt_of_le_of_lt (h.stream.bounded e he) hid)
      show s.counted id b + _ = 0
      rw [if_neg hne, h.counted_new id hid b, Int.add_zero]
    · intro b
      show (Kurl.processEntry serde s.redis e).buckets.val b = _
      rw [hbuckets b, ackedCount_processEntry serde h.stream he hpend hroom, h.buckets_eq b]
    · exact fun shortCode =>
        lastClick_processEntry serde h.stream he hpend hroom shortCode (h.lastClick shortCode)
  · rw [processEntry_of_notMem serde hpend]
    simpa using h

/-- **Step lemma.** Only `process_entry` of a pending entry moves a counter, and it acknowledges
that entry in the same step. -/
theorem step (hlen : s.log.length ≤ i64Max) (h : ConsumerInv serde s) {a : ConsumerAction}
    {s' : ConsumerState} (hstep : s.step serde a = some s') : ConsumerInv serde s' := by
  cases a with
  | append entry =>
    -- a new entry is neither pending nor acknowledged
    obtain ⟨r, hadd, rfl⟩ := Option.map_eq_some_iff.mp hstep
    exact h.append hadd
  | ensureConsumerGroup =>
    obtain rfl := Option.some.inj hstep
    obtain ⟨-, -, -, hlast, hbuckets, hclicked⟩ := xgroupCreateMkstream_data s.redis
    exact h.of_delivery h.stream.xgroupCreateMkstream rfl h.memory_mem rfl
      (fun e _ => acked_xgroupCreateMkstream s.redis e) hlast hbuckets hclicked
  | readStream w count cancelled =>
    -- a read hands out entries, or it is dropped and they stay pending with the consumer
    obtain ⟨⟨r, batch⟩, hread, rfl⟩ := Option.map_eq_some_iff.mp hstep
    obtain ⟨-, -, -, -, -, hlast, hbuckets, hclicked⟩ := xreadgroup_cases hread
    obtain ⟨hbatch, -⟩ := xreadgroup_lastDelivered h.stream hread
    have hack := fun e (he : e ∈ s.log) => acked_xreadgroup h.stream hread he
    cases cancelled with
    | true =>
      exact h.of_delivery (h.stream.xreadgroup hread) rfl h.memory_mem rfl hack hlast hbuckets
        hclicked
    | false =>
      refine h.of_delivery (h.stream.xreadgroup hread) rfl (fun v e he => ?_) rfl hack hlast
        hbuckets hclicked
      exact mem_of_remember h.memory_mem (fun e he => h.stream.mem_log (hbatch e he).1) he
  | drainPendingBatch w count =>
    obtain ⟨⟨r, claimed⟩, hclaim, rfl⟩ := Option.map_eq_some_iff.mp hstep
    obtain ⟨rfl, hclaimed⟩ := xautoclaim_cases h.stream hclaim
    refine h.of_delivery h.stream rfl (fun v e he => ?_) rfl (fun _ _ => Iff.rfl) rfl rfl rfl
    exact mem_of_remember h.memory_mem (fun e he => h.stream.mem_log (hclaimed e he).1) he
  | processEntry w entry =>
    -- a worker processes what it holds in memory, whether or not another one has done so
    by_cases hheld : entry ∈ s.memory w
    · obtain rfl := Option.some.inj ((if_pos hheld).symm.trans hstep)
      exact h.process hlen (h.memory_mem w entry hheld)
    · simp [ConsumerState.step, hheld] at hstep
  | crash w =>
    -- what the worker held is forgotten, and pending as before
    obtain rfl := Option.some.inj hstep
    refine h.of_delivery h.stream rfl (fun v e he => ?_) rfl (fun _ _ => Iff.rfl) rfl rfl rfl
    by_cases hv : v = w
    · simp [hv] at he
    · exact h.memory_mem v e (by simpa [hv] using he)

end ConsumerInv

/-! ## Exactly once -/

/-- Fewer entries than a 64-bit counter can count were appended. -/
def ConsumerState.Countable (s : ConsumerState) : Prop := (s.log.length : Int) < 2 ^ 63

instance (s : ConsumerState) : Decidable s.Countable := Int.decLt _ _

/-- The log never shrinks. -/
theorem length_log_step {serde : SerdeJson} {s s' : ConsumerState} {a : ConsumerAction}
    (hstep : s.step serde a = some s') : s.log.length ≤ s'.log.length := by
  cases a with
  | append entry =>
    obtain ⟨r, -, rfl⟩ := Option.map_eq_some_iff.mp hstep
    simp
  | ensureConsumerGroup => exact Option.some.inj hstep ▸ le_refl _
  | readStream w count cancelled =>
    obtain ⟨⟨r, batch⟩, -, rfl⟩ := Option.map_eq_some_iff.mp hstep
    cases cancelled <;> exact le_refl _
  | drainPendingBatch w count =>
    obtain ⟨⟨r, claimed⟩, -, rfl⟩ := Option.map_eq_some_iff.mp hstep
    exact le_refl _
  | processEntry w entry =>
    by_cases hheld : entry ∈ s.memory w
    · obtain rfl := Option.some.inj ((if_pos hheld).symm.trans hstep)
      exact le_refl _
    · simp [ConsumerState.step, hheld] at hstep
  | crash w => exact Option.some.inj hstep ▸ le_refl _

/-- **Run lemma.** The bound on the length of the log is one on the last state, as the log only
grows. -/
theorem consumer_inv {serde : SerdeJson} {s : ConsumerState} {actions : List ConsumerAction}
    (hrun : (consumer serde).run ConsumerState.init actions = some s) (hlen : s.Countable) :
    ConsumerInv serde s := by
  have hinv : s.Countable → ConsumerInv serde s :=
    (consumer serde).run_invariant (I := fun s => s.Countable → ConsumerInv serde s)
      (fun t a t' ht hstep hlen' => by
        have hgrow := length_log_step hstep
        have hlen : t.Countable := by
          unfold ConsumerState.Countable at hlen' ⊢
          omega
        refine (ht hlen).step ?_ hstep
        unfold ConsumerState.Countable at hlen
        unfold i64Max
        omega)
      hrun fun _ => ConsumerInv.init
  exact hinv hlen

/-- Where an appended entry is. -/
inductive Situation where
  | undelivered
  | pending
  | counted

/-- A well-formed entry in each of its three situations. -/
def ConsumerState.InSituation (s : ConsumerState) (e : StreamId) (event : ClickEvent) :
    Situation → Prop
  | .undelivered => s.redis.lastDelivered < e.id ∧ e ∈ s.redis.entries ∧
      ∀ b, s.counted e.id b = 0
  | .pending => e.id ∈ s.redis.pel ∧ e ∈ s.redis.entries ∧ ∀ b, s.counted e.id b = 0
  | .counted => s.redis.Acked e ∧ e ∉ s.redis.entries ∧
      ∀ b, s.counted e.id b = if event.hits b then 1 else 0

theorem ConsumerInv.existsUnique_situation {serde : SerdeJson} {s : ConsumerState}
    (h : ConsumerInv serde s) {e : StreamId} (he : e ∈ s.log) {event : ClickEvent}
    (hparse : parseClickEvent serde e = some event) : ∃! st, s.InSituation e event st := by
  have hhits : ∀ b, entryHits serde e b = event.hits b := fun b => by simp [entryHits, hparse]
  have hnone (hnot : ¬ s.redis.Acked e) : ∀ b, s.counted e.id b = 0 := fun b => by
    rw [h.counted_eq e he b, if_neg fun hcon => hnot hcon.1]
  -- pending or not, and delivered or not: the invariant says of each which one it is
  by_cases hpend : e.id ∈ s.redis.pel
  · have hle := (h.stream.pending_mem _ hpend).1
    refine ⟨.pending, ⟨hpend, h.stream.mem_entries_of_pending he hpend,
      hnone fun hcon => hcon.2 hpend⟩, fun st hst => ?_⟩
    cases st with
    | undelivered => exact absurd hle (Nat.not_le_of_lt hst.1)
    | pending => rfl
    | counted => exact absurd hpend hst.1.2
  · by_cases hle : e.id ≤ s.redis.lastDelivered
    · have hack : s.redis.Acked e := ⟨hle, hpend⟩
      refine ⟨.counted, ⟨hack, h.stream.notMem_of_acked hack, fun b => ?_⟩, fun st hst => ?_⟩
      · rw [h.counted_eq e he b, hhits b]
        simp [hack]
      · cases st with
        | undelivered => exact absurd hle (Nat.not_le_of_lt hst.1)
        | pending => exact absurd hst.1 hpend
        | counted => rfl
    · have hlt := Nat.lt_of_not_le hle
      refine ⟨.undelivered, ⟨hlt, h.stream.undelivered_mem e he hlt,
        hnone fun hcon => hle hcon.1⟩, fun st hst => ?_⟩
      cases st with
      | undelivered => rfl
      | pending => exact absurd hst.1 hpend
      | counted => exact absurd hst.1.1 hle

/-- A malformed entry changes no counter, whenever it is processed. -/
theorem processEntry_malformed {serde : SerdeJson} {e : StreamId}
    (hparse : parseClickEvent serde e = none) (r : Redis) :
    (processEntry serde r e).buckets = r.buckets := by
  unfold processEntry dropClickEvent
  rw [hparse]
  by_cases hpend : e.id ∈ r.pel
  · obtain ⟨-, -, -, -, hbuckets, -⟩ := xack_xdel_data hpend
    exact (congrArg Redis.buckets (xackDel_of_mem hpend)).trans hbuckets
  · exact congrArg Redis.buckets (xackDel_of_notMem hpend)

/-! ## A click at the epoch, and a counter at its limit

`RECORD_CLICK` takes a missing last-click key for a click at time zero, so a click that is
not after the epoch never sets it. And an entry whose counter stands at the 64-bit limit is
acknowledged before `HINCRBY` refuses to count it. -/

/-- The bytes of the stream entry that a click on the code `a` at the Unix epoch travels in:
a JSON object with the fields `short_code`, `"a"`, and `at`, `"1970-01-01T00:00:00Z"`. -/
def epochPayload : List UInt8 :=
  [123, 34, 115, 104, 111, 114, 116, 95, 99, 111, 100, 101, 34, 58, 34, 97, 34, 44, 34, 97, 116,
    34, 58, 34, 49, 57, 55, 48, 45, 48, 49, 45, 48, 49, 84, 48, 48, 58, 48, 48, 58, 48, 48, 90,
    34, 125]

def epochClick : ClickEvent := ⟨"a", DateTime.unixEpoch⟩

def epochSerde : SerdeJson where
  fromSlice bytes := if bytes = epochPayload then some epochClick else none
  fromStr _ := none

def epochEntry (id : Nat) : StreamId :=
  ⟨id, HashMap.empty.insert "event" (.bulkString epochPayload)⟩

/-- One click, appended, delivered and processed. -/
def epochRound (id : Nat) : List ConsumerAction :=
  [.ensureConsumerGroup, .append (epochEntry id), .readStream 0 1 false,
    .processEntry 0 (epochEntry id)]

theorem parse_epochEntry (id : Nat) :
    parseClickEvent epochSerde (epochEntry id) = some epochClick := rfl

theorem entryHits_epochEntry (id : Nat) (b : Bucket) :
    entryHits epochSerde (epochEntry id) b = epochClick.hits b := rfl

/-- A state in which `n` clicks at the epoch were appended and all of them are handled. -/
structure Settled (n : Nat) (s : ConsumerState) : Prop where
  lastId : s.redis.lastId = n
  lastDelivered : s.redis.lastDelivered = n
  pel : s.redis.pel = []
  entries : s.redis.entries = []
  length_log : s.log.length = n
  log_mem : ∀ e ∈ s.log, e.id ≤ n ∧ ∀ b, entryHits epochSerde e b = epochClick.hits b

/-- The delivery of the one entry in the stream. -/
theorem xreadgroup_single {r : Redis} {g : Group} {e : StreamId} (hg : r.group = some g)
    (hentries : r.entries = [e]) (hlt : g.lastDelivered < e.id) : r.xreadgroup 1 =
      some ({ r with group := some ⟨e.id, g.pel ++ [e.id]⟩ }, [e]) := by
  unfold Redis.xreadgroup
  rw [hg, hentries]
  simp [hlt]

/-- A round up to the point where `process_entry` runs. -/
theorem Settled.round {n : Nat} {s : ConsumerState} (h : Settled n s) :
    ∃ r memory, (consumer epochSerde).run s (epochRound (n + 1)) = some
        ⟨processEntry epochSerde r (epochEntry (n + 1)), memory, s.log ++ [epochEntry (n + 1)],
          fun id b => s.counted id b + if id = n + 1 then
            (processEntry epochSerde r (epochEntry (n + 1))).buckets.val b - r.buckets.val b
            else 0⟩ ∧
      r.lastId = n + 1 ∧ r.lastDelivered = n + 1 ∧ r.pel = [n + 1] ∧
      r.entries = [epochEntry (n + 1)] ∧ r.buckets = s.redis.buckets := by
  obtain ⟨hdel, hpel, hentries, hlast, hbuckets, -⟩ := xgroupCreateMkstream_data s.redis
  obtain ⟨g, hg⟩ : ∃ g, s.redis.xgroupCreateMkstream.group = some g := by
    cases hgroup : s.redis.group with
    | none => exact ⟨⟨0, []⟩, by simp [Redis.xgroupCreateMkstream, hgroup]⟩
    | some g => exact ⟨g, by simp [Redis.xgroupCreateMkstream, hgroup]⟩
  rw [h.lastDelivered] at hdel
  rw [h.pel] at hpel
  rw [h.entries] at hentries
  rw [h.lastId] at hlast
  have hgdel : g.lastDelivered = n := by simpa [Redis.lastDelivered, hg] using hdel
  have hgpel : g.pel = [] := by simpa [Redis.pel, hg] using hpel
  have hadd : s.redis.xgroupCreateMkstream.xadd (epochEntry (n + 1)) = some
      { s.redis.xgroupCreateMkstream with
        entries := [epochEntry (n + 1)], lastId := n + 1 } := by
    unfold Redis.xadd
    rw [hlast, hentries]
    exact if_pos (Nat.lt_succ_self n)
  have hread := xreadgroup_single
    (r := { s.redis.xgroupCreateMkstream with
      entries := [epochEntry (n + 1)], lastId := n + 1 }) (e := epochEntry (n + 1)) hg rfl
    (by rw [hgdel]; exact Nat.lt_succ_self n)
  refine ⟨{ s.redis.xgroupCreateMkstream with
      entries := [epochEntry (n + 1)], lastId := n + 1, group := some ⟨n + 1, [n + 1]⟩ },
    fun v => if v = 0 then s.memory v ++ [epochEntry (n + 1)] else s.memory v, ?_,
    rfl, rfl, rfl, rfl, hbuckets⟩
  rw [hgpel] at hread
  simp [epochRound, Machine.run_cons, consumer, ConsumerState.step, hadd, hread,
    ConsumerState.remember]
  exact ⟨rfl, rfl⟩

theorem Settled.ackedCount {n : Nat} {s : ConsumerState} (h : Settled n s) {b : Bucket}
    (hb : epochClick.hits b = true) : ackedCount epochSerde s.redis s.log b = n := by
  have hall : s.log.countP (fun e => decide (s.redis.Acked e) && entryHits epochSerde e b) =
      s.log.length := by
    rw [List.countP_eq_length]
    intro e he
    have hack : s.redis.Acked e := ⟨h.lastDelivered ▸ (h.log_mem e he).1, by simp [h.pel]⟩
    rw [decide_eq_true hack, (h.log_mem e he).2 b, hb]
    rfl
  unfold Kurl.ackedCount countWhere
  rw [hall, h.length_log]

theorem Settled.log_mem_concat {n : Nat} {s : ConsumerState} (h : Settled n s) :
    ∀ e ∈ s.log ++ [epochEntry (n + 1)], e.id ≤ n + 1 ∧
      ∀ b, entryHits epochSerde e b = epochClick.hits b := by
  intro e he
  rcases List.mem_append.mp he with he | he
  · exact ⟨Nat.le_succ_of_le (h.log_mem e he).1, (h.log_mem e he).2⟩
  · rw [List.mem_singleton.mp he]
    exact ⟨Nat.le_refl _, entryHits_epochEntry (n + 1)⟩

/-- While the counters have room, each round settles one more click. -/
theorem exists_settled (n : Nat) (hn : (n : Int) < 2 ^ 63) : ∃ actions s,
    (consumer epochSerde).run ConsumerState.init actions = some s ∧ Settled n s := by
  induction n with
  | zero =>
    refine ⟨[], ConsumerState.init, rfl, rfl, rfl, rfl, rfl, rfl, ?_⟩
    simp [ConsumerState.init]
  | succ n ih =>
    obtain ⟨actions, s, hrun, h⟩ := ih (by omega)
    obtain ⟨r, memory, hround, hlast, hdel, hpel, hentries, hbuckets⟩ := h.round
    have hinv := consumer_inv hrun (by
      unfold ConsumerState.Countable
      rw [h.length_log]
      omega)
    have hroom : ∀ b, entryHits epochSerde (epochEntry (n + 1)) b = true → r.HasRoom b := by
      intro b hb
      unfold Redis.HasRoom i64Min i64Max
      rw [hbuckets, hinv.buckets_eq b, h.ackedCount hb]
      omega
    obtain ⟨hentries', hlast', hdel', hpel', -⟩ :=
      processEntry_of_mem epochSerde (e := epochEntry (n + 1)) (by simp [hpel, epochEntry]) hroom
    refine ⟨actions ++ epochRound (n + 1), _,
      (consumer epochSerde).run_append_some.mpr ⟨s, hrun, hround⟩, hlast'.trans hlast,
      hdel'.trans hdel, ?_, ?_, ?_, h.log_mem_concat⟩
    · rw [hpel', hpel]
      simp [epochEntry]
    · rw [hentries', hentries]
      simp
    · simp [h.length_log]

/-- The click that finds its counters at the limit is acknowledged and not counted. -/
theorem acked_not_counted_at_limit : ∃ actions s,
    (consumer epochSerde).run ConsumerState.init actions = some s ∧
      ackedCount epochSerde s.redis s.log (.global 0) = 2 ^ 63 ∧
      s.redis.buckets.val (.global 0) = 2 ^ 63 - 1 := by
  -- as many clicks as the counter has room for, and then one more
  obtain ⟨n, hn⟩ : ∃ n : Nat, (n : Int) = 2 ^ 63 - 1 := ⟨2 ^ 63 - 1, by decide⟩
  obtain ⟨actions, s, hrun, h⟩ := exists_settled n (by omega)
  obtain ⟨r, memory, hround, hlast, hdel, hpel, hentries, hbuckets⟩ := h.round
  have hinv := consumer_inv hrun (by
    unfold ConsumerState.Countable
    rw [h.length_log]
    omega)
  have hval : r.buckets.val (.global 0) = 2 ^ 63 - 1 := by
    rw [hbuckets, hinv.buckets_eq, h.ackedCount rfl, hn]
  -- `HINCRBY` would overflow; `XACK` comes before it in the script
  have hfull : ¬ r.HasRoom (.global 0) := by
    unfold Redis.HasRoom i64Max
    omega
  have hmem : n + 1 ∈ r.pel := by simp [hpel]
  obtain ⟨buckets, hrec, hkept, -⟩ :=
    recordClickEvent_of_full hmem epochClick (b := .global 0) rfl hfull
  obtain ⟨g, hg, hack⟩ := xack_of_mem hmem
  have hproc : processEntry epochSerde r (epochEntry (n + 1)) =
      { (r.xack (n + 1)).1 with buckets := buckets } := congrArg Prod.snd hrec
  have hacked : ∀ e ∈ s.log ++ [epochEntry (n + 1)],
      (processEntry epochSerde r (epochEntry (n + 1))).Acked e := by
    intro e he
    have hgdel : g.lastDelivered = n + 1 := by simpa [Redis.lastDelivered, hg] using hdel
    have hgpel : g.pel = [n + 1] := by simpa [Redis.pel, hg] using hpel
    rw [hproc, hack]
    unfold Redis.Acked
    simp [Redis.lastDelivered, Redis.pel, hgdel, hgpel, (h.log_mem_concat e he).1]
  refine ⟨actions ++ epochRound (n + 1), _,
    (consumer epochSerde).run_append_some.mpr ⟨s, hrun, hround⟩, ?_, ?_⟩
  · have hall : (s.log ++ [epochEntry (n + 1)]).countP (fun e =>
        decide ((processEntry epochSerde r (epochEntry (n + 1))).Acked e) &&
          entryHits epochSerde e (.global 0)) = (s.log ++ [epochEntry (n + 1)]).length := by
      rw [List.countP_eq_length]
      intro e he
      rw [decide_eq_true (hacked e he), (h.log_mem_concat e he).2]
      rfl
    unfold ackedCount countWhere
    rw [hall, List.length_append, h.length_log, List.length_singleton]
    omega
  · show (processEntry epochSerde r (epochEntry (n + 1))).buckets.val (.global 0) = _
    rw [hproc]
    exact hkept.trans hval

/-- The state one round from the start. -/
def epochState : ConsumerState :=
  ((consumer epochSerde).run ConsumerState.init (epochRound 1)).get (by decide)

theorem run_epochRound :
    (consumer epochSerde).run ConsumerState.init (epochRound 1) = some epochState :=
  (Option.some_get _).symm

/-! ## The result -/

/-- **Exactly-once click accounting.** In every reachable state a well-formed entry is
undelivered, pending, or acknowledged, deleted and counted once in each of its two buckets;
every bucket is the number of acknowledged well-formed entries that belong in it; and the
last click of a code is the greatest acknowledged timestamp, provided one is positive. -/
theorem clicks_counted_exactly_once (serde : SerdeJson) {s : ConsumerState}
    {actions : List ConsumerAction}
    (hrun : (consumer serde).run ConsumerState.init actions = some s) (hlen : s.Countable) :
    (∀ e ∈ s.log, ∀ event, parseClickEvent serde e = some event →
        ∃! st, s.InSituation e event st) ∧
      (∀ e, parseClickEvent serde e = none →
        (processEntry serde s.redis e).buckets = s.redis.buckets ∧
          (e ∈ s.log → ∀ b, s.counted e.id b = 0)) ∧
      (∀ b, s.redis.buckets.val b = ackedCount serde s.redis s.log b) ∧
      ∀ shortCode m, s.redis.lastClickedAt.get shortCode = some m ↔
        IsGreatest (ackedTimestamps serde s.redis s.log shortCode) m ∧ 0 < m := by
  have h := consumer_inv hrun hlen
  refine ⟨fun e he event hparse => h.existsUnique_situation he hparse, fun e hparse => ?_,
    h.buckets_eq, fun shortCode m => (h.lastClick shortCode).eq_some_iff m⟩
  refine ⟨processEntry_malformed hparse s.redis, fun he b => ?_⟩
  rw [h.counted_eq e he b]
  simp [entryHits, hparse]

/-- The accounting of a run with one click. -/
theorem clicks_counted_exactly_once_epoch : ∃ s,
    (consumer epochSerde).run ConsumerState.init (epochRound 1) = some s ∧
      (∃! st, s.InSituation (epochEntry 1) epochClick st) ∧
      ∀ b, s.redis.buckets.val b = ackedCount epochSerde s.redis s.log b := by
  have h := clicks_counted_exactly_once epochSerde run_epochRound (by decide)
  exact ⟨epochState, run_epochRound, h.1 (epochEntry 1) (by decide) epochClick rfl, h.2.2.1⟩

/-- The accounting fails without its two provisos: the greatest acknowledged timestamp of
`a` is zero and its last-click key is missing; and `2 ^ 63` acknowledged clicks of one day
leave its global bucket at `2 ^ 63 - 1`. -/
theorem accounting_fails_at_epoch_and_limit :
    (∃ actions s, (consumer epochSerde).run ConsumerState.init actions = some s ∧
      IsGreatest (ackedTimestamps epochSerde s.redis s.log "a") 0 ∧
      s.redis.lastClickedAt.get "a" = none) ∧
    ∃ actions s, (consumer epochSerde).run ConsumerState.init actions = some s ∧
      s.redis.buckets.val (.global 0) ≠ ackedCount epochSerde s.redis s.log (.global 0) := by
  refine ⟨?_, ?_⟩
  · refine ⟨epochRound 1, epochState, run_epochRound, ⟨?_, ?_⟩, rfl⟩
    · exact ⟨epochEntry 1, by decide, by decide, epochClick, rfl, rfl, rfl⟩
    · rintro ts ⟨e, he, -, event, hparse, -, rfl⟩
      have hlog : e ∈ [epochEntry 1] := he
      rw [List.mem_singleton.mp hlog, parse_epochEntry] at hparse
      rw [← Option.some.inj hparse]
      decide
  · obtain ⟨actions, s, hrun, hacked, hval⟩ := acked_not_counted_at_limit
    exact ⟨actions, s, hrun, by rw [hacked, hval]; decide⟩

end Kurl
