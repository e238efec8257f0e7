import Kurl.Analytics.Cleanup
import Kurl.Analytics.ExactlyOnce
import Kurl.Analytics.MergeStep
import Kurl.Analytics.Rehydrate

/-!
# Kurl — the writer over both stores (`analytics/src/event_consumer.rs`)

The one writer that holds the advisory lock, call by call: `run_inner` creates the group,
rehydrates, drains and reads the stream, processes what it was given and flushes. Between any two of
its calls the gateway appends clicks, the core service creates and deletes links, and Redis may lose
all its data. The writer itself may stop at any point, and starts again later.

Every command to Redis and every statement of the merge is a step of its own, so what another party
does between two of them is part of every run. What the code leaves open is in the action: the page
that a `SCAN` returns (`scan`), the rows a `SELECT` reads and the order of a hash map
(`selectGlobal`, `assemble`, `commit`), and whether a call to Redis was applied before its
connection failed (`CallResult`, and `reached` of `processEntry`).

`log` holds the entries appended since Redis was last empty and `lost` the ones before; `kept` holds
the codes whose rows the last upsert of `link_daily_clicks` found and that have not been deleted
since. No step reads them: they are what the theorems speak about.

`WriterState.Step` is the inversion of a step: one constructor for each way a step can go, with the
guards it has passed. It is the only thing later modules use, and a change to one call of
`run_inner` changes one constructor here and one case of each invariant.
-/

namespace Kurl

open Lib

/-- Where `run_inner` is. -/
inductive WriterPhase where
  | stopped
  /-- The lock is acquired. -/
  | starting
  | selectingGlobal
  | selectingLinks (windowStart : NaiveDate) (globalDaily : HashMap NaiveDate Int)
  | rehydrating (calls : List RedisCall)
  /-- Between two calls of `drain_pending` or `event_loop`. -/
  | ready
  | processing (batch : List StreamId)
  /-- `capture_snapshot` has read the hashes of these codes. -/
  | scanning (cutoff : NaiveDate) (scanned : List String) (counts : Table Bucket Int)
  | assembling (cutoff : NaiveDate) (counts : Table Bucket Int)
  | merging (tx : MergeTx)
  | reconciling (calls : List RedisCall) (reconciled : List Bucket)

/-- Both stores, the phase of the writer, and three histories. -/
structure WriterState where
  redis : Redis
  pg : Postgres
  phase : WriterPhase
  log : List StreamId
  lost : List StreamId
  kept : Finset String

namespace WriterState

def init : WriterState := ⟨Redis.empty, Postgres.empty, .stopped, [], [], ∅⟩

/-- The row locks of the running transaction. -/
def locks (st : WriterState) : Locks :=
  match st.phase with
  | .merging tx => tx.locks
  | _ => Locks.none

end WriterState

/-- The codes with a row, once this statement of a merge has upserted their daily rows. -/
def MergeStage.keptBy (pg : Postgres) (kept : Finset String) : MergeStage → Finset String
  | .upsertLinks _ => pg.links.keys
  | _ => kept

/-- The calls of the writer, in the order of `run_inner` below the steps of the other services. -/
inductive WriterAction where
  /-- The gateway's `XADD`. -/
  | append (entry : StreamId)
  | createLink (shortCode target : String) (expiration : Option DateTime)
  | deleteLink (shortCode : String)
  /-- Redis comes back without its data. -/
  | loseData
  /-- `acquire_writer` returns the lock. -/
  | start
  /-- `run_inner` returns, or the process ends. -/
  | stop
  | ensureConsumerGroup
  | selectGlobal (now : DateTime) (globalDaily : HashMap NaiveDate Int)
  | selectLinks (linkDaily : HashMap (String × NaiveDate) Int)
  /-- The next `HMAX` or cleanup call. -/
  | call (result : CallResult)
  | rehydrated
  /-- `read_stream`; when `cancelled`, `select!` dropped the future after the delivery. -/
  | readStream (count : Nat) (cancelled : Bool)
  /-- The `XAUTOCLAIM` of `drain_pending_batch`. -/
  | drainPendingBatch (count : Nat)
  /-- `process_entry` of the next entry, whose script reaches Redis or not. -/
  | processEntry (reached : Bool)
  | endBatch
  /-- `flush` begins. -/
  | flush (now : DateTime)
  | scan (shortCode : String)
  | captureGlobal
  | assemble (s : RedisSnapshot)
  /-- The next statement of the merge; an error rolls it back and ends the flush. -/
  | exec
  | commit (outcome : MergeOutcome) (connected : Bool)
  /-- The answer to the commit is lost, and the commit was applied or not. -/
  | commitUnknown (applied : Bool)
  /-- Any other failure of the flush. -/
  | flushFails
  /-- `flush` returns `Ok`. -/
  | flushReturns

namespace WriterState

def step (serde : SerdeJson) (st : WriterState) : WriterAction → Option WriterState
  | .append entry => (st.redis.xadd entry).map fun r =>
      { st with redis := r, log := st.log ++ [entry] }
  | .createLink shortCode target expiration =>
    match st.pg.createLink shortCode target expiration with
    | .ok pg => some { st with pg := pg }
    | .error _ => some st
  | .deleteLink shortCode =>
    -- a row lock of the merge makes the deletion wait
    if st.locks.blocksDelete shortCode then none
    else match st.pg.deleteLink shortCode with
      | .ok pg => some { st with pg := pg, kept := st.kept.erase shortCode }
      | .error _ => some st
  | .loseData => some { st with redis := Redis.empty, log := [], lost := st.lost ++ st.log }
  | .start =>
    match st.phase with
    | .stopped => some { st with phase := .starting }
    | _ => none
  | .stop => some { st with phase := .stopped }
  | .ensureConsumerGroup =>
    match st.phase with
    | .starting =>
      some { st with redis := st.redis.xgroupCreateMkstream, phase := .selectingGlobal }
    | _ => none
  | .selectGlobal now globalDaily =>
    match st.phase with
    | .selectingGlobal =>
      if globalDaily.toTable = st.pg.globalDailyClicksSince (rollingWindowStart now) then
        some { st with phase := .selectingLinks (rollingWindowStart now) globalDaily }
      else none
    | _ => none
  | .selectLinks linkDaily =>
    match st.phase with
    | .selectingLinks windowStart globalDaily =>
      if linkDaily.toTable = st.pg.linkDailyClicksSince windowStart then
        some { st with phase := .rehydrating (rehydrateCalls globalDaily linkDaily) }
      else none
    | _ => none
  | .call result =>
    match st.phase with
    | .rehydrating (call :: calls) =>
      some { st with redis := (call.exec st.redis [] result).1, phase := .rehydrating calls }
    | .reconciling (call :: calls) reconciled =>
      let (r, reconciled) := call.exec st.redis reconciled result
      some { st with redis := r, phase := .reconciling calls reconciled }
    | _ => none
  | .rehydrated =>
    match st.phase with
    | .rehydrating [] => some { st with phase := .ready }
    | _ => none
  | .readStream count cancelled =>
    match st.phase with
    | .ready => (st.redis.xreadgroup count).map fun (r, batch) =>
        { st with redis := r, phase := if cancelled then .ready else .processing batch }
    | _ => none
  | .drainPendingBatch count =>
    match st.phase with
    | .ready => (st.redis.xautoclaim count).map fun (r, claimed) =>
        { st with redis := r, phase := .processing claimed }
    | _ => none
  | .processEntry reached =>
    match st.phase with
    | .processing (entry :: batch) => some { st with
        redis := if reached then Kurl.processEntry serde st.redis entry else st.redis
        phase := .processing batch }
    | _ => none
  | .endBatch =>
    match st.phase with
    | .processing _ => some { st with phase := .ready }
    | _ => none
  | .flush now =>
    match st.phase with
    | .ready => some { st with
        phase := .scanning (staleCutoff now) [] Table.empty
        kept := st.pg.links.keys }
    | _ => none
  | .scan shortCode =>
    match st.phase with
    | .scanning cutoff scanned counts => some { st with
        phase := .scanning cutoff (shortCode :: scanned)
          (counts.overlay (parseDailyCounts (st.redis.hgetall (some shortCode)))) }
    | _ => none
  | .captureGlobal =>
    match st.phase with
    | .scanning cutoff scanned counts =>
      -- every hash that was there throughout has been met
      if st.redis.Scanned scanned then some { st with
        phase := .assembling cutoff
          (counts.overlay (parseDailyCounts (st.redis.hgetall none))) }
      else none
    | _ => none
  | .assemble s =>
    match st.phase with
    | .assembling cutoff counts =>
      if s.Assembles counts st.redis cutoff then some { st with
        phase := if s.globalDaily.isEmpty && s.linkDaily.isEmpty then .reconciling [] []
          else .merging (MergeTx.begin s) }
      else none
    | _ => none
  | .exec =>
    match st.phase with
    | .merging tx =>
      match tx.exec st.pg with
      | .ok tx' => some { st with
          phase := .merging tx'
          kept := tx.stage.keptBy (tx.view st.pg) st.kept }
      | .error _ => some { st with phase := .ready }
    | _ => none
  | .commit outcome connected =>
    match st.phase with
    | .merging tx =>
      match tx.stage with
      | .commit =>
        if tx.outcome.Reordered outcome then some { st with
          pg := tx.view st.pg
          phase := .reconciling
            (if connected then reconcileCalls tx.snapshot outcome else []) [] }
        else none
      | _ => none
    | _ => none
  | .commitUnknown applied =>
    match st.phase with
    | .merging tx =>
      match tx.stage with
      | .commit => some { st with
          pg := if applied then tx.view st.pg else st.pg
          phase := .ready }
      | _ => none
    | _ => none
  | .flushFails =>
    match st.phase with
    | .scanning _ _ _ | .assembling _ _ | .merging _ => some { st with phase := .ready }
    | _ => none
  | .flushReturns =>
    match st.phase with
    | .reconciling [] _ => some { st with phase := .ready }
    | _ => none

end WriterState

def writer (serde : SerdeJson) : Machine WriterState WriterAction where
  step := WriterState.step serde

/-! ## Steps -/

/-- The merge of the writer does not keep a link from being deleted. -/
theorem WriterState.merging_free {st : WriterState} {tx : MergeTx} {code : String}
    (hfree : st.locks.blocksDelete code = false) (hphase : st.phase = .merging tx) :
    tx.locks.blocksDelete code = false := by
  unfold locks at hfree
  rwa [hphase] at hfree

/-- The merge of a snapshot that has just been assembled. -/
theorem WriterPhase.eq_begin {s : RedisSnapshot} {tx : MergeTx}
    (h : (if s.globalDaily.isEmpty && s.linkDaily.isEmpty then reconciling [] []
      else merging (MergeTx.begin s)) = .merging tx) : tx = MergeTx.begin s := by
  split at h
  · cases h
  · exact (merging.inj h).symm

/-- The writer has rehydrated Redis. -/
def WriterPhase.Rehydrated : WriterPhase → Prop
  | .ready | .processing _ | .scanning _ _ _ | .assembling _ _ | .merging _ | .reconciling _ _ => True
  | _ => False

/-- The actions that can end a batch or a flush early. -/
def WriterAction.Drops : WriterAction → Prop
  | .endBatch | .exec | .commitUnknown _ | .flushFails => True
  | _ => False

/-- **What each step does.** -/
inductive WriterState.Step (serde : SerdeJson) (st : WriterState) : WriterAction → WriterState → Prop
  | append (entry : StreamId) {r : Redis} (hadd : st.redis.xadd entry = some r) :
      Step serde st (.append entry) { st with redis := r, log := st.log ++ [entry] }
  | createLink {code target : String} {expiration : Option DateTime} {pg : Postgres}
      (hcreate : st.pg.createLink code target expiration = .ok pg) :
      Step serde st (.createLink code target expiration) { st with pg := pg }
  | deleteLink {code : String} {pg : Postgres} (hfree : st.locks.blocksDelete code = false)
      (hdelete : st.pg.deleteLink code = .ok pg) :
      Step serde st (.deleteLink code) { st with pg := pg, kept := st.kept.erase code }
  | createFails {code target : String} {expiration : Option DateTime} :
      Step serde st (.createLink code target expiration) st
  | deleteFails {code : String} : Step serde st (.deleteLink code) st
  | loseData :
      Step serde st .loseData { st with redis := Redis.empty, log := [], lost := st.lost ++ st.log }
  | start (hphase : st.phase = .stopped) : Step serde st .start { st with phase := .starting }
  | stop : Step serde st .stop { st with phase := .stopped }
  /-- The writer drops the batch or the flush it is in, and changes no store. -/
  | drop {a : WriterAction} (ha : a.Drops) (hphase : st.phase.Rehydrated) :
      Step serde st a { st with phase := .ready }
  | ensureConsumerGroup (hphase : st.phase = .starting) :
      Step serde st .ensureConsumerGroup
        { st with redis := st.redis.xgroupCreateMkstream, phase := .selectingGlobal }
  | selectGlobal (now : DateTime) {globalDaily : HashMap NaiveDate Int}
      (hphase : st.phase = .selectingGlobal)
      (hreads : globalDaily.toTable = st.pg.globalDailyClicksSince (rollingWindowStart now)) :
      Step serde st (.selectGlobal now globalDaily)
        { st with phase := .selectingLinks (rollingWindowStart now) globalDaily }
  | selectLinks {since : NaiveDate} {globalDaily : HashMap NaiveDate Int}
      {linkDaily : HashMap (String × NaiveDate) Int}
      (hphase : st.phase = .selectingLinks since globalDaily)
      (hreads : linkDaily.toTable = st.pg.linkDailyClicksSince since) :
      Step serde st (.selectLinks linkDaily)
        { st with phase := .rehydrating (rehydrateCalls globalDaily linkDaily) }
  | rehydrate {call : RedisCall} {calls : List RedisCall} (result : CallResult)
      (hphase : st.phase = .rehydrating (call :: calls)) :
      Step serde st (.call result)
        { st with redis := (call.exec st.redis [] result).1, phase := .rehydrating calls }
  | rehydrated (hphase : st.phase = .rehydrating []) :
      Step serde st .rehydrated { st with phase := .ready }
  | readStream {count : Nat} {r : Redis} {batch : List StreamId} (cancelled : Bool)
      (hphase : st.phase = .ready) (hread : st.redis.xreadgroup count = some (r, batch)) :
      Step serde st (.readStream count cancelled)
        { st with redis := r, phase := if cancelled then .ready else .processing batch }
  | drainPendingBatch {count : Nat} {r : Redis} {claimed : List StreamId}
      (hphase : st.phase = .ready) (hclaim : st.redis.xautoclaim count = some (r, claimed)) :
      Step serde st (.drainPendingBatch count) { st with redis := r, phase := .processing claimed }
  | processEntry (entry : StreamId) (batch : List StreamId) (reached : Bool)
      (hphase : st.phase = .processing (entry :: batch)) :
      Step serde st (.processEntry reached) { st with
        redis := if reached then Kurl.processEntry serde st.redis entry else st.redis
        phase := .processing batch }
  | flush (now : DateTime) (hphase : st.phase = .ready) :
      Step serde st (.flush now) { st with
        phase := .scanning (staleCutoff now) [] Table.empty
        kept := st.pg.links.keys }
  | scan (code : String) {cutoff : NaiveDate} {scanned : List String} {counts : Table Bucket Int}
      (hphase : st.phase = .scanning cutoff scanned counts) :
      Step serde st (.scan code) { st with
        phase := .scanning cutoff (code :: scanned)
          (counts.overlay (parseDailyCounts (st.redis.hgetall (some code)))) }
  | captureGlobal {cutoff : NaiveDate} {scanned : List String} {counts : Table Bucket Int}
      (hphase : st.phase = .scanning cutoff scanned counts) (hscanned : st.redis.Scanned scanned) :
      Step serde st .captureGlobal { st with
        phase := .assembling cutoff
          (counts.overlay (parseDailyCounts (st.redis.hgetall none))) }
  | assemble {cutoff : NaiveDate} {counts : Table Bucket Int} {s : RedisSnapshot}
      (hphase : st.phase = .assembling cutoff counts) (hs : s.Assembles counts st.redis cutoff) :
      Step serde st (.assemble s) { st with
        phase := if s.globalDaily.isEmpty && s.linkDaily.isEmpty then .reconciling [] []
          else .merging (MergeTx.begin s) }
  | exec {tx tx' : MergeTx} (hphase : st.phase = .merging tx) (hexec : tx.exec st.pg = .ok tx') :
      Step serde st .exec { st with
        phase := .merging tx'
        kept := tx.stage.keptBy (tx.view st.pg) st.kept }
  | commit {tx : MergeTx} {outcome : MergeOutcome} (connected : Bool)
      (hphase : st.phase = .merging tx) (hstage : tx.stage = .commit)
      (horder : tx.outcome.Reordered outcome) :
      Step serde st (.commit outcome connected) { st with
        pg := tx.view st.pg
        phase := .reconciling (if connected then reconcileCalls tx.snapshot outcome else []) [] }
  | commitApplied {tx : MergeTx} (hphase : st.phase = .merging tx) (hstage : tx.stage = .commit) :
      Step serde st (.commitUnknown true) { st with pg := tx.view st.pg, phase := .ready }
  | reconcile {call : RedisCall} {calls : List RedisCall} {reconciled : List Bucket}
      (result : CallResult) (hphase : st.phase = .reconciling (call :: calls) reconciled) :
      Step serde st (.call result) { st with
        redis := (call.exec st.redis reconciled result).1
        phase := .reconciling calls (call.exec st.redis reconciled result).2 }
  | flushReturns {reconciled : List Bucket} (hphase : st.phase = .reconciling [] reconciled) :
      Step serde st .flushReturns { st with phase := .ready }

/-- The inversion holds: the cases follow those of `WriterState.step`, one guard after another. A
branch that the phase rules out ends in `none = some _`. -/
theorem WriterState.Step.of_step {serde : SerdeJson} {st st' : WriterState} {a : WriterAction}
    (h : (writer serde).step st a = some st') : st.Step serde a st' := by
  change st.step serde a = some st' at h
  cases a with
  | append entry =>
    obtain ⟨r, hadd, rfl⟩ := Option.map_eq_some_iff.mp h
    exact .append entry hadd
  | createLink code target expiration =>
    -- a refused creation leaves the stores as they were: `createFails`
    simp only [step] at h
    split at h
    · next pg hcreate =>
      obtain rfl := Option.some.inj h
      exact .createLink hcreate
    · obtain rfl := Option.some.inj h
      exact .createFails
  | deleteLink code =>
    -- the `DELETE` waits while the running merge holds the link's row
    simp only [step] at h
    split at h
    · cases h
    · next hfree =>
      split at h
      · next pg hdelete =>
        obtain rfl := Option.some.inj h
        exact .deleteLink (by simpa using hfree) hdelete
      · obtain rfl := Option.some.inj h
        exact .deleteFails
  | loseData =>
    obtain rfl := Option.some.inj h
    exact .loseData
  | start =>
    simp only [step] at h
    split at h
    · next hphase =>
      obtain rfl := Option.some.inj h
      exact .start hphase
    · cases h
  | stop =>
    obtain rfl := Option.some.inj h
    exact .stop
  | ensureConsumerGroup =>
    simp only [step] at h
    split at h
    · next hphase =>
      obtain rfl := Option.some.inj h
      exact .ensureConsumerGroup hphase
    · cases h
  | selectGlobal now globalDaily =>
    simp only [step] at h
    split at h
    · next hphase =>
      split at h
      · next hreads =>
        obtain rfl := Option.some.inj h
        exact .selectGlobal now hphase hreads
      · cases h
    · cases h
  | selectLinks linkDaily =>
    simp only [step] at h
    split at h
    · next since globalDaily hphase =>
      split at h
      · next hreads =>
        obtain rfl := Option.some.inj h
        exact .selectLinks hphase hreads
      · cases h
    · cases h
  | call result =>
    -- the same call of `HMAX_SCRIPT` is made by `rehydrate_redis` and after a commit
    simp only [step] at h
    split at h
    · next hphase =>
      obtain rfl := Option.some.inj h
      exact .rehydrate result hphase
    · next hphase =>
      obtain rfl := Option.some.inj h
      exact .reconcile result hphase
    · cases h
  | rehydrated =>
    simp only [step] at h
    split at h
    · next hphase =>
      obtain rfl := Option.some.inj h
      exact .rehydrated hphase
    · cases h
  | readStream count cancelled =>
    simp only [step] at h
    split at h
    · next hphase =>
      obtain ⟨⟨r, batch⟩, hread, rfl⟩ := Option.map_eq_some_iff.mp h
      exact .readStream cancelled hphase hread
    · cases h
  | drainPendingBatch count =>
    simp only [step] at h
    split at h
    · next hphase =>
      obtain ⟨⟨r, claimed⟩, hclaim, rfl⟩ := Option.map_eq_some_iff.mp h
      exact .drainPendingBatch hphase hclaim
    · cases h
  | processEntry reached =>
    simp only [step] at h
    split at h
    · next hphase =>
      obtain rfl := Option.some.inj h
      exact .processEntry _ _ reached hphase
    · cases h
  | endBatch =>
    -- the entries of the batch stay pending, to be claimed later
    simp only [step] at h
    split at h
    · next hphase =>
      obtain rfl := Option.some.inj h
      exact .drop trivial (by rw [hphase]; trivial)
    · cases h
  | flush now =>
    simp only [step] at h
    split at h
    · next hphase =>
      obtain rfl := Option.some.inj h
      exact .flush now hphase
    · cases h
  | scan code =>
    simp only [step] at h
    split at h
    · next hphase =>
      obtain rfl := Option.some.inj h
      exact .scan code hphase
    · cases h
  | captureGlobal =>
    simp only [step] at h
    split at h
    · next hphase =>
      split at h
      · next hscanned =>
        obtain rfl := Option.some.inj h
        exact .captureGlobal hphase hscanned
      · cases h
    · cases h
  | assemble s =>
    simp only [step] at h
    split at h
    · next hphase =>
      split at h
      · next hs =>
        obtain rfl := Option.some.inj h
        exact .assemble hphase hs
      · cases h
    · cases h
  | exec =>
    simp only [step] at h
    split at h
    · next hphase =>
      split at h
      · next hexec =>
        obtain rfl := Option.some.inj h
        exact .exec hphase hexec
      · -- the statement fails: the transaction rolls back and the flush returns its error
        obtain rfl := Option.some.inj h
        exact .drop trivial (by rw [hphase]; trivial)
    · cases h
  | commit outcome connected =>
    simp only [step] at h
    split at h
    · next hphase =>
      split at h
      · next hstage =>
        split at h
        · next horder =>
          obtain rfl := Option.some.inj h
          exact .commit connected hphase hstage horder
        · cases h
      · cases h
    · cases h
  | commitUnknown applied =>
    -- the connection is lost during `COMMIT`: Postgres has committed, or it has not
    simp only [step] at h
    split at h
    · next hphase =>
      split at h
      · next hstage =>
        obtain rfl := Option.some.inj h
        cases applied with
        | true => exact .commitApplied hphase hstage
        | false => exact .drop trivial (by rw [hphase]; trivial)
      · cases h
    · cases h
  | flushFails =>
    -- `capture_snapshot` or the calls after the commit fail; nothing is in flight at Postgres
    simp only [step] at h
    split at h
    · next hphase =>
      obtain rfl := Option.some.inj h
      exact .drop trivial (by rw [hphase]; trivial)
    · next hphase =>
      obtain rfl := Option.some.inj h
      exact .drop trivial (by rw [hphase]; trivial)
    · next hphase =>
      obtain rfl := Option.some.inj h
      exact .drop trivial (by rw [hphase]; trivial)
    · cases h
  | flushReturns =>
    simp only [step] at h
    split at h
    · next hphase =>
      obtain rfl := Option.some.inj h
      exact .flushReturns hphase
    · cases h

end Kurl
