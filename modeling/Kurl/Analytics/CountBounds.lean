import Kurl.Analytics.Writer

/-!
# Kurl — no over-count

Every count there is, in either store or in a local variable of the writer, is at most what its
bucket can be credited with: the entries lost with Redis, the acknowledged ones, and what was there
at the start (`WriterState.creditable`). Two facts carry this.

* **`Step.holds`** — a step that does not process an entry invents no count: what is held after it
  was held before, or is zero. The places a count can be in are the constructors of
  `WriterState.Holds` (a field of Redis, a row of Postgres, a local variable of the writer), and
  within a merge those of `MergeCount`.
* **`processEntry_val`** — processing an entry adds one to its buckets and acknowledges it, so a
  count and its credit grow together.

`WriterInv` puts them together with what the stream needs (`StreamInv`, the entries of a batch) and
with the frame of a running merge; `writer_inv` is its run lemma. Every later invariant of the
writer assumes it. The bound `CountsFit` on the number of entries is where the Lua script's doubles
and the 64-bit columns stay exact.
-/

namespace Kurl

open Lib

/-! ## The counts of a state -/

/-- Counts by day, as counts of the global buckets. -/
def globalRows (get : NaiveDate → Option Int) : Bucket → Option Int
  | .global day => get day
  | .link _ _ => none

/-- Counts by code and day, as counts of the link buckets. -/
def linkRows (get : String × NaiveDate → Option Int) : Bucket → Option Int
  | .global _ => none
  | .link code day => get (code, day)

/-- The counts that a merge has read. -/
def MergeStage.existing : MergeStage → Bucket → Option Int
  | .upsertGlobal existing => globalRows existing.get
  | .upsertLinks existing => linkRows existing.get
  | _ => fun _ => none

/-- A count of a merge at a stage where it sees `pg`. -/
inductive MergeCount (s : RedisSnapshot) (stage : MergeStage) (pg : Postgres) (o : MergeOutcome)
    (b : Bucket) (v : Int) : Prop
  | captured (h : s.counts.get b = some v)
  | read (h : stage.existing b = some v)
  | seen (h : pg.row b = some v)
  | committed (h : o.committed b = some v)

def MergeTx.Holds (pg : Postgres) (tx : MergeTx) (b : Bucket) (v : Int) : Prop :=
  MergeCount tx.snapshot tx.stage (tx.view pg) tx.outcome b v

/-- A count in a local variable of the writer. -/
def WriterPhase.Holds (pg : Postgres) (b : Bucket) (v : Int) : WriterPhase → Prop
  | .selectingLinks _ globalDaily => globalRows globalDaily.get b = some v
  | .rehydrating calls => .hmax b v ∈ calls
  | .scanning _ _ counts => counts.get b = some v
  | .assembling _ counts => counts.get b = some v
  | .merging tx => tx.Holds pg b v
  | .reconciling calls _ => .hmax b v ∈ calls
  | _ => False

/-- A count anywhere. -/
inductive WriterState.Holds (st : WriterState) (b : Bucket) (v : Int) : Prop
  | redis (h : st.redis.buckets.get b = some v)
  | pg (h : st.pg.row b = some v)
  | phase (h : st.phase.Holds st.pg b v)

namespace WriterState

variable (serde : SerdeJson)

/-- The well-formed entries ever appended that belong in a bucket. -/
def appended (st : WriterState) (b : Bucket) : Int :=
  countWhere (st.lost ++ st.log) fun e => entryHits serde e b

/-- Those that were lost with Redis or are acknowledged. -/
def creditable (st : WriterState) (b : Bucket) : Int :=
  countWhere st.lost (fun e => entryHits serde e b) + ackedCount serde st.redis st.log b

/-- The counts stay below `2^53`. `start` is what was counted before. -/
def CountsFit (start : Bucket → Int) (st : WriterState) : Prop :=
  ∀ b, 0 ≤ start b ∧ start b + st.appended serde b < 2 ^ 53

theorem creditable_le_appended (st : WriterState) (b : Bucket) :
    st.creditable serde b ≤ st.appended serde b := by
  have hacked : ackedCount serde st.redis st.log b ≤
      countWhere st.log fun e => entryHits serde e b :=
    countWhere_mono fun e _ he => (Bool.and_eq_true_iff.mp he).2
  unfold creditable appended
  rw [countWhere_append]
  omega

end WriterState

/-- What every later invariant of the writer builds on: the relation of stream and log, where the
batch comes from, the frame of a running merge, and that no count exceeds its credit. -/
structure WriterInv (serde : SerdeJson) (start : Bucket → Int) (st : WriterState) : Prop where
  stream : StreamInv st.redis st.log
  /-- The entries of a batch are of this stream, unless Redis has lost it. -/
  batch : ∀ batch, st.phase = .processing batch → st.redis.pel = [] ∨ ∀ e ∈ batch, e ∈ st.log
  frame : ∀ tx, st.phase = .merging tx → TxFrame st.pg tx
  within : ∀ b v, st.Holds b v → 0 ≤ v ∧ v ≤ start b + st.creditable serde b

/-! ## Counts of a merge -/

section Merge

variable {pg : Postgres} {tx tx' : MergeTx}

/-- A committed count was captured, or read, or is zero. -/
theorem committedRows_eq_some {κ : Type} [DecidableEq κ] {m : HashMap κ Int}
    {existing : Table κ Int} {k : κ} {v : Int}
    (h : assoc (committedRows m existing) k = some v) :
    v = 0 ∨ existing.get k = some v ∨ m.get k = some v := by
  rw [assoc_committedRows] at h
  obtain ⟨n, hn, rfl⟩ := Option.map_eq_some_iff.mp h
  rcases max_choice (existing.val k) n with hmax | hmax
  · rw [hmax]
    cases hget : existing.get k with
    | none => exact Or.inl (Table.val_of_none hget)
    | some u => exact Or.inr (Or.inl (by rw [Table.val_of_get hget]))
  · rw [hmax]
    exact Or.inr (Or.inr hn)

/-- The rows a deletion leaves. -/
theorem row_withoutLink {code : String} {b : Bucket} {v : Int}
    (h : (pg.withoutLink code).row b = some v) : pg.row b = some v := by
  cases b with
  | global day => exact h
  | link c day =>
    change (pg.linkDailyClicks.filter fun k => k.1 ≠ code).get (c, day) = some v at h
    rw [Table.get_filter] at h
    split at h
    · exact h
    · cases h

theorem existing_linksStage (s : RedisSnapshot) (b : Bucket) :
    (MergeTx.linksStage s).existing b = none := by
  unfold MergeTx.linksStage
  split <;> rfl

/-- What the upsert of the global rows commits. -/
theorem MergeCount.of_committedGlobal {s : RedisSnapshot} {pg : Postgres} {o : MergeOutcome}
    {existing : Table NaiveDate Int} {day : NaiveDate} {v : Int}
    (h : assoc (committedRows s.globalDaily existing) day = some v) :
    v = 0 ∨ MergeCount s (.upsertGlobal existing) pg o (.global day) v := by
  rcases committedRows_eq_some h with hzero | hread | hin
  · exact Or.inl hzero
  · exact Or.inr (.read hread)
  · exact Or.inr (.captured ((s.get_counts_global day).trans hin))

/-- What the upsert of the link rows commits. -/
theorem MergeCount.of_committedLinks {s : RedisSnapshot} {pg : Postgres} {o : MergeOutcome}
    {existing : Table (String × NaiveDate) Int} {code : String} {day : NaiveDate} {v : Int}
    (h : assoc (committedRows s.linkDaily existing) (code, day) = some v) :
    v = 0 ∨ MergeCount s (.upsertLinks existing) pg o (.link code day) v := by
  rcases committedRows_eq_some h with hzero | hread | hin
  · exact Or.inl hzero
  · exact Or.inr (.read hread)
  · exact Or.inr (.captured ((s.get_counts_link code day).trans hin))

/-- What a statement leaves was captured, read, seen or committed before. -/
theorem Executed.count {s : RedisSnapshot} {pg pg' : Postgres} {o o' : MergeOutcome}
    {stage stage' : MergeStage} (h : Executed s pg o stage pg' stage' o') {b : Bucket} {v : Int}
    (hv : MergeCount s stage' pg' o' b v) : v = 0 ∨ MergeCount s stage pg o b v := by
  cases hv with
  | captured hv => exact Or.inr (.captured hv)
  | read hread =>
    -- only the two reads fill this map; the statements after the upserts drop it
    cases h with
    | lockGlobal visible =>
      cases b with
      | link code day => cases hread
      | global day =>
        change (pg.selectGlobal visible).get day = some v at hread
        rw [Postgres.selectGlobal, Table.get_filter] at hread
        split at hread
        · exact Or.inr (.seen hread)
        · cases hread
    | lockLinks visible =>
      cases b with
      | global day => cases hread
      | link code day =>
        change (pg.selectLinks visible).get (code, day) = some v at hread
        rw [Postgres.selectLinks, Table.get_filter] at hread
        split at hread
        · exact Or.inr (.seen hread)
        · cases hread
    | upsertGlobal existing hdaily =>
      split at hread
      · cases hread
      · rw [existing_linksStage] at hread
        cases hread
    | updateTotal hpos =>
      rw [existing_linksStage] at hread
      cases hread
    | upsertLinks existing hdaily => split at hread <;> cases hread
    | selectGlobal hvisible => cases hread
    | selectLinks hvisible => cases hread
    | updateLinks deltas => cases hread
    | commit => cases hread
  | seen hrow =>
    -- a row after an upsert is the new count or the row before
    cases h with
    | upsertGlobal existing hdaily =>
      cases b with
      | link code day => exact Or.inr (.seen hrow)
      | global day =>
        rcases greatest_eq_some ((hdaily day).symm.trans hrow) with hnew | hold
        · exact MergeCount.of_committedGlobal hnew
        · exact Or.inr (.seen hold)
    | upsertLinks existing hdaily =>
      cases b with
      | global day => exact Or.inr (.seen hrow)
      | link code day =>
        have hdaily := (hdaily (code, day)).symm.trans hrow
        split at hdaily
        · rcases greatest_eq_some hdaily with hnew | hold
          · exact MergeCount.of_committedLinks hnew
          · exact Or.inr (.seen hold)
        · exact Or.inr (.seen hdaily)
    | updateTotal hpos => exact Or.inr (.seen (by cases b <;> exact hrow))
    | updateLinks deltas => exact Or.inr (.seen (by cases b <;> exact hrow))
    | selectGlobal hvisible => exact Or.inr (.seen hrow)
    | lockGlobal visible => exact Or.inr (.seen hrow)
    | selectLinks hvisible => exact Or.inr (.seen hrow)
    | lockLinks visible => exact Or.inr (.seen hrow)
    | commit => exact Or.inr (.seen hrow)
  | committed hcommitted =>
    -- only the upserts add to the outcome, and each returns the rows it has written
    cases h with
    | upsertGlobal existing hdaily =>
      cases b with
      | link code day => exact Or.inr (.committed hcommitted)
      | global day => exact MergeCount.of_committedGlobal hcommitted
    | upsertLinks existing hdaily =>
      cases b with
      | global day => exact Or.inr (.committed hcommitted)
      | link code day => exact MergeCount.of_committedLinks hcommitted
    | selectGlobal hvisible => exact Or.inr (.committed hcommitted)
    | lockGlobal visible => exact Or.inr (.committed hcommitted)
    | updateTotal hpos => exact Or.inr (.committed hcommitted)
    | selectLinks hvisible => exact Or.inr (.committed hcommitted)
    | lockLinks visible => exact Or.inr (.committed hcommitted)
    | updateLinks deltas => exact Or.inr (.committed hcommitted)
    | commit => exact Or.inr (.committed hcommitted)

/-- **A statement of a merge invents no count.** -/
theorem MergeTx.holds_exec (hframe : TxFrame pg tx) (hexec : tx.exec pg = .ok tx') {b : Bucket}
    {v : Int} (h : tx'.Holds pg b v) : v = 0 ∨ tx.Holds pg b v := by
  obtain ⟨hexecuted, hsnapshot, -⟩ := tx.executed_of_exec hframe hexec
  unfold MergeTx.Holds at h
  rw [hsnapshot] at h
  exact hexecuted.count h

/-- The counts of a merge when it begins are those of the snapshot and of the tables. -/
theorem MergeTx.holds_begin {s : RedisSnapshot} {b : Bucket} {v : Int}
    (h : (MergeTx.begin s).Holds pg b v) : s.counts.get b = some v ∨ pg.row b = some v := by
  cases h with
  | captured hin => exact Or.inl hin
  | read hread =>
    rcases MergeTx.stage_begin s with hstage | hstage
    · rw [hstage] at hread
      cases hread
    · rw [hstage, existing_linksStage] at hread
      cases hread
  | seen hrow =>
    rw [MergeTx.view_begin] at hrow
    exact Or.inr hrow
  | committed hcommitted => cases b <;> cases hcommitted

end Merge

/-! ## Counts of a step -/

section Steps

variable {serde : SerdeJson} {st st' : WriterState} {a : WriterAction} {b : Bucket} {v : Int}

theorem mem_rehydrateCalls {globalDaily : HashMap NaiveDate Int}
    {linkDaily : HashMap (String × NaiveDate) Int} :
    .hmax b v ∈ rehydrateCalls globalDaily linkDaily ↔
      globalRows globalDaily.get b = some v ∨ linkRows linkDaily.get b = some v := by
  constructor
  · intro h
    rcases List.mem_append.mp h with hcall | hcall
    · obtain ⟨e, he, heq⟩ := List.mem_map.mp hcall
      obtain ⟨rfl, rfl⟩ := RedisCall.hmax.inj heq
      exact Or.inl (globalDaily.get_eq_some_iff.mpr he)
    · obtain ⟨e, he, heq⟩ := List.mem_map.mp hcall
      obtain ⟨rfl, rfl⟩ := RedisCall.hmax.inj heq
      exact Or.inr (linkDaily.get_eq_some_iff.mpr he)
  · rintro (h | h)
    · cases b with
      | link code day => cases h
      | global day =>
        exact List.mem_append_left _ (List.mem_map.mpr ⟨_, globalDaily.get_eq_some_iff.mp h, rfl⟩)
    · cases b with
      | global day => cases h
      | link code day =>
        exact List.mem_append_right _ (List.mem_map.mpr ⟨_, linkDaily.get_eq_some_iff.mp h, rfl⟩)

/-- The committed counts of an outcome whose maps are met in another order. -/
theorem committed_of_reordered {outcome outcome' : MergeOutcome} (h : outcome.Reordered outcome')
    (b : Bucket) : outcome'.committed b = outcome.committed b := by
  refine Option.ext fun v => ?_
  cases b with
  | global day =>
    show outcome'.committedGlobal.get day = some v ↔ outcome.committedGlobal.get day = some v
    rw [HashMap.get_eq_some_iff, HashMap.get_eq_some_iff, h.1.mem_iff]
  | link code day =>
    show outcome'.committedLinks.get (code, day) = some v ↔
      outcome.committedLinks.get (code, day) = some v
    rw [HashMap.get_eq_some_iff, HashMap.get_eq_some_iff, h.2.mem_iff]

/-- A call leaves in a bucket what was there, or what it was called with. -/
theorem get_exec_cases {r : Redis} {reconciled : List Bucket} {call : RedisCall}
    {result : CallResult} (h : (call.exec r reconciled result).1.buckets.get b = some v) :
    r.buckets.get b = some v ∨ call = .hmax b v := by
  cases call with
  | compareAndDelete b' value =>
    rw [get_exec_of_target_ne (by simp [RedisCall.target])] at h
    exact Or.inl h
  | hmax b' value =>
    rw [get_exec_hmax] at h
    split at h
    · next hboth =>
      obtain rfl := Option.some.inj h
      rcases hmaxValue_cases (r.buckets.get b) value with hvalue | hcurrent
      · exact Or.inr (by rw [hboth.1, ← hboth.1, hvalue])
      · exact Or.inl hcurrent
    · exact Or.inl h

/-- What a hash holds that parses is in its bucket. -/
theorem get_of_parsed {r : Redis} {code : Option String}
    (h : (parseDailyCounts (r.hgetall code)).get b = some v) : r.buckets.get b = some v := by
  rw [get_parseDailyCounts] at h
  split at h
  · rw [get_hgetall] at h
    split at h
    · exact h
    · cases h
  · cases h

/-- What the writer has scanned, after one more hash. -/
theorem get_of_overlay_parsed {counts : Table Bucket Int} {r : Redis} {code : Option String}
    (h : (counts.overlay (parseDailyCounts (r.hgetall code))).get b = some v) :
    r.buckets.get b = some v ∨ counts.get b = some v := by
  rw [Table.get_overlay] at h
  rcases Option.or_eq_some_iff.mp h with hnew | ⟨-, hold⟩
  · exact Or.inl (get_of_parsed hnew)
  · exact Or.inr hold

namespace WriterState

/-- A creation or a deletion of a link while the writer is in a phase. -/
theorem phase_holds_createLink (hframe : ∀ tx, st.phase = .merging tx → TxFrame st.pg tx)
    {code target : String} {expiration : Option DateTime} {pg : Postgres}
    (hcreate : st.pg.createLink code target expiration = .ok pg) (h : st.phase.Holds pg b v) :
    st.phase.Holds st.pg b v := by
  cases hphase : st.phase with
  | merging tx =>
    rw [hphase] at h
    obtain ⟨-, hview, -⟩ := (hframe tx hphase).view_createLink hcreate
    cases h with
    | captured h => exact .captured h
    | read h => exact .read h
    | committed h => exact .committed h
    | seen h =>
      rw [hview] at h
      exact .seen (by cases b <;> exact h)
  | _ =>
    rw [hphase] at h
    exact h

theorem phase_holds_deleteLink (hframe : ∀ tx, st.phase = .merging tx → TxFrame st.pg tx)
    {code : String} {pg : Postgres} (hfree : st.locks.blocksDelete code = false)
    (hdelete : st.pg.deleteLink code = .ok pg) (h : st.phase.Holds pg b v) :
    st.phase.Holds st.pg b v := by
  cases hphase : st.phase with
  | merging tx =>
    rw [hphase] at h
    obtain ⟨hview, -⟩ := (hframe tx hphase).view_deleteLink hdelete (merging_free hfree hphase)
    cases h with
    | captured h => exact .captured h
    | read h => exact .read h
    | committed h => exact .committed h
    | seen h =>
      rw [hview] at h
      exact .seen (row_withoutLink h)
  | _ =>
    rw [hphase] at h
    exact h

/-- What a state holds, when the stores are those of before. -/
theorem Holds.of_sameStores (h : st'.Holds b v) (st : WriterState)
    (hbuckets : st'.redis.buckets = st.redis.buckets) (hpg : st'.pg = st.pg) :
    st.Holds b v ∨ st'.phase.Holds st.pg b v := by
  cases h with
  | redis h => exact Or.inl (.redis (hbuckets ▸ h))
  | pg h => exact Or.inl (.pg (hpg ▸ h))
  | phase h => exact Or.inr (hpg ▸ h)

/-- **A step that processes no entry invents no count.** -/
theorem Step.holds (hframe : ∀ tx, st.phase = .merging tx → TxFrame st.pg tx)
    (hstep : st.Step serde a st') (ha : ∀ reached, a ≠ .processEntry reached)
    (h : st'.Holds b v) : v = 0 ∨ st.Holds b v := by
  -- where the stores stay as they are, only the local variables of the new phase are to be traced
  -- (`of_sameStores`); most phases hold no count
  cases hstep with
  | append entry hadd =>
    obtain ⟨-, rfl⟩ := xadd_cases hadd
    cases h with
    | redis h => exact Or.inr (.redis h)
    | pg h => exact Or.inr (.pg h)
    | phase h => exact Or.inr (.phase h)
  | createLink hcreate =>
    cases h with
    | redis h => exact Or.inr (.redis h)
    | pg h =>
      obtain ⟨-, rfl⟩ := Postgres.createLink_ok hcreate
      exact Or.inr (.pg (by cases b <;> exact h))
    | phase h => exact Or.inr (.phase (phase_holds_createLink hframe hcreate h))
  | deleteLink hfree hdelete =>
    -- a deletion takes rows away, also from what a running merge sees
    cases h with
    | redis h => exact Or.inr (.redis h)
    | pg h =>
      obtain rfl : _ = st.pg.withoutLink _ := Postgres.deleteLink_ok hdelete
      exact Or.inr (.pg (row_withoutLink h))
    | phase h => exact Or.inr (.phase (phase_holds_deleteLink hframe hfree hdelete h))
  | createFails => exact Or.inr h
  | deleteFails => exact Or.inr h
  | loseData =>
    cases h with
    | redis h => cases h
    | pg h => exact Or.inr (.pg h)
    | phase h => exact Or.inr (.phase h)
  | start hphase =>
    rcases h.of_sameStores st rfl rfl with hold | hphase'
    · exact Or.inr hold
    · exact absurd hphase' id
  | stop =>
    rcases h.of_sameStores st rfl rfl with hold | hphase'
    · exact Or.inr hold
    · exact absurd hphase' id
  | drop _ _ =>
    rcases h.of_sameStores st rfl rfl with hold | hphase'
    · exact Or.inr hold
    · exact absurd hphase' id
  | ensureConsumerGroup hphase =>
    obtain ⟨-, -, -, -, hbuckets, -⟩ := xgroupCreateMkstream_data st.redis
    rcases h.of_sameStores st hbuckets rfl with hold | hphase'
    · exact Or.inr hold
    · exact absurd hphase' id
  | selectGlobal now hphase hreads =>
    rcases h.of_sameStores st rfl rfl with hold | h
    · exact Or.inr hold
    · -- the days it has read are rows of the window
      cases b with
      | link code day => cases h
      | global day =>
        change HashMap.get _ day = some v at h
        rw [← HashMap.get_toTable, hreads, Postgres.globalDailyClicksSince, Table.get_filter] at h
        split at h
        · exact Or.inr (.pg h)
        · cases h
  | selectLinks hphase hreads =>
    rcases h.of_sameStores st rfl rfl with hold | h
    · exact Or.inr hold
    · -- the calls to come: the global days read before, the link days read now
      rcases mem_rehydrateCalls.mp h with hglobal | hlink
      · exact Or.inr (.phase (by rw [hphase]; exact hglobal))
      · cases b with
        | global day => cases hlink
        | link code day =>
          change HashMap.get _ (code, day) = some v at hlink
          rw [← HashMap.get_toTable, hreads, Postgres.linkDailyClicksSince,
            Table.get_filter] at hlink
          split at hlink
          · exact Or.inr (.pg hlink)
          · cases hlink
  | rehydrate result hphase =>
    -- `HMAX` leaves what was there or the value it is called with, a count of the phase before
    cases h with
    | redis h =>
      rcases get_exec_cases h with hold | rfl
      · exact Or.inr (.redis hold)
      · exact Or.inr (.phase (by rw [hphase]; exact List.mem_cons_self))
    | pg h => exact Or.inr (.pg h)
    | phase h => exact Or.inr (.phase (by rw [hphase]; exact List.mem_cons_of_mem _ h))
  | rehydrated hphase =>
    rcases h.of_sameStores st rfl rfl with hold | hphase'
    · exact Or.inr hold
    · exact absurd hphase' id
  | readStream cancelled hphase hread =>
    obtain ⟨-, -, -, -, -, -, hbuckets, -⟩ := xreadgroup_cases hread
    rcases h.of_sameStores st hbuckets rfl with hold | hphase'
    · exact Or.inr hold
    · cases cancelled <;> exact absurd hphase' id
  | drainPendingBatch hphase hclaim =>
    unfold Redis.xautoclaim at hclaim
    obtain ⟨g, -, heq⟩ := Option.map_eq_some_iff.mp hclaim
    obtain ⟨rfl, -⟩ := Prod.mk.inj heq
    rcases h.of_sameStores st rfl rfl with hold | hphase'
    · exact Or.inr hold
    · exact absurd hphase' id
  | processEntry _ _ reached _ => exact absurd rfl (ha reached)
  | flush now hphase =>
    rcases h.of_sameStores st rfl rfl with hold | hphase'
    · exact Or.inr hold
    · cases hphase'
  | scan code hphase =>
    -- what one more hash adds to the scanned counts parses from a field of Redis
    rcases h.of_sameStores st rfl rfl with hold | h
    · exact Or.inr hold
    · rcases get_of_overlay_parsed h with hnew | hold
      · exact Or.inr (.redis hnew)
      · exact Or.inr (.phase (by rw [hphase]; exact hold))
  | captureGlobal hphase hscanned =>
    rcases h.of_sameStores st rfl rfl with hold | h
    · exact Or.inr hold
    · rcases get_of_overlay_parsed h with hnew | hold
      · exact Or.inr (.redis hnew)
      · exact Or.inr (.phase (by rw [hphase]; exact hold))
  | assemble hphase hs =>
    -- the snapshot holds the scanned counts; a merge that begins sees the tables too
    rcases h.of_sameStores st rfl rfl with hold | h
    · exact Or.inr hold
    · change WriterPhase.Holds st.pg b v (if _ then _ else _) at h
      split at h
      · cases h
      · rcases MergeTx.holds_begin h with hin | hrow
        · exact Or.inr (.phase (by rw [hphase]; exact (hs.get_counts b).symm.trans hin))
        · exact Or.inr (.pg hrow)
  | exec hphase hexec =>
    -- the statement invents no count (`MergeTx.holds_exec`)
    rcases h.of_sameStores st rfl rfl with hold | h
    · exact Or.inr hold
    · rcases MergeTx.holds_exec (hframe _ hphase) hexec h with hzero | hold
      · exact Or.inl hzero
      · exact Or.inr (.phase (by rw [hphase]; exact hold))
  | commit connected hphase hstage horder =>
    -- what the tables hold now is what the merge saw before it committed
    cases h with
    | redis h => exact Or.inr (.redis h)
    | pg h => exact Or.inr (.phase (by rw [hphase]; exact .seen h))
    | phase h =>
      -- the counts to raise in Redis are the committed ones
      cases connected with
      | false => cases h
      | true =>
        have hcommitted := mem_reconcileCalls_committed.mp h
        rw [committed_of_reordered horder] at hcommitted
        exact Or.inr (.phase (by rw [hphase]; exact .committed hcommitted))
  | commitApplied hphase hstage =>
    cases h with
    | redis h => exact Or.inr (.redis h)
    | pg h => exact Or.inr (.phase (by rw [hphase]; exact .seen h))
    | phase h => exact absurd h id
  | reconcile result hphase =>
    -- `HMAX` again, called with a committed count
    cases h with
    | redis h =>
      rcases get_exec_cases h with hold | rfl
      · exact Or.inr (.redis hold)
      · exact Or.inr (.phase (by rw [hphase]; exact List.mem_cons_self))
    | pg h => exact Or.inr (.pg h)
    | phase h => exact Or.inr (.phase (by rw [hphase]; exact List.mem_cons_of_mem _ h))
  | flushReturns hphase =>
    rcases h.of_sameStores st rfl rfl with hold | hphase'
    · exact Or.inr hold
    · exact absurd hphase' id

end WriterState

/-! ## The stream and the credit -/

/-- A call raises counters and touches nothing of the stream. -/
theorem exec_stream (r : Redis) (reconciled : List Bucket) (call : RedisCall) (result : CallResult) :
    (call.exec r reconciled result).1.entries = r.entries ∧
      (call.exec r reconciled result).1.lastId = r.lastId ∧
      (call.exec r reconciled result).1.group = r.group ∧
      (call.exec r reconciled result).1.lastClickedAt = r.lastClickedAt := by
  rw [RedisCall.exec_redis]
  split
  · exact ⟨rfl, rfl, rfl, rfl⟩
  · cases call <;> exact ⟨rfl, rfl, rfl, rfl⟩

theorem acked_of_group {r r' : Redis} (h : r'.group = r.group) (e : StreamId) :
    r'.Acked e ↔ r.Acked e := by
  unfold Redis.Acked Redis.lastDelivered Redis.pel
  rw [h]

theorem StreamInv.of_group {r r' : Redis} {log : List StreamId} (h : StreamInv r log)
    (hentries : r'.entries = r.entries) (hlast : r'.lastId = r.lastId)
    (hgroup : r'.group = r.group) : StreamInv r' log :=
  h.congr hentries hlast (by unfold Redis.lastDelivered; rw [hgroup])
    (by unfold Redis.pel; rw [hgroup])

namespace WriterState

/-- **The credit of a step** that processes no entry and loses no data is the one before. -/
theorem Step.creditable (hstream : StreamInv st.redis st.log) (hstep : st.Step serde a st')
    (ha : ∀ reached, a ≠ .processEntry reached) (hlose : a ≠ .loseData) (b : Bucket) :
    st'.creditable serde b = st.creditable serde b := by
  cases hstep with
  | append entry hadd =>
    show countWhere st.lost _ + ackedCount serde _ (st.log ++ [_]) b = _
    rw [ackedCount_xadd serde hstream hadd]
    rfl
  | loseData => exact absurd rfl hlose
  | processEntry _ _ reached _ => exact absurd rfl (ha reached)
  | ensureConsumerGroup hphase =>
    show countWhere st.lost _ + ackedCount serde _ st.log b = _
    rw [ackedCount_congr serde fun e _ => acked_xgroupCreateMkstream st.redis e]
    rfl
  | readStream cancelled hphase hread =>
    show countWhere st.lost _ + ackedCount serde _ st.log b = _
    rw [ackedCount_congr serde fun e he => acked_xreadgroup hstream hread he]
    rfl
  | drainPendingBatch hphase hclaim =>
    obtain ⟨rfl, -⟩ := xautoclaim_cases hstream hclaim
    rfl
  | rehydrate result hphase =>
    show countWhere st.lost _ + ackedCount serde _ st.log b = _
    rw [ackedCount_congr serde fun e _ => acked_of_group (exec_stream _ _ _ _).2.2.1 e]
    rfl
  | reconcile result hphase =>
    show countWhere st.lost _ + ackedCount serde _ st.log b = _
    rw [ackedCount_congr serde fun e _ => acked_of_group (exec_stream _ _ _ _).2.2.1 e]
    rfl
  | _ => rfl

/-- The credit of the entries lost with Redis covers that of the ones acknowledged. -/
theorem creditable_loseData (st : WriterState) (b : Bucket) : st.creditable serde b ≤
    creditable serde { st with redis := Redis.empty, log := [], lost := st.lost ++ st.log } b := by
  have hle := st.creditable_le_appended serde b
  show _ ≤ countWhere (st.lost ++ st.log) _ + ackedCount serde Redis.empty [] b
  have hzero := ackedCount_nonneg serde Redis.empty [] b
  unfold appended at hle
  omega

end WriterState

/-! ## The invariant -/

namespace WriterInv

variable {start : Bucket → Int}

/-- The count of a bucket in Redis. -/
theorem val_le (h : WriterInv serde start st) (hfit : st.CountsFit serde start) (b : Bucket) :
    0 ≤ st.redis.buckets.val b ∧
      st.redis.buckets.val b ≤ start b + st.creditable serde b := by
  cases hget : st.redis.buckets.get b with
  | none =>
    have hlost := countWhere_nonneg st.lost fun e => entryHits serde e b
    have hacked := ackedCount_nonneg serde st.redis st.log b
    have hstart := (hfit b).1
    rw [Table.val_of_none hget]
    unfold WriterState.creditable
    omega
  | some n =>
    rw [Table.val_of_get hget]
    exact h.within b n (.redis hget)

theorem hasRoom (h : WriterInv serde start st) (hfit : st.CountsFit serde start) (b : Bucket) :
    st.redis.HasRoom b := by
  have hval := h.val_le hfit b
  have hle := st.creditable_le_appended serde b
  have hbound := (hfit b).2
  unfold Redis.HasRoom i64Min i64Max
  omega

/-- The entry at the head of a batch is not pending any more, or is an entry of this stream. -/
theorem head_mem (h : WriterInv serde start st) {entry : StreamId} {batch : List StreamId}
    (hphase : st.phase = .processing (entry :: batch)) (hpend : entry.id ∈ st.redis.pel) :
    entry ∈ st.log := by
  rcases h.batch _ hphase with hnil | hmem
  · rw [hnil] at hpend
    cases hpend
  · exact hmem entry List.mem_cons_self

theorem stream_step (h : WriterInv serde start st) (hfit : st.CountsFit serde start)
    (hstep : st.Step serde a st') : StreamInv st'.redis st'.log := by
  cases hstep with
  | append entry hadd => exact h.stream.xadd hadd
  | loseData => exact StreamInv.empty
  | ensureConsumerGroup hphase => exact h.stream.xgroupCreateMkstream
  | readStream cancelled hphase hread => exact h.stream.xreadgroup hread
  | drainPendingBatch hphase hclaim =>
    obtain ⟨rfl, -⟩ := xautoclaim_cases h.stream hclaim
    exact h.stream
  | processEntry entry batch reached hphase =>
    cases reached with
    | false => exact h.stream
    | true => exact h.stream.processEntry serde fun b _ => h.hasRoom hfit b
  | rehydrate result hphase =>
    obtain ⟨hentries, hlast, hgroup, -⟩ := exec_stream st.redis [] _ result
    exact h.stream.of_group hentries hlast hgroup
  | reconcile result hphase =>
    obtain ⟨hentries, hlast, hgroup, -⟩ := exec_stream st.redis _ _ result
    exact h.stream.of_group hentries hlast hgroup
  | _ => exact h.stream

theorem batch_step (h : WriterInv serde start st) (hstep : st.Step serde a st')
    {batch : List StreamId} (hbatch : st'.phase = .processing batch) :
    st'.redis.pel = [] ∨ ∀ e ∈ batch, e ∈ st'.log := by
  cases hstep with
  | append entry hadd =>
    obtain ⟨-, rfl⟩ := xadd_cases hadd
    exact (h.batch batch hbatch).imp_right fun hmem e he => List.mem_append_left _ (hmem e he)
  | createLink hcreate => exact h.batch batch hbatch
  | deleteLink hfree hdelete => exact h.batch batch hbatch
  | createFails => exact h.batch batch hbatch
  | deleteFails => exact h.batch batch hbatch
  | loseData => exact Or.inl rfl
  | readStream cancelled hphase hread =>
    obtain ⟨hin, -⟩ := xreadgroup_lastDelivered h.stream hread
    cases cancelled with
    | true => cases hbatch
    | false =>
      obtain rfl := WriterPhase.processing.inj hbatch
      exact Or.inr fun e he => h.stream.mem_log (hin e he).1
  | drainPendingBatch hphase hclaim =>
    obtain ⟨-, hin⟩ := xautoclaim_cases h.stream hclaim
    obtain rfl := WriterPhase.processing.inj hbatch
    exact Or.inr fun e he => h.stream.mem_log (hin e he).1
  | processEntry entry rest reached hphase =>
    obtain rfl := WriterPhase.processing.inj hbatch
    rcases h.batch _ hphase with hnil | hmem
    · have hsame : Kurl.processEntry serde st.redis entry = st.redis :=
        processEntry_of_notMem serde (by rw [hnil]; simp)
      refine Or.inl ?_
      cases reached with
      | false => exact hnil
      | true =>
        show (Kurl.processEntry serde st.redis entry).pel = []
        rw [hsame, hnil]
    · exact Or.inr fun e he => hmem e (List.mem_cons_of_mem _ he)
  | assemble hphase hs =>
    change (if _ then WriterPhase.reconciling [] [] else _) = _ at hbatch
    split at hbatch <;> cases hbatch
  | _ => cases hbatch

theorem frame_step (h : WriterInv serde start st) (hstep : st.Step serde a st') {tx : MergeTx}
    (htx : st'.phase = .merging tx) : TxFrame st'.pg tx := by
  cases hstep with
  | append entry hadd => exact h.frame tx htx
  | createLink hcreate => exact ((h.frame tx htx).view_createLink hcreate).2.2
  | deleteLink hfree hdelete =>
    exact ((h.frame tx htx).view_deleteLink hdelete (WriterState.merging_free hfree htx)).2
  | createFails => exact h.frame tx htx
  | deleteFails => exact h.frame tx htx
  | loseData => exact h.frame tx htx
  | readStream cancelled hphase hread => cases cancelled <;> cases htx
  | assemble hphase hs =>
    obtain rfl := WriterPhase.eq_begin htx
    exact TxFrame.begin _ _
  | exec hphase hexec =>
    obtain rfl := WriterPhase.merging.inj htx
    exact (MergeTx.executed_of_exec (h.frame _ hphase) hexec).2.2
  | _ => cases htx

/-- What processing an entry does to a bucket and to its credit. -/
theorem processEntry_val (h : WriterInv serde start st) (hfit : st.CountsFit serde start)
    {entry : StreamId} {batch : List StreamId} (hphase : st.phase = .processing (entry :: batch))
    (b : Bucket) : ∃ n, 0 ≤ n ∧
      (Kurl.processEntry serde st.redis entry).buckets.val b = st.redis.buckets.val b + n ∧
      ackedCount serde (Kurl.processEntry serde st.redis entry) st.log b =
        ackedCount serde st.redis st.log b + n := by
  by_cases hpend : entry.id ∈ st.redis.pel
  · have hroom := fun b (_ : entryHits serde entry b = true) => h.hasRoom hfit b
    obtain ⟨-, -, -, -, hbuckets, -⟩ := processEntry_of_mem serde hpend hroom
    refine ⟨if entryHits serde entry b then 1 else 0, by split <;> omega, hbuckets b, ?_⟩
    exact ackedCount_processEntry serde h.stream (h.head_mem hphase hpend) hpend hroom b
  · rw [processEntry_of_notMem serde hpend]
    exact ⟨0, le_refl _, by rw [add_zero], by rw [add_zero]⟩

/-- **The counts after a step** are within the credit after it. -/
theorem within_step (h : WriterInv serde start st) (hfit : st.CountsFit serde start)
    (hstep : st.Step serde a st') {b : Bucket} {v : Int} (hv : st'.Holds b v) :
    0 ≤ v ∧ v ≤ start b + st'.creditable serde b := by
  have hval := h.val_le hfit b
  -- a count held before, or zero
  have hold : ∀ {c : Int}, st.creditable serde b ≤ c → (v = 0 ∨ st.Holds b v) →
      0 ≤ v ∧ v ≤ start b + c := by
    intro c hle hv
    rcases hv with rfl | hv
    · omega
    · have hbound := h.within b v hv
      omega
  -- a step that processes no entry: the counts are the old ones and the credit stays, or moves
  -- from the acknowledged entries to the lost ones
  by_cases hproc : ∀ reached, a ≠ .processEntry reached
  · have hheld := hstep.holds h.frame hproc hv
    by_cases hlose : a = .loseData
    · subst hlose
      cases hstep with
      | drop ha _ => exact absurd ha id
      | loseData => exact hold (st.creditable_loseData b) hheld
    · rw [hstep.creditable h.stream hproc hlose]
      exact hold (le_refl _) hheld
  · cases hstep with
    | processEntry entry batch reached hphase =>
      cases reached with
      | false =>
        -- the script did not run: neither a count nor the acknowledgement
        refine hold (le_refl _) (Or.inr ?_)
        cases hv with
        | redis hv => exact .redis hv
        | pg hv => exact .pg hv
        | phase hv => exact absurd hv id
      | true =>
        -- the script ran: its bucket and its credit both grow by `n`
        obtain ⟨n, hn, hnew, hacked⟩ := h.processEntry_val hfit hphase b
        have hcredit : WriterState.creditable serde { st with
            redis := Kurl.processEntry serde st.redis entry, phase := .processing batch } b =
            st.creditable serde b + n := by
          show _ + ackedCount serde (Kurl.processEntry serde st.redis entry) st.log b = _
          rw [hacked, ← add_assoc]
          rfl
        have hbound : 0 ≤ v ∧ v ≤ start b + (st.creditable serde b + n) := by
          cases hv with
          | redis hv =>
            change (Kurl.processEntry serde st.redis entry).buckets.get b = some v at hv
            rw [← Table.val_of_get hv, hnew]
            omega
          | pg hv => exact hold (by omega) (Or.inr (.pg hv))
          | phase hv => exact absurd hv id
        rw [← hcredit] at hbound
        exact hbound
    | drop ha _ => exact absurd (fun reached heq => by rw [heq] at ha; exact ha) hproc
    | _ => exact absurd (fun reached heq => by cases heq) hproc

/-- **Step lemma.** The parts are the counts (`within_step`), the stream, the batch and the frame of
a running merge, each with the others as it needs them. -/
theorem step (h : WriterInv serde start st) (hfit : st.CountsFit serde start)
    (hstep : st.Step serde a st') : WriterInv serde start st' where
  stream := h.stream_step hfit hstep
  batch := fun _ hbatch => h.batch_step hstep hbatch
  frame := fun _ htx => h.frame_step hstep htx
  within := fun _ _ hv => h.within_step hfit hstep hv

end WriterInv

/-- Entries are only added. -/
theorem WriterState.Step.countWhere_le (hstep : st.Step serde a st') (p : StreamId → Bool) :
    countWhere (st.lost ++ st.log) p ≤ countWhere (st'.lost ++ st'.log) p := by
  cases hstep with
  | append entry hadd =>
    show countWhere (st.lost ++ st.log) p ≤ countWhere (st.lost ++ (st.log ++ [entry])) p
    rw [← List.append_assoc, countWhere_append _ [entry]]
    have hnonneg := countWhere_nonneg [entry] p
    omega
  | loseData =>
    show countWhere (st.lost ++ st.log) p ≤ countWhere (st.lost ++ st.log ++ []) p
    rw [List.append_nil]
  | _ => exact le_refl _

theorem WriterState.CountsFit.of_step {start : Bucket → Int} (h : st'.CountsFit serde start)
    (hstep : st.Step serde a st') : st.CountsFit serde start := by
  intro b
  have hle : st.appended serde b ≤ st'.appended serde b := hstep.countWhere_le _
  have hbound := h b
  omega

end Steps

/-- **Run lemma.** Entries are only added, so the bound on their number is asked of the last state.
-/
theorem writer_inv {serde : SerdeJson} {start : Bucket → Int} {st st' : WriterState}
    {as : List WriterAction} (hrun : (writer serde).run st as = some st')
    (hinit : WriterInv serde start st) (hfit : st'.CountsFit serde start) :
    WriterInv serde start st' := by
  have hinv : st'.CountsFit serde start → WriterInv serde start st' := by
    apply (writer serde).run_invariant (I := fun st => st.CountsFit serde start →
      WriterInv serde start st) _ hrun (fun _ => hinit)
    intro s a s' hs hstep hfit'
    have hstep := WriterState.Step.of_step hstep
    have hfit := hfit'.of_step hstep
    exact (hs hfit).step hfit hstep
  exact hinv hfit

/-- Nothing is stored yet. -/
theorem WriterInv.init (serde : SerdeJson) : WriterInv serde (fun _ => 0) WriterState.init where
  stream := StreamInv.empty
  batch := fun _ hbatch => by cases hbatch
  frame := fun _ htx => by cases htx
  within := by
    intro b v hv
    cases hv with
    | redis hv => cases hv
    | pg hv => cases b <;> cases hv
    | phase hv => exact absurd hv id

/-- **No over-count.** Whatever is appended, delivered, recorded, flushed, lost, created and
deleted, a count in the tables is at most the number of entries ever appended for it. -/
theorem count_le_appended {serde : SerdeJson} {st : WriterState} {as : List WriterAction}
    (hrun : (writer serde).run .init as = some st)
    (hfit : ∀ b, st.appended serde b < 2 ^ 53) (b : Bucket) :
    st.pg.count b ≤ st.appended serde b := by
  have hfit : st.CountsFit serde fun _ => 0 := fun b => ⟨le_refl _, by rw [zero_add]; exact hfit b⟩
  have hinv := writer_inv hrun (WriterInv.init serde) hfit
  have hle := st.creditable_le_appended serde b
  unfold Postgres.count
  cases hrow : st.pg.row b with
  | none => exact countWhere_nonneg _ _
  | some v =>
    have hbound := hinv.within b v (.pg hrow)
    show v ≤ st.appended serde b
    omega

end Kurl
