import Kurl.Analytics.Snapshot
import Kurl.Postgres

/-!
# Kurl — merging a snapshot into Postgres (`analytics/src/db/pg_snapshot_repo.rs`)

`mergeSnapshot` is the function of the source run on its own: read, compute, write, for the global
part and then for the links part. `MergeTx` is the same transaction cut at its statements, for the
runs in which something else commits between two of them; it carries the rows it wrote and the locks
it holds, and `finish_eq_mergeSnapshot` says that with nothing in between it computes what
`mergeSnapshot` computes.

Both parts of the merge are one computation on a hash map of incoming counts and a table of existing
ones (`committedRows`, `mergeDeltas`). The sums are those of an `i64` in a release build
(`addWrapping`), and an upsert of no rows, or an update by a delta that is not positive, does not
run at all: `MergeStage` has the next statement, so these are stages that are left out.

A `SELECT .. FOR UPDATE` reads what is visible when it begins and then waits for the locks of the
rows it found, so it is two stages. `Locks` are the rows a transaction has locked so far; `conflict`
decides whether another one has to wait.
-/

namespace Kurl

open Lib

/-! ## Rows and deltas -/

section Rows

variable {κ : Type} [DecidableEq κ]

/-- The counts to upsert: for every incoming count the larger of it and the existing one. -/
def committedRows (incoming : HashMap κ Int) (existing : Table κ Int) : List (κ × Int) :=
  incoming.entries.map fun e => (e.1, (calculateMergeDelta (existing.val e.1) e.2).1)

/-- By how much each committed count exceeds the existing one. -/
def mergeDeltas (incoming : HashMap κ Int) (existing : Table κ Int) : List (κ × Int) :=
  incoming.entries.map fun e => (e.1, (calculateMergeDelta (existing.val e.1) e.2).2)

omit [DecidableEq κ] in
theorem keys_committedRows (incoming : HashMap κ Int) (existing : Table κ Int) :
    (committedRows incoming existing).map Prod.fst = incoming.keys := by
  simp [committedRows, HashMap.keys]

omit [DecidableEq κ] in
theorem nodup_committedRows (incoming : HashMap κ Int) (existing : Table κ Int) :
    ((committedRows incoming existing).map Prod.fst).Nodup := by
  rw [keys_committedRows]
  exact incoming.nodup_keys

/-- The committed counts, as the hash map reported in the outcome. -/
def committedMap (incoming : HashMap κ Int) (existing : Table κ Int) : HashMap κ Int :=
  ⟨committedRows incoming existing, nodup_committedRows incoming existing⟩

omit [DecidableEq κ] in
theorem committedMap_isEmpty {incoming : HashMap κ Int} (h : incoming.isEmpty = true)
    (existing : Table κ Int) : committedMap incoming existing = HashMap.empty := by
  rw [HashMap.eq_empty h]
  rfl

end Rows

namespace RedisSnapshot

/-- `total_global_delta`, accumulated without overflow checks. -/
def totalGlobalDelta (s : RedisSnapshot) (existing : Table NaiveDate Int) : Int :=
  ((mergeDeltas s.globalDaily existing).map Prod.snd).foldl addWrapping 0

/-- `outcome.link_deltas`, accumulated without overflow checks. -/
def linkDeltas (s : RedisSnapshot) (existing : Table (String × NaiveDate) Int) :
    HashMap String Int :=
  HashMap.accumulate ((mergeDeltas s.linkDaily existing).map fun e => (e.1.1, e.2))

/-- The arrays `delta_codes`, `delta_counts` and `delta_timestamps`. -/
def deltaRows (s : RedisSnapshot) (linkDeltas : HashMap String Int) :
    List (String × Postgres.LinkDelta) :=
  (linkDeltas.entries.filter fun e => 0 < e.2 ∨ s.lastClickedAt.containsKey e.1).map
      (fun e => (e.1, ⟨max e.2 0, (s.lastClickedAt.get e.1).getD DateTime.unixEpoch⟩)) ++
    (s.lastClickedAt.entries.filter fun e => !linkDeltas.containsKey e.1).map
      fun e => (e.1, ⟨0, e.2⟩)

end RedisSnapshot

/-! ## The merge on its own -/

/-- The first half of `merge_snapshot`: `global_daily_clicks` and `analytics_global`. -/
def mergeGlobal (pg : Postgres) (s : RedisSnapshot) (outcome : MergeOutcome) :
    Except DbError (Postgres × MergeOutcome) :=
  if s.globalDaily.isEmpty then .ok (pg, outcome) else do
    let existing := pg.selectGlobal s.globalDaily.keys
    let rows ← pg.upsertGlobal (committedRows s.globalDaily existing)
    let pg := pg.overlay rows
    let delta := s.totalGlobalDelta existing
    let pg ← if delta > 0 then pg.overlay <$> pg.updateTotal delta else .ok pg
    return (pg, { outcome with
      committedGlobal := committedMap s.globalDaily existing
      globalDelta := delta })

/-- The second half: `link_daily_clicks` and `links`. -/
def mergeLinks (pg : Postgres) (s : RedisSnapshot) (outcome : MergeOutcome) :
    Except DbError (Postgres × MergeOutcome) :=
  if s.linkDaily.isEmpty then .ok (pg, outcome) else do
    let existing := pg.selectLinks s.linkDaily.keys
    let rows ← pg.upsertLinks (committedRows s.linkDaily existing)
    let pg := pg.overlay rows
    let deltas := s.deltaRows (s.linkDeltas existing)
    let pg ← if deltas.isEmpty then .ok pg else pg.overlay <$> pg.updateLinks deltas
    return (pg, { outcome with
      committedLinks := committedMap s.linkDaily existing
      linkDeltas := s.linkDeltas existing })

/-- `SnapshotRepoPg::merge_snapshot`. An error rolls the transaction back. -/
def mergeSnapshot (pg : Postgres) (s : RedisSnapshot) :
    Except DbError (Postgres × MergeOutcome) :=
  if s.globalDaily.isEmpty && s.linkDaily.isEmpty then .ok (pg, MergeOutcome.default) else do
    let (pg, outcome) ← mergeGlobal pg s MergeOutcome.default
    mergeLinks pg s outcome

/-! ## The merge, statement by statement -/

/-- Row locks. `keyShare` is the lock a foreign key takes on the referenced row of `links`:
it keeps the row from being deleted and nothing else. -/
structure Locks where
  globalDays : List NaiveDate
  total : Bool
  linkDays : List (String × NaiveDate)
  links : List String
  keyShare : List String

namespace Locks

def none : Locks := ⟨[], false, [], [], []⟩

def union (a b : Locks) : Locks :=
  ⟨a.globalDays ++ b.globalDays, a.total || b.total, a.linkDays ++ b.linkDays,
    a.links ++ b.links, a.keyShare ++ b.keyShare⟩

/-- The locks two transactions cannot hold at once. -/
def conflict (a b : Locks) : Bool :=
  a.globalDays.any (fun d => d ∈ b.globalDays) || (a.total && b.total) ||
    a.linkDays.any (fun k => k ∈ b.linkDays) || a.links.any (fun c => c ∈ b.links)

/-- The locks a `delete from links` of the code, with its cascade, has to wait for. -/
def blocksDelete (a : Locks) (shortCode : String) : Bool :=
  shortCode ∈ a.links || shortCode ∈ a.keyShare || a.linkDays.any (fun k => k.1 = shortCode)

end Locks

/-- The statement a merge is at, with the local variables it needs. A `select .. for update`
has two points: `lock..` holds the keys that were visible when it started, and it reads
their rows once it has locked them. -/
inductive MergeStage where
  | selectGlobal
  | lockGlobal (visible : List NaiveDate)
  | upsertGlobal (existing : Table NaiveDate Int)
  | updateTotal (delta : Int)
  | selectLinks
  | lockLinks (visible : List (String × NaiveDate))
  | upsertLinks (existing : Table (String × NaiveDate) Int)
  | updateLinks (deltas : List (String × Postgres.LinkDelta))
  | commit

/-- A running transaction: the snapshot it merges, its next statement, the rows it has written, the
locks it holds and the outcome so far. -/
structure MergeTx where
  snapshot : RedisSnapshot
  stage : MergeStage
  writes : Writes
  locks : Locks
  outcome : MergeOutcome

namespace MergeTx

/-- The stage after the global part. -/
def linksStage (s : RedisSnapshot) : MergeStage :=
  if s.linkDaily.isEmpty then .commit else .selectLinks

/-- `pool.begin()`. -/
def begin (s : RedisSnapshot) : MergeTx where
  snapshot := s
  stage := if s.globalDaily.isEmpty then linksStage s else .selectGlobal
  writes := Writes.empty
  locks := Locks.none
  outcome := MergeOutcome.default

/-- What the transaction sees under READ COMMITTED: the committed rows of this moment and
its own. -/
def view (pg : Postgres) (tx : MergeTx) : Postgres := pg.overlay tx.writes

@[simp] theorem view_begin (pg : Postgres) (s : RedisSnapshot) : (begin s).view pg = pg :=
  Postgres.overlay_empty pg

/-- A merge begins with the global part, unless there is none. -/
theorem stage_begin (s : RedisSnapshot) :
    (begin s).stage = .selectGlobal ∨ (begin s).stage = linksStage s := by
  by_cases hglobal : s.globalDaily.isEmpty = true
  · exact .inr (if_pos hglobal)
  · exact .inl (if_neg hglobal)

/-- The locks the next statement takes. It waits while another transaction holds one of
them. -/
def needs (pg : Postgres) (tx : MergeTx) : Locks :=
  match tx.stage with
  | .lockGlobal visible => { Locks.none with globalDays := visible }
  | .upsertGlobal _ => { Locks.none with globalDays := tx.snapshot.globalDaily.keys }
  | .updateTotal _ => { Locks.none with total := true }
  | .lockLinks visible => { Locks.none with linkDays := visible }
  | .upsertLinks _ =>
    let keys := tx.snapshot.linkDaily.keys.filter (fun k => (tx.view pg).linkExists k.1)
    { Locks.none with linkDays := keys, keyShare := keys.map Prod.fst }
  | .updateLinks deltas =>
    { Locks.none with
      links := (deltas.map Prod.fst).filter (fun code => (tx.view pg).linkExists code) }
  | _ => Locks.none

/-- The transaction after a statement: the rows it wrote and the locks it took. -/
def advance (pg : Postgres) (tx : MergeTx) (rows : Writes) (stage : MergeStage)
    (outcome : MergeOutcome) : MergeTx where
  snapshot := tx.snapshot
  stage := stage
  writes := tx.writes.overlay rows
  locks := tx.locks.union (tx.needs pg)
  outcome := outcome

/-- Execute the next statement. -/
def exec (pg : Postgres) (tx : MergeTx) : Except DbError MergeTx :=
  match tx.stage with
  | .selectGlobal =>
    let visible := tx.snapshot.globalDaily.keys.filter fun d =>
      d ∈ (tx.view pg).globalDailyClicks.keys
    .ok (tx.advance pg Writes.empty (.lockGlobal visible) tx.outcome)
  | .lockGlobal visible =>
    .ok (tx.advance pg Writes.empty (.upsertGlobal ((tx.view pg).selectGlobal visible)) tx.outcome)
  | .upsertGlobal existing => do
    let rows ← (tx.view pg).upsertGlobal (committedRows tx.snapshot.globalDaily existing)
    let delta := tx.snapshot.totalGlobalDelta existing
    return tx.advance pg rows
      (if delta > 0 then .updateTotal delta else linksStage tx.snapshot)
      { tx.outcome with
        committedGlobal := committedMap tx.snapshot.globalDaily existing
        globalDelta := delta }
  | .updateTotal delta => do
    let rows ← (tx.view pg).updateTotal delta
    return tx.advance pg rows (linksStage tx.snapshot) tx.outcome
  | .selectLinks =>
    let visible := tx.snapshot.linkDaily.keys.filter fun k =>
      k ∈ (tx.view pg).linkDailyClicks.keys
    .ok (tx.advance pg Writes.empty (.lockLinks visible) tx.outcome)
  | .lockLinks visible =>
    .ok (tx.advance pg Writes.empty (.upsertLinks ((tx.view pg).selectLinks visible)) tx.outcome)
  | .upsertLinks existing => do
    let rows ← (tx.view pg).upsertLinks (committedRows tx.snapshot.linkDaily existing)
    let deltas := tx.snapshot.deltaRows (tx.snapshot.linkDeltas existing)
    return tx.advance pg rows (if deltas.isEmpty then .commit else .updateLinks deltas)
      { tx.outcome with
        committedLinks := committedMap tx.snapshot.linkDaily existing
        linkDeltas := tx.snapshot.linkDeltas existing }
  | .updateLinks deltas => do
    let rows ← (tx.view pg).updateLinks deltas
    return tx.advance pg rows .commit tx.outcome
  | .commit => .ok tx

/-- Execute statements until the commit. A merge has at most eight. -/
def finish (pg : Postgres) : Nat → MergeTx → Except DbError MergeTx
  | 0, tx => .ok tx
  | n + 1, tx => do finish pg n (← tx.exec pg)

@[simp] theorem view_advance (pg pg' : Postgres) (tx : MergeTx) (rows : Writes)
    (stage : MergeStage) (outcome : MergeOutcome) :
    (tx.advance pg' rows stage outcome).view pg = (tx.view pg).overlay rows :=
  Postgres.overlay_overlay pg tx.writes rows

@[simp] theorem stage_advance (pg : Postgres) (tx : MergeTx) (rows : Writes)
    (stage : MergeStage) (outcome : MergeOutcome) :
    (tx.advance pg rows stage outcome).stage = stage := rfl

@[simp] theorem snapshot_advance (pg : Postgres) (tx : MergeTx) (rows : Writes)
    (stage : MergeStage) (outcome : MergeOutcome) :
    (tx.advance pg rows stage outcome).snapshot = tx.snapshot := rfl

@[simp] theorem outcome_advance (pg : Postgres) (tx : MergeTx) (rows : Writes)
    (stage : MergeStage) (outcome : MergeOutcome) :
    (tx.advance pg rows stage outcome).outcome = outcome := rfl

@[simp] theorem snapshot_begin (s : RedisSnapshot) : (begin s).snapshot = s := rfl

@[simp] theorem outcome_begin (s : RedisSnapshot) : (begin s).outcome = MergeOutcome.default := rfl

theorem finish_succ (pg : Postgres) (n : Nat) (tx : MergeTx) :
    finish pg (n + 1) tx = (tx.exec pg).bind (finish pg n) := rfl

theorem finish_commit (pg : Postgres) (n : Nat) {tx : MergeTx} (h : tx.stage = .commit) :
    finish pg n tx = .ok tx := by
  induction n with
  | zero => rfl
  | succ n ih =>
    have hexec : tx.exec pg = .ok tx := by simp only [exec, h]
    rw [finish_succ, hexec]
    exact ih

/-- A select sees nothing beyond the rows that are there. -/
theorem selectGlobal_visible (pg : Postgres) (dates : List NaiveDate) :
    pg.selectGlobal (dates.filter fun d => d ∈ pg.globalDailyClicks.keys) =
      pg.selectGlobal dates := by
  ext1 d
  simp only [Postgres.selectGlobal, Table.get_filter]
  by_cases hd : d ∈ pg.globalDailyClicks.keys
  · simp [hd]
  · simp [Table.get_eq_none_iff.mpr hd]

theorem selectLinks_visible (pg : Postgres) (keys : List (String × NaiveDate)) :
    pg.selectLinks (keys.filter fun k => k ∈ pg.linkDailyClicks.keys) = pg.selectLinks keys := by
  ext1 k
  simp only [Postgres.selectLinks, Table.get_filter]
  by_cases hk : k ∈ pg.linkDailyClicks.keys
  · simp [hk]
  · simp [Table.get_eq_none_iff.mpr hk]

/-! ### One lemma per statement -/

section Stages

variable {pg : Postgres} {tx : MergeTx}

theorem exec_selectGlobal (pg : Postgres) (h : tx.stage = .selectGlobal) :
    ∃ visible, (tx.view pg).selectGlobal visible =
        (tx.view pg).selectGlobal tx.snapshot.globalDaily.keys ∧
      tx.exec pg = .ok (tx.advance pg Writes.empty (.lockGlobal visible) tx.outcome) :=
  ⟨_, selectGlobal_visible _ _, by simp only [exec, h]⟩

theorem exec_lockGlobal {visible : List NaiveDate} (h : tx.stage = .lockGlobal visible) :
    tx.exec pg = .ok (tx.advance pg Writes.empty
      (.upsertGlobal ((tx.view pg).selectGlobal visible)) tx.outcome) := by
  simp only [exec, h]

theorem exec_upsertGlobal {existing : Table NaiveDate Int} (h : tx.stage = .upsertGlobal existing) :
    tx.exec pg =
      ((tx.view pg).upsertGlobal (committedRows tx.snapshot.globalDaily existing)).map fun rows =>
        tx.advance pg rows
          (if tx.snapshot.totalGlobalDelta existing > 0 then
            .updateTotal (tx.snapshot.totalGlobalDelta existing) else linksStage tx.snapshot)
          { tx.outcome with
            committedGlobal := committedMap tx.snapshot.globalDaily existing
            globalDelta := tx.snapshot.totalGlobalDelta existing } := by
  simp only [exec, h]
  cases (tx.view pg).upsertGlobal (committedRows tx.snapshot.globalDaily existing) <;> rfl

theorem exec_updateTotal {delta : Int} (h : tx.stage = .updateTotal delta) :
    tx.exec pg = ((tx.view pg).updateTotal delta).map fun rows =>
      tx.advance pg rows (linksStage tx.snapshot) tx.outcome := by
  simp only [exec, h]
  cases (tx.view pg).updateTotal delta <;> rfl

theorem exec_selectLinks (pg : Postgres) (h : tx.stage = .selectLinks) :
    ∃ visible, (tx.view pg).selectLinks visible =
        (tx.view pg).selectLinks tx.snapshot.linkDaily.keys ∧
      tx.exec pg = .ok (tx.advance pg Writes.empty (.lockLinks visible) tx.outcome) :=
  ⟨_, selectLinks_visible _ _, by simp only [exec, h]⟩

theorem exec_lockLinks {visible : List (String × NaiveDate)} (h : tx.stage = .lockLinks visible) :
    tx.exec pg = .ok (tx.advance pg Writes.empty
      (.upsertLinks ((tx.view pg).selectLinks visible)) tx.outcome) := by
  simp only [exec, h]

theorem exec_upsertLinks {existing : Table (String × NaiveDate) Int}
    (h : tx.stage = .upsertLinks existing) :
    tx.exec pg =
      ((tx.view pg).upsertLinks (committedRows tx.snapshot.linkDaily existing)).map fun rows =>
        tx.advance pg rows
          (if (tx.snapshot.deltaRows (tx.snapshot.linkDeltas existing)).isEmpty then .commit
            else .updateLinks (tx.snapshot.deltaRows (tx.snapshot.linkDeltas existing)))
          { tx.outcome with
            committedLinks := committedMap tx.snapshot.linkDaily existing
            linkDeltas := tx.snapshot.linkDeltas existing } := by
  simp only [exec, h]
  cases (tx.view pg).upsertLinks (committedRows tx.snapshot.linkDaily existing) <;> rfl

theorem exec_updateLinks {deltas : List (String × Postgres.LinkDelta)}
    (h : tx.stage = .updateLinks deltas) :
    tx.exec pg = ((tx.view pg).updateLinks deltas).map fun rows =>
      tx.advance pg rows .commit tx.outcome := by
  simp only [exec, h]
  cases (tx.view pg).updateLinks deltas <;> rfl

end Stages

/-! ### Nothing in between -/

theorem ok_bind {ε α β : Type} (a : α) (f : α → Except ε β) : (Except.ok a >>= f) = f a := rfl

theorem map_ok {ε α β : Type} (f : α → β) (a : α) :
    (f <$> (Except.ok a : Except ε α)) = Except.ok (f a) := rfl

/-- What a finished transaction leaves: the tables after its commit, and its outcome. -/
def result (pg : Postgres) (tx : MergeTx) : Postgres × MergeOutcome := (tx.view pg, tx.outcome)

theorem finish_of_exec {pg : Postgres} {tx tx' : MergeTx} (h : tx.exec pg = .ok tx') (n : Nat) :
    finish pg (n + 1) tx = finish pg n tx' := by
  rw [finish_succ, h]
  rfl

/-- The links part, with at least four statements to go. -/
theorem finish_linksStage (pg : Postgres) (n : Nat) {tx : MergeTx}
    (h : tx.stage = linksStage tx.snapshot) :
    (finish pg (n + 4) tx).map (result pg) =
      mergeLinks (tx.view pg) tx.snapshot tx.outcome := by
  unfold linksStage at h
  unfold mergeLinks
  by_cases hempty : tx.snapshot.linkDaily.isEmpty = true
  · rw [if_pos hempty] at h
    rw [if_pos hempty, finish_commit pg _ h]
    rfl
  · rw [if_neg hempty] at h
    rw [if_neg hempty]
    obtain ⟨visible, hvisible, hselect⟩ := exec_selectLinks pg h
    rw [finish_of_exec hselect, finish_of_exec (exec_lockLinks (stage_advance ..)), finish_succ,
      exec_upsertLinks (stage_advance ..)]
    simp only [view_advance, snapshot_advance, outcome_advance, Postgres.overlay_empty, hvisible]
    set view := tx.view pg with hview
    set existing := view.selectLinks tx.snapshot.linkDaily.keys
    cases view.upsertLinks (committedRows tx.snapshot.linkDaily existing) with
    | error e => rfl
    | ok rows =>
      simp only [ok_bind, Except.map, Except.bind]
      by_cases hdeltas : (tx.snapshot.deltaRows (tx.snapshot.linkDeltas existing)).isEmpty = true
      · -- no link to update: the last statement is left out
        simp only [hdeltas, if_true]
        rw [finish_commit pg _ (stage_advance ..)]
        simp [result, hview, pure, Except.pure]
      · simp only [hdeltas, Bool.false_eq_true, if_false]
        rw [finish_succ, exec_updateLinks (stage_advance ..)]
        simp only [view_advance, Postgres.overlay_empty, ← hview, outcome_advance]
        cases (view.overlay rows).updateLinks
            (tx.snapshot.deltaRows (tx.snapshot.linkDeltas existing)) with
        | error e => rfl
        | ok rows' =>
          simp only [Except.map, Except.bind, map_ok, ok_bind]
          rw [finish_commit pg _ (stage_advance ..)]
          simp [result, ← hview, pure, Except.pure]

/-- **Nothing in between.** The transaction run alone is `mergeSnapshot`. -/
theorem finish_eq_mergeSnapshot (pg : Postgres) (s : RedisSnapshot) :
    (finish pg 8 (begin s)).map (result pg) = mergeSnapshot pg s := by
  unfold mergeSnapshot mergeGlobal
  by_cases hempty : s.globalDaily.isEmpty = true
  · -- no global statement runs
    have hstage : (begin s).stage = linksStage (begin s).snapshot := if_pos hempty
    rw [finish_linksStage pg 4 hstage, view_begin]
    by_cases hlinks : s.linkDaily.isEmpty = true
    · simp [mergeLinks, begin, hempty, hlinks]
    · simp only [hempty, hlinks, Bool.true_and, Bool.false_eq_true, if_true, if_false]
      rfl
  · have hstage : (begin s).stage = .selectGlobal := if_neg hempty
    obtain ⟨visible, hvisible, hselect⟩ := exec_selectGlobal pg hstage
    rw [view_begin] at hvisible
    rw [finish_of_exec hselect, finish_of_exec (exec_lockGlobal (stage_advance ..)), finish_succ,
      exec_upsertGlobal (stage_advance ..)]
    simp only [view_advance, snapshot_advance, outcome_advance, Postgres.overlay_empty, view_begin,
      hvisible, snapshot_begin, outcome_begin, hempty, Bool.false_and, Bool.false_eq_true, if_false]
    set existing := pg.selectGlobal s.globalDaily.keys
    cases pg.upsertGlobal (committedRows s.globalDaily existing) with
    | error e => rfl
    | ok rows =>
      simp only [ok_bind]
      by_cases hdelta : s.totalGlobalDelta existing > 0
      · -- the total is updated before the links part
        simp only [hdelta, if_true]
        show Except.map (result pg) (finish pg 5 _) = _
        rw [finish_succ, exec_updateTotal (stage_advance ..)]
        simp only [view_advance, Postgres.overlay_empty, view_begin, outcome_advance]
        cases (pg.overlay rows).updateTotal (s.totalGlobalDelta existing) with
        | error e => rfl
        | ok rows' =>
          show Except.map (result pg) (finish pg 4 _) = _
          rw [finish_linksStage pg 0 (stage_advance ..)]
          simp [pure, Except.pure, ok_bind]
      · simp only [hdelta, if_false]
        show Except.map (result pg) (finish pg 5 _) = _
        rw [finish_linksStage pg 1 (stage_advance ..)]
        simp [pure, Except.pure, ok_bind]

end MergeTx

end Kurl
