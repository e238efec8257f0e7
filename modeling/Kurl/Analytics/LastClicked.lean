import Kurl.Analytics.LinkAccount

/-!
# Kurl — the last clicks over the writer's runs

A value of `last_clicked_at` is a click's, in milliseconds, on its way from the stream through the
last-click key of Redis and a snapshot to `links`: at each place there is an appended click on the
code that is not after it (`ClickedBy`).

One value is not a click's: a merge that has a delta and no timestamp of a code writes the Unix
epoch. `RECORD_CLICK` leaves the last-click key out only while no click on the code is after the
epoch (`LastClick`), so then too the code has a click that is not after what is written.

`ClickInv` says so of each of these places, and its step lemma follows the value: `LastClick` from
the script, `RedisSnapshot.Assembles.clicked` into a snapshot, `Executed.clicked` into a row. The
runs are those in which Redis keeps its data: a click that was lost with the stream could not be
named.
-/

namespace Kurl

open Lib

/-- A click on the code has been appended whose millisecond is not after `t`. -/
def ClickedBy (serde : SerdeJson) (log : List StreamId) (code : String) (t : DateTime) : Prop :=
  ∃ e ∈ log, ∃ event, parseClickEvent serde e = some event ∧ event.shortCode = code ∧
    event.atTime.timestampMillis * 1000000 ≤ t.nanos

/-- The timestamps of a snapshot are clicks'. Where a code with clicks has none, the epoch will
do. -/
structure RedisSnapshot.Clicked (serde : SerdeJson) (log : List StreamId) (s : RedisSnapshot) :
    Prop where
  present : ∀ c t, s.lastClickedAt.get c = some t → ClickedBy serde log c t
  absent : ∀ c, ¬ s.NoClicks c → s.lastClickedAt.get c = none →
    ClickedBy serde log c DateTime.unixEpoch

/-- The last clicks of the rows are clicks'. -/
def Postgres.Clicked (serde : SerdeJson) (log : List StreamId) (pg : Postgres) : Prop :=
  ∀ c row t, pg.links.get c = some row → row.lastClickedAt = some t → ClickedBy serde log c t

/-- While Redis keeps its data. -/
structure ClickInv (serde : SerdeJson) (st : WriterState) : Prop where
  lost : st.lost = []
  lastClick : ∀ c, LastClick (ackedTimestamps serde st.redis st.log c)
    (st.redis.lastClickedAt.get c)
  rows : st.pg.Clicked serde st.log
  snapshot : ∀ tx, st.phase = .merging tx → tx.snapshot.Clicked serde st.log
  seen : ∀ tx, st.phase = .merging tx → (tx.view st.pg).Clicked serde st.log

section Clicked

variable {serde : SerdeJson} {log log' : List StreamId} {s : RedisSnapshot} {pg pg' : Postgres}

theorem ClickedBy.mono {code : String} {t : DateTime} (h : ClickedBy serde log code t)
    (hsub : log ⊆ log') : ClickedBy serde log' code t := by
  obtain ⟨e, he, hclick⟩ := h
  exact ⟨e, hsub he, hclick⟩

theorem RedisSnapshot.Clicked.mono (h : s.Clicked serde log) (hsub : log ⊆ log') :
    s.Clicked serde log' where
  present c t ht := (h.present c t ht).mono hsub
  absent c hc hnone := (h.absent c hc hnone).mono hsub

theorem Postgres.Clicked.mono (h : pg.Clicked serde log) (hsub : log ⊆ log') :
    pg.Clicked serde log' :=
  fun c row t hrow ht => (h c row t hrow ht).mono hsub

/-! ## From Redis to a snapshot -/

/-- What the last-click key holds, and what its absence says. -/
theorem clickedBy_of_lastClick {r : Redis} {code : String}
    (h : LastClick (ackedTimestamps serde r log code) (r.lastClickedAt.get code)) {ms : Int}
    (hms : r.lastClickedAt.get code = some ms) :
    ∃ t, DateTime.timestampMillisOpt ms = some t ∧ ClickedBy serde log code t := by
  rw [hms] at h
  obtain ⟨e, he, -, event, hparse, hcode, rfl⟩ := h.1.1
  obtain ⟨t, ht⟩ := Option.isSome_iff_exists.mp event.atTime.isSome_timestampMillisOpt
  exact ⟨t, ht, e, he, event, hparse, hcode, (DateTime.nanos_of_timestampMillisOpt ht).ge⟩

/-- **A snapshot as it is assembled**, from counts of acknowledged clicks. -/
theorem RedisSnapshot.Assembles.clicked {counts : Table Bucket Int} {r : Redis}
    {cutoff : NaiveDate} (hs : s.Assembles counts r cutoff)
    (hlast : ∀ c, LastClick (ackedTimestamps serde r log c) (r.lastClickedAt.get c))
    (hcounts : ∀ b n, counts.get b = some n → 0 ≤ n ∧ n ≤ ackedCount serde r log b) :
    s.Clicked serde log := by
  refine ⟨fun c t ht => ?_, fun c hclicks hnone => ?_⟩
  · rw [hs.get_lastClickedAt] at ht
    split at ht
    · -- the key holds milliseconds of a click, and so does the timestamp made of it
      obtain ⟨ms, hms, hopt⟩ := Option.bind_eq_some_iff.mp ht
      obtain ⟨t', ht', hclicked⟩ := clickedBy_of_lastClick (hlast c) hms
      rwa [Option.some.inj (hopt.symm.trans ht')]
    · cases ht
  · -- a bucket of the code holds a count, and so there is an acknowledged click
    unfold NoClicks at hclicks
    push Not at hclicks
    obtain ⟨⟨⟨c', d⟩, n⟩, he, rfl, hn⟩ := hclicks
    have hcode : s.HasCode c' := ⟨(c', d), HashMap.mem_keys_of_mem he, rfl⟩
    have hget : counts.get (.link c' d) = some n := by
      rw [← hs.get_counts, s.get_counts_link]
      exact (HashMap.get_eq_some_iff _).mpr he
    obtain ⟨hnonneg, hle⟩ := hcounts _ _ hget
    change n ≠ 0 at hn
    have hpos : 0 < ackedCount serde r log (.link c' d) := by omega
    obtain ⟨e, hmem, hboth⟩ := exists_of_countWhere_pos hpos
    obtain ⟨hacked, hhits⟩ := Bool.and_eq_true_iff.mp hboth
    obtain ⟨event, hparse, hcode'⟩ := clickOn_iff.mp (clickOn_of_entryHits hhits)
    have hts : event.atTime.timestampMillis ∈ ackedTimestamps serde r log c' :=
      ⟨e, hmem, of_decide_eq_true hacked, event, hparse, hcode', rfl⟩
    cases hms : r.lastClickedAt.get c' with
    | none =>
      have hepoch := hlast c'
      rw [hms] at hepoch
      have hle := hepoch _ hts
      refine ⟨e, hmem, event, hparse, hcode', ?_⟩
      show event.atTime.timestampMillis * 1000000 ≤ 0
      omega
    | some ms =>
      obtain ⟨t, ht, -⟩ := clickedBy_of_lastClick (hlast c') hms
      rw [hs.get_lastClickedAt, if_pos hcode, hms, Option.bind_some, ht] at hnone
      cases hnone

/-! ## From a snapshot to the rows -/

/-- The timestamp of a delta. -/
theorem RedisSnapshot.Clicked.delta (h : s.Clicked serde log)
    {existing : Table (String × NaiveDate) Int} (hex : ∀ k, 0 ≤ existing.val k) {c : String}
    {d : Postgres.LinkDelta} (hd : assoc (s.deltaRows (s.linkDeltas existing)) c = some d) :
    ClickedBy serde log c d.ts := by
  rw [assoc_deltaRows, get_linkDeltas] at hd
  cases hts : s.lastClickedAt.get c with
  | some ts =>
    have hclicked := h.present c ts hts
    rw [hts] at hd
    split at hd <;> exact Option.some.inj hd ▸ hclicked
  | none =>
    rw [hts] at hd
    split at hd
    · change (if 0 < wrapI64 (linkDeltaSum s existing c) then _ else none) = some d at hd
      split at hd
      · next hpos =>
        have hclicks : ¬ s.NoClicks c := fun hno => by
          rw [linkDeltaSum_of_noClicks hno hex] at hpos
          exact absurd hpos (by decide)
        exact Option.some.inj hd ▸ h.absent c hclicks hts
      · cases hd
    · cases hd

/-- **A statement of a merge** writes clicks' timestamps. -/
theorem Executed.clicked {o o' : MergeOutcome} {stage stage' : MergeStage}
    (h : Executed s pg o stage pg' stage' o') (hs : s.Clicked serde log)
    (hstage : StageInv pg s stage) (hpg : pg.Clicked serde log) : pg'.Clicked serde log := by
  cases h with
  | updateLinks deltas =>
    obtain ⟨existing, hex, rfl⟩ := hstage
    intro c row t hrow ht
    change (pg.links.mapRows _).get c = some row at hrow
    rw [Table.get_mapRows] at hrow
    obtain ⟨old, hold, rfl⟩ := Option.map_eq_some_iff.mp hrow
    cases hd : assoc (s.deltaRows (s.linkDeltas existing)) c with
    | none =>
      rw [hd] at ht
      exact hpg c old t hold ht
    | some d =>
      rw [hd] at ht
      change greatest old.lastClickedAt (some d.ts) = some t at ht
      rcases greatest_eq_some ht with hbefore | hnew
      · exact hpg c old t hold hbefore
      · exact Option.some.inj hnew ▸ hs.delta hex hd
  | _ => exact hpg

end Clicked

/-! ## The invariant -/

section Steps

variable {serde : SerdeJson} {st st' : WriterState} {a : WriterAction}

/-- A step that acknowledges nothing and leaves the last-click keys. -/
theorem lastClick_congr {r r' : Redis} {log : List StreamId} {code : String}
    (h : LastClick (ackedTimestamps serde r log code) (r.lastClickedAt.get code))
    (hacked : ∀ e ∈ log, r'.Acked e ↔ r.Acked e) (hkeys : r'.lastClickedAt = r.lastClickedAt) :
    LastClick (ackedTimestamps serde r' log code) (r'.lastClickedAt.get code) := by
  rw [ackedTimestamps_congr serde hacked, hkeys]
  exact h

namespace ClickInv

theorem init (serde : SerdeJson) : ClickInv serde WriterState.init where
  lost := rfl
  lastClick := fun _ _ hts => by
    obtain ⟨e, he, -⟩ := hts
    cases he
  rows := fun _ _ _ hrow => by cases hrow
  snapshot := fun _ htx => by cases htx
  seen := fun _ htx => by cases htx

/-- The keys after a step. -/
theorem lastClick_step (hinv : WriterInv serde (fun _ => 0) st)
    (hfit : st.CountsFit serde fun _ => 0) (h : ClickInv serde st) (hlose : a ≠ .loseData)
    (hstep : st.Step serde a st') (c : String) :
    LastClick (ackedTimestamps serde st'.redis st'.log c) (st'.redis.lastClickedAt.get c) := by
  have hlast := h.lastClick c
  cases hstep with
  | @append entry r hadd =>
    have hkeys : r.lastClickedAt = st.redis.lastClickedAt := by
      obtain ⟨-, rfl⟩ := xadd_cases hadd
      rfl
    show LastClick (ackedTimestamps serde r (st.log ++ [entry]) c) (r.lastClickedAt.get c)
    rw [ackedTimestamps_xadd serde hinv.stream hadd, hkeys]
    exact hlast
  | loseData => exact absurd rfl hlose
  | ensureConsumerGroup hphase =>
    exact lastClick_congr hlast (fun e _ => acked_xgroupCreateMkstream _ e)
      (xgroupCreateMkstream_data _).2.2.2.2.2
  | readStream cancelled hphase hread =>
    obtain ⟨-, -, -, -, -, -, -, hkeys⟩ := xreadgroup_cases hread
    exact lastClick_congr hlast (fun e he => acked_xreadgroup hinv.stream hread he) hkeys
  | drainPendingBatch hphase hclaim =>
    obtain ⟨rfl, -⟩ := xautoclaim_cases hinv.stream hclaim
    exact hlast
  | processEntry entry batch reached hphase =>
    -- the one step in which a click becomes an acknowledged one
    cases reached with
    | false => exact hlast
    | true =>
      show LastClick (ackedTimestamps serde (Kurl.processEntry serde st.redis entry) st.log c) _
      by_cases hpend : entry.id ∈ st.redis.pel
      · exact lastClick_processEntry serde hinv.stream (hinv.head_mem hphase hpend) hpend
          (fun b _ => hinv.hasRoom hfit b) c hlast
      · rw [processEntry_of_notMem serde hpend]
        exact hlast
  | rehydrate result hphase =>
    -- `HMAX` and `compare_and_delete` do not touch the last clicks
    obtain ⟨-, -, hgroup, hkeys⟩ := exec_stream st.redis [] _ result
    exact lastClick_congr hlast (fun e _ => acked_of_group hgroup e) hkeys
  | reconcile result hphase =>
    obtain ⟨-, -, hgroup, hkeys⟩ := exec_stream st.redis _ _ result
    exact lastClick_congr hlast (fun e _ => acked_of_group hgroup e) hkeys
  | _ => exact hlast

/-- A step that leaves the tables and the log, and does not take up a merge. -/
theorem of_pg (h : ClickInv serde st) (hlost : st'.lost = st.lost)
    (hlast : ∀ c, LastClick (ackedTimestamps serde st'.redis st'.log c)
      (st'.redis.lastClickedAt.get c))
    (hpg : st'.pg = st.pg) (hlog : st.log ⊆ st'.log)
    (hmerge : ∀ tx, st'.phase = .merging tx → st.phase = .merging tx) : ClickInv serde st' := by
  refine ⟨hlost.trans h.lost, hlast, ?_, fun tx htx => ?_, fun tx htx => ?_⟩
  · rw [hpg]
    exact h.rows.mono hlog
  · exact (h.snapshot tx (hmerge tx htx)).mono hlog
  · rw [hpg]
    exact (h.seen tx (hmerge tx htx)).mono hlog

/-- **Step lemma**, while Redis keeps its data: a value moves from one place to the next and stays
that of a click. -/
theorem step (hinv : WriterInv serde (fun _ => 0) st) (hfit : st.CountsFit serde fun _ => 0)
    (hlinks : LinkInv st) (h : ClickInv serde st) (hlose : a ≠ .loseData)
    (hstep : st.Step serde a st') : ClickInv serde st' := by
  have hlast := h.lastClick_step hinv hfit hlose hstep
  -- a row that has just been inserted has no last click
  have hinsert : ∀ {pg : Postgres} {code target : String} {expiration : Option DateTime},
      pg.Clicked serde st.log → Postgres.Clicked serde st.log
        { pg with links := pg.links.set code (Postgres.newLink target expiration) } := by
    intro pg code target expiration hpg c row t hrow ht
    rw [Table.get_set] at hrow
    split at hrow
    · obtain rfl := Option.some.inj hrow
      cases ht
    · exact hpg c row t hrow ht
  have hdelete : ∀ {pg : Postgres} {code : String}, pg.Clicked serde st.log →
      (pg.withoutLink code).Clicked serde st.log := by
    intro pg code hpg c row t hrow ht
    change (pg.links.erase code).get c = some row at hrow
    rw [Table.get_erase] at hrow
    split at hrow
    · cases hrow
    · exact hpg c row t hrow ht
  -- the value is in Redis, in a snapshot, in what a merge has written, or in a row
  cases hstep with
  | append entry hadd =>
    exact h.of_pg rfl hlast rfl (List.subset_append_left _ _) fun _ htx => htx
  | @createLink code target expiration pg hcreate =>
    obtain ⟨-, hpg⟩ := Postgres.createLink_ok hcreate
    refine ⟨h.lost, hlast, ?_, h.snapshot, fun tx htx => ?_⟩
    · show pg.Clicked serde st.log
      rw [hpg]
      exact hinsert h.rows
    · obtain ⟨-, hview, -⟩ := (hinv.frame tx htx).view_createLink hcreate
      show (tx.view pg).Clicked serde st.log
      rw [hview]
      exact hinsert (h.seen tx htx)
  | @deleteLink code pg hfree hdeleted =>
    obtain hpg : pg = st.pg.withoutLink code := Postgres.deleteLink_ok hdeleted
    refine ⟨h.lost, hlast, ?_, h.snapshot, fun tx htx => ?_⟩
    · show pg.Clicked serde st.log
      rw [hpg]
      exact hdelete h.rows
    · obtain ⟨hview, -⟩ :=
        (hinv.frame tx htx).view_deleteLink hdeleted (WriterState.merging_free hfree htx)
      show (tx.view pg).Clicked serde st.log
      rw [hview]
      exact hdelete (h.seen tx htx)
  | createFails => exact h
  | deleteFails => exact h
  | loseData => exact absurd rfl hlose
  | readStream cancelled hphase hread =>
    exact h.of_pg rfl hlast rfl (List.Subset.refl _) fun tx htx => by
      cases cancelled <;> cases htx
  | @assemble cutoff counts s hphase hs =>
    -- from Redis to the snapshot, with counts that are those of acknowledged clicks
    have hcounts : ∀ b n, counts.get b = some n →
        0 ≤ n ∧ n ≤ ackedCount serde st.redis st.log b := by
      intro b n hn
      have hbound := hinv.within b n (.phase (by rw [hphase]; exact hn))
      unfold WriterState.creditable at hbound
      rw [h.lost, countWhere_nil, zero_add, zero_add] at hbound
      exact hbound
    refine ⟨h.lost, hlast, h.rows, fun tx htx => ?_, fun tx htx => ?_⟩
    · obtain rfl := WriterPhase.eq_begin htx
      exact hs.clicked h.lastClick hcounts
    · obtain rfl := WriterPhase.eq_begin htx
      rw [MergeTx.view_begin]
      exact h.rows
  | @exec tx tx' hphase hexec =>
    -- from the snapshot to the rows of the transaction
    obtain ⟨hexecuted, hsnapshot, -⟩ := MergeTx.executed_of_exec (hinv.frame _ hphase) hexec
    refine ⟨h.lost, hlast, h.rows, fun tx₁ htx => ?_, fun tx₁ htx => ?_⟩
    · obtain rfl := WriterPhase.merging.inj htx
      rw [hsnapshot]
      exact h.snapshot tx hphase
    · obtain rfl := WriterPhase.merging.inj htx
      exact hexecuted.clicked (h.snapshot tx hphase) (hlinks.merge tx hphase).stage
        (h.seen tx hphase)
  | commit connected hphase hstage horder =>
    -- and from there to the tables
    exact ⟨h.lost, hlast, h.seen _ hphase, fun _ htx => (by cases htx),
      fun _ htx => (by cases htx)⟩
  | commitApplied hphase hstage =>
    exact ⟨h.lost, hlast, h.seen _ hphase, fun _ htx => (by cases htx),
      fun _ htx => (by cases htx)⟩
  | _ =>
    exact h.of_pg rfl hlast rfl (List.Subset.refl _) fun tx htx => by cases htx

end ClickInv

end Steps

end Kurl
