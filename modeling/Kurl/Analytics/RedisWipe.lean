import Kurl.Analytics.FlushExact
import Kurl.Analytics.TotalClicks

/-!
# Kurl — clicks survive a Redis wipe

After Redis has lost its data its counters start again from zero, and they meet the rows of Postgres
by `HMAX` and `greatest`, never by addition. Nothing is lost because the next writer rehydrates
first: when it begins to record, every bucket of its window holds the count of its row (`Wiped`), so
every count recorded from then on is that row plus the clicks since (`FilledInv`, with the rows as
the start).

The invariant has two phases, and `WipeInv.step` carries the run from the one to the other.

* **`Wiped`** — before the writer has rehydrated: nothing is recorded yet, the rows are those of
  before the loss, and `Prepared` says what the selections have read and what is still to raise.
* **`FilledInv`** — from the end of the rehydration on: the buckets of the window hold their credit,
  which now starts from the rows.

Days before the window are not rehydrated. Their rows keep what they hold, and a click on such a day
would be counted in Redis from zero. This is why the total is exact only when no recorded click is
before the window.
-/

namespace Kurl

open Lib

/-- Redis is empty and no writer is running. -/
def wiped (pg : Postgres) : WriterState := ⟨Redis.empty, pg, .stopped, [], [], ∅⟩

/-- A step of a run with one writer, which rehydrates the days from `since` on and none of whose
rehydration calls fails, and without another loss of data. -/
def WriterState.CleanRehydrate (since : NaiveDate) (st : WriterState) : WriterAction → Prop
  | .loseData | .stop => False
  | .selectGlobal now _ => rollingWindowStart now = since
  | .call result =>
    match st.phase with
    | .rehydrating _ => result = .answered
    | _ => True
  | _ => True

instance (since : NaiveDate) (st : WriterState) : DecidablePred (st.CleanRehydrate since)
  | .loseData | .stop => inferInstanceAs (Decidable False)
  | .selectGlobal now _ => inferInstanceAs (Decidable (rollingWindowStart now = since))
  | .call result =>
    match h : st.phase with
    | .rehydrating _ => decidable_of_iff (result = .answered) (by
        unfold WriterState.CleanRehydrate
        rw [h])
    | .stopped | .starting | .selectingGlobal | .selectingLinks _ _ | .ready | .processing _
    | .scanning _ _ _ | .assembling _ _ | .merging _ | .reconciling _ _ => isTrue (by
        unfold WriterState.CleanRehydrate
        rw [h]
        trivial)
  | .append _ | .createLink _ _ _ | .deleteLink _ | .start | .ensureConsumerGroup
  | .selectLinks _ | .rehydrated | .readStream _ _ | .drainPendingBatch _ | .processEntry _
  | .endBatch | .flush _ | .scan _ | .captureGlobal | .assemble _ | .exec | .commit _ _
  | .commitUnknown _ | .flushFails | .flushReturns => inferInstanceAs (Decidable True)

/-- The buckets of the window, of days and of these links. -/
def Bucket.InWindow (since : NaiveDate) (codes : Finset String) (b : Bucket) : Prop :=
  since ≤ b.day ∧ b.Of codes

/-- The links are there. -/
def WriterState.Live (codes : Finset String) (st : WriterState) : Prop :=
  ∀ c ∈ codes, st.pg.linkExists c = true

/-! ## Before the writer has rehydrated -/

/-- What the rehydration has read and what it is still to raise. -/
def WriterPhase.Prepared (pg : Postgres) (since : NaiveDate) (codes : Finset String) (r : Redis) :
    WriterPhase → Prop
  | .selectingLinks windowStart globalDaily =>
    windowStart = since ∧ ∀ d, since ≤ d → globalDaily.get d = pg.globalDailyClicks.get d
  | .rehydrating calls => ∀ b : Bucket, b.InWindow since codes →
    r.buckets.val b = pg.count b ∨ .hmax b (pg.count b) ∈ calls
  | _ => True

/-- Nothing is recorded yet, and the rows are those of before. -/
structure Wiped (serde : SerdeJson) (pg : Postgres) (since : NaiveDate) (codes : Finset String)
    (st : WriterState) : Prop where
  credit : ∀ b, st.creditable serde b = 0
  rows : ∀ b : Bucket, b.Of codes → st.pg.row b = pg.row b
  prepared : st.phase.Prepared pg since codes st.redis

section Steps

variable {serde : SerdeJson} {pg : Postgres} {since : NaiveDate} {codes : Finset String}
  {st st' : WriterState} {a : WriterAction}

theorem WriterPhase.Prepared.congr {r r' : Redis} {phase : WriterPhase}
    (h : phase.Prepared pg since codes r) (hbuckets : r'.buckets = r.buckets) :
    phase.Prepared pg since codes r' := by
  cases phase with
  | rehydrating calls =>
    intro b hb
    rw [hbuckets]
    exact h b hb
  | selectingLinks windowStart globalDaily => exact h
  | _ => trivial

/-- `HMAX` raises a bucket to its row. -/
theorem val_exec_hmax_row {r : Redis} {b : Bucket} {n : Int} (hval : 0 ≤ r.buckets.val b)
    (hle : r.buckets.val b ≤ n) (hn : n < 2 ^ 53) :
    (RedisCall.exec r [] (.hmax b n) .answered).1.buckets.val b = n := by
  unfold Table.val at hval hle ⊢
  rw [get_exec_hmax, if_pos ⟨rfl, by simp⟩]
  cases hget : r.buckets.get b with
  | none => rfl
  | some c =>
    rw [hget] at hval hle
    change 0 ≤ c at hval
    change c ≤ n at hle
    show hmaxValue (some c) n = n
    rw [hmaxValue_eq_max ⟨by omega, by omega⟩ ⟨by omega, hn⟩]
    exact max_eq_right hle

namespace Wiped

/-- The rows of the links that stay. -/
theorem rows_step (h : Wiped serde pg since codes st) (hstep : st.Step serde a st')
    (hlive : st'.Live codes) (hnot : ¬ st.phase.Rehydrated) {b : Bucket} (hb : b.Of codes) :
    st'.pg.row b = pg.row b := by
  cases hstep with
  | createLink hcreate =>
    obtain ⟨-, rfl⟩ := Postgres.createLink_ok hcreate
    exact Eq.trans (by cases b <;> rfl) (h.rows b hb)
  | @deleteLink code pg' hfree hdelete =>
    obtain rfl : pg' = st.pg.withoutLink code := Postgres.deleteLink_ok hdelete
    -- the link that goes is none of those that stay
    have hof : b.Of (codes.erase code) := by
      intro c hc
      refine Finset.mem_erase.mpr ⟨?_, hb c hc⟩
      rintro rfl
      have hthere : ((st.pg.links.erase c).get c).isSome = true := hlive c (hb c hc)
      rw [Table.get_erase, if_pos rfl] at hthere
      cases hthere
    exact (row_withoutLink_of st.pg hof).1.trans (h.rows b hb)
  | commit connected hphase hstage horder => exact absurd (by rw [hphase]; trivial) hnot
  | commitApplied hphase hstage => exact absurd (by rw [hphase]; trivial) hnot
  | _ => exact h.rows b hb

/-- **What a step prepares** before the writer has rehydrated. -/
theorem prepared_step (hinv : WriterInv serde pg.count st) (hfit : st.CountsFit serde pg.count)
    (h : Wiped serde pg since codes st) (hstep : st.Step serde a st')
    (ha : st.CleanRehydrate since a) (hnot : ¬ st.phase.Rehydrated)
    (hnot' : ¬ st'.phase.Rehydrated) : st'.phase.Prepared pg since codes st'.redis := by
  cases hstep with
  | append entry hadd =>
    -- a click waits in the stream; a link made now has no rows among those of before
    obtain ⟨-, rfl⟩ := xadd_cases hadd
    exact h.prepared.congr rfl
  | createLink hcreate => exact h.prepared
  | deleteLink hfree hdelete => exact h.prepared
  | createFails => exact h.prepared
  | deleteFails => exact h.prepared
  | loseData => exact absurd ha id
  | start hphase => trivial
  | stop => exact absurd ha id
  | drop hdrops hphase => exact absurd hphase hnot
  | ensureConsumerGroup hphase => trivial
  | selectGlobal now hphase hreads =>
    -- the days read are those of the window
    obtain rfl : rollingWindowStart now = since := ha
    refine ⟨rfl, fun d hd => ?_⟩
    rw [← HashMap.get_toTable, hreads, Postgres.globalDailyClicksSince, Table.get_filter,
      if_pos (by simpa using hd)]
    exact h.rows (.global d) fun code hcode => by cases hcode
  | @selectLinks windowStart globalDaily linkDaily hphase hreads =>
    have hprepared := h.prepared
    rw [hphase] at hprepared
    obtain ⟨rfl, hglobal⟩ := hprepared
    intro b hb
    cases hrow : pg.row b with
    | none =>
      -- no row and nothing recorded: the bucket is at zero
      have hval := hinv.val_le hfit b
      rw [h.credit, add_zero] at hval
      have hzero : pg.count b = 0 := by
        unfold Postgres.count
        rw [hrow]
        rfl
      exact Or.inl (by show st.redis.buckets.val b = pg.count b; omega)
    | some n =>
      have hcount : pg.count b = n := by
        unfold Postgres.count
        rw [hrow]
        rfl
      rw [hcount]
      -- one of the two selections has read the row, so that a call for it is made
      refine Or.inr (mem_rehydrateCalls.mpr ?_)
      cases b with
      | global day => exact Or.inl ((hglobal day hb.1).trans hrow)
      | link code day =>
        refine Or.inr ?_
        show linkDaily.get (code, day) = some n
        rw [← HashMap.get_toTable, hreads, Postgres.linkDailyClicksSince, Table.get_filter,
          if_pos (decide_eq_true (show windowStart ≤ day from hb.1))]
        exact (h.rows (.link code day) hb.2).trans hrow
  | @rehydrate call calls result hphase =>
    have hprepared := h.prepared
    rw [hphase] at hprepared
    have hanswered : result = .answered := by
      have hcall := ha
      unfold WriterState.CleanRehydrate at hcall
      rwa [hphase] at hcall
    subst hanswered
    intro b hb
    have hval := hinv.val_le hfit b
    rw [h.credit, add_zero] at hval
    have hbound := (hfit b).2
    have happended := countWhere_nonneg (st.lost ++ st.log) fun e => entryHits serde e b
    unfold WriterState.appended at hbound
    -- the call raises a bucket to a row that the writer has read, which is within the credit
    have hcall : ∀ v, call = .hmax b v → 0 ≤ v ∧ v ≤ pg.count b := by
      intro v hv
      have hwithin := hinv.within b v (.phase (by rw [hphase, hv]; exact List.mem_cons_self))
      rwa [h.credit, add_zero] at hwithin
    rcases hprepared b hb with hdone | hmem
    · -- the bucket holds its row, and the call is within it
      refine Or.inl ?_
      rw [← hdone]
      exact val_exec_of_le .answered (by omega) fun v hv => hdone ▸ hcall v hv
    · rcases List.mem_cons.mp hmem with rfl | hrest
      · exact Or.inl (val_exec_hmax_row hval.1 hval.2 (by omega))
      · exact Or.inr hrest
  -- the rest are steps of a writer that has rehydrated
  | rehydrated hphase => exact absurd trivial hnot'
  | readStream cancelled hphase hread => exact absurd (by rw [hphase]; trivial) hnot
  | drainPendingBatch hphase hclaim => exact absurd (by rw [hphase]; trivial) hnot
  | processEntry entry batch reached hphase => exact absurd (by rw [hphase]; trivial) hnot
  | flush now hphase => exact absurd (by rw [hphase]; trivial) hnot
  | scan code hphase => exact absurd (by rw [hphase]; trivial) hnot
  | captureGlobal hphase hscanned => exact absurd (by rw [hphase]; trivial) hnot
  | assemble hphase hs => exact absurd (by rw [hphase]; trivial) hnot
  | exec hphase hexec => exact absurd (by rw [hphase]; trivial) hnot
  | commit connected hphase hstage horder => exact absurd (by rw [hphase]; trivial) hnot
  | commitApplied hphase hstage => exact absurd (by rw [hphase]; trivial) hnot
  | reconcile result hphase => exact absurd (by rw [hphase]; trivial) hnot
  | flushReturns hphase => exact absurd (by rw [hphase]; trivial) hnot

end Wiped

/-! ## The whole run -/

/-- The writer has the link rows of a flush to raise, or has raised them. -/
def WriterPhase.Flushing : WriterPhase → Prop
  | .scanning _ _ _ | .assembling _ _ | .merging _ | .reconciling _ _ => True
  | _ => False

/-- What holds before and after the writer has rehydrated, with the links that stay. -/
structure WipeInv (serde : SerdeJson) (pg : Postgres) (since : NaiveDate) (codes : Finset String)
    (st : WriterState) : Prop where
  before : ¬ st.phase.Rehydrated → Wiped serde pg since codes st
  after : st.phase.Rehydrated → FilledInv serde pg.count (·.InWindow since codes) st
  kept : st.phase.Flushing → codes ⊆ st.kept

/-- A writer that has rehydrated goes on. -/
theorem WriterState.Step.rehydrated_of (hstep : st.Step serde a st') (ha : a ≠ .stop)
    (h : st.phase.Rehydrated) : st'.phase.Rehydrated := by
  cases hstep with
  | start hphase => rw [hphase] at h; exact absurd h id
  | stop => exact absurd rfl ha
  | ensureConsumerGroup hphase => rw [hphase] at h; exact absurd h id
  | selectGlobal now hphase hreads => rw [hphase] at h; exact absurd h id
  | selectLinks hphase hreads => rw [hphase] at h; exact absurd h id
  | rehydrate result hphase => rw [hphase] at h; exact absurd h id
  | readStream cancelled hphase hread => cases cancelled <;> trivial
  | assemble hphase hs =>
    show WriterPhase.Rehydrated (if _ then _ else _)
    split <;> trivial
  | append _ _ => exact h
  | createLink _ => exact h
  | deleteLink _ _ => exact h
  | createFails => exact h
  | deleteFails => exact h
  | loseData => exact h
  | _ => trivial

/-- The links that stay are among those of the flush. -/
theorem kept_step (hframe : ∀ tx, st.phase = .merging tx → TxFrame st.pg tx)
    (h : st.phase.Flushing → codes ⊆ st.kept) (hlive : st.Live codes) (hlive' : st'.Live codes)
    (hstep : st.Step serde a st') (hflushing : st'.phase.Flushing) : codes ⊆ st'.kept := by
  cases hstep with
  | append entry hadd => exact h hflushing
  | createLink hcreate => exact h hflushing
  | @deleteLink code pg' hfree hdelete =>
    obtain rfl : pg' = st.pg.withoutLink code := Postgres.deleteLink_ok hdelete
    intro c hc
    refine Finset.mem_erase.mpr ⟨?_, h hflushing hc⟩
    rintro rfl
    have hthere : ((st.pg.links.erase c).get c).isSome = true := hlive' c hc
    rw [Table.get_erase, if_pos rfl] at hthere
    cases hthere
  | createFails => exact h hflushing
  | deleteFails => exact h hflushing
  | loseData => exact h hflushing
  | readStream cancelled hphase hread => cases cancelled <;> exact absurd hflushing id
  | flush now hphase => exact fun c hc => (st.pg.links.mem_keys c).mpr (hlive c hc)
  | scan code hphase => exact h (by rw [hphase]; trivial)
  | captureGlobal hphase hscanned => exact h (by rw [hphase]; trivial)
  | assemble hphase hs => exact h (by rw [hphase]; trivial)
  | @exec tx tx' hphase hexec =>
    show codes ⊆ tx.stage.keptBy (tx.view st.pg) st.kept
    cases tx.stage with
    | upsertLinks existing =>
      -- the statement keeps the links that exist when it runs
      intro c hc
      have hlink := (hframe tx hphase).linkExists c
      exact ((tx.view st.pg).links.mem_keys c).mpr (hlink.trans (hlive c hc))
    | _ => exact h (by rw [hphase]; trivial)
  | commit connected hphase hstage horder => exact h (by rw [hphase]; trivial)
  | reconcile result hphase => exact h (by rw [hphase]; trivial)
  | _ => exact absurd hflushing id

/-- **Step lemma.** The run is before its rehydration (`Wiped`), at the step that ends it, or after
it (`FilledInv`). -/
theorem WipeInv.step (hinv : WriterInv serde pg.count st) (hfit : st.CountsFit serde pg.count)
    (h : WipeInv serde pg since codes st) (ha : st.CleanRehydrate since a) (hlive : st.Live codes)
    (hlive' : st'.Live codes) (hstep : st.Step serde a st') :
    WipeInv serde pg since codes st' := by
  have hstop : a ≠ .stop := by
    rintro rfl
    exact ha
  have hlose : a ≠ .loseData := by
    rintro rfl
    exact ha
  refine ⟨fun hnot' => ?_, fun hrehydrated => ?_, kept_step hinv.frame h.kept hlive hlive' hstep⟩
  · -- the run is still in its first phase
    have hnot : ¬ st.phase.Rehydrated := fun hre => hnot' (hstep.rehydrated_of hstop hre)
    have hwiped := h.before hnot
    -- only a writer that has rehydrated processes entries
    have hproc : ∀ reached, a ≠ .processEntry reached := by
      rintro reached rfl
      cases hstep with
      | processEntry entry batch reached hphase => exact hnot' trivial
      | drop hdrops _ => exact hdrops
    refine ⟨fun b => ?_, fun b hb => hwiped.rows_step hstep hlive' hnot hb,
      hwiped.prepared_step hinv hfit hstep ha hnot hnot'⟩
    rw [hstep.creditable hinv.stream hproc hlose, hwiped.credit]
  · -- it is in its second phase, or this step takes it there
    by_cases hre : st.phase.Rehydrated
    · exact (h.after hre).step hinv hfit hstep hlose
    · -- the last call is answered: every bucket of the window holds its row
      have hwiped := h.before hre
      cases hstep with
      | rehydrated hphase =>
        have hprepared := hwiped.prepared
        rw [hphase] at hprepared
        refine ⟨fun b hb => ?_, trivial⟩
        have hcredit : WriterState.creditable serde { st with phase := .ready } b = 0 :=
          hwiped.credit b
        rw [hcredit, add_zero]
        exact (hprepared b hb).resolve_right List.not_mem_nil
      -- no other step ends the rehydration
      | append _ _ => exact absurd hrehydrated hre
      | createLink _ => exact absurd hrehydrated hre
      | deleteLink _ _ => exact absurd hrehydrated hre
      | createFails => exact absurd hrehydrated hre
      | deleteFails => exact absurd hrehydrated hre
      | loseData => exact absurd rfl hlose
      | start _ => exact absurd hrehydrated id
      | stop => exact absurd rfl hstop
      | ensureConsumerGroup _ => exact absurd hrehydrated id
      | selectGlobal _ _ _ => exact absurd hrehydrated id
      | selectLinks _ _ => exact absurd hrehydrated id
      | rehydrate _ _ => exact absurd hrehydrated id
      | drop _ hphase => exact absurd hphase hre
      | readStream _ hphase _ => exact absurd (by rw [hphase]; trivial) hre
      | drainPendingBatch hphase _ => exact absurd (by rw [hphase]; trivial) hre
      | processEntry _ _ _ hphase => exact absurd (by rw [hphase]; trivial) hre
      | flush _ hphase => exact absurd (by rw [hphase]; trivial) hre
      | scan _ hphase => exact absurd (by rw [hphase]; trivial) hre
      | captureGlobal hphase _ => exact absurd (by rw [hphase]; trivial) hre
      | assemble hphase _ => exact absurd (by rw [hphase]; trivial) hre
      | exec hphase _ => exact absurd (by rw [hphase]; trivial) hre
      | commit _ hphase _ _ => exact absurd (by rw [hphase]; trivial) hre
      | commitApplied hphase _ => exact absurd (by rw [hphase]; trivial) hre
      | reconcile _ hphase => exact absurd (by rw [hphase]; trivial) hre
      | flushReturns hphase => exact absurd (by rw [hphase]; trivial) hre

end Steps

/-! ## The result -/

section Runs

variable {serde : SerdeJson} {pg : Postgres} {since : NaiveDate} {codes : Finset String}
  {st : WriterState} {as : List WriterAction}

theorem WriterInv.wiped (hpg : ∀ b, 0 ≤ pg.count b) : WriterInv serde pg.count (wiped pg) where
  stream := StreamInv.empty
  batch := fun _ hbatch => by cases hbatch
  frame := fun _ htx => by cases htx
  within := by
    intro b v hv
    cases hv with
    | redis hv => cases hv
    | phase hv => exact absurd hv id
    | pg hv =>
      have hcount : pg.count b = v := by
        unfold Postgres.count
        rw [show pg.row b = some v from hv]
        rfl
      have hnonneg := hpg b
      show 0 ≤ v ∧ v ≤ pg.count b + 0
      omega

theorem WipeInv.wiped (serde : SerdeJson) (pg : Postgres) (since : NaiveDate)
    (codes : Finset String) : WipeInv serde pg since codes (wiped pg) :=
  ⟨fun _ => ⟨fun _ => rfl, fun _ _ => rfl, trivial⟩, fun h => absurd h id, fun h => absurd h id⟩

/-- **Run lemma**, for runs of one writer whose rehydration is clean and in which the links in
`codes` stay. -/
theorem wipe_inv (hrun : (writer serde).run (wiped pg) as = some st)
    (hclean : (writer serde).Meets (fun st a => st.CleanRehydrate since a) (wiped pg) as)
    (hlinks : (writer serde).Meets (fun st _ => st.Live codes) (wiped pg) as)
    (hfit : st.CountsFit serde pg.count) (hlive : st.Live codes) :
    WipeInv serde pg since codes st := by
  have hpg : ∀ b, 0 ≤ pg.count b := fun b => (hfit b).1
  have hboth : st.CountsFit serde pg.count → st.Live codes →
      WriterInv serde pg.count st ∧ WipeInv serde pg since codes st := by
    apply (writer serde).run_invariant_of_meets (I := fun st => st.CountsFit serde pg.count →
      st.Live codes → WriterInv serde pg.count st ∧ WipeInv serde pg since codes st) _
      (Machine.Meets.and _ hclean hlinks) hrun
      (fun _ _ => ⟨WriterInv.wiped hpg, WipeInv.wiped serde pg since codes⟩)
    intro s a s' hs ha hstep hfit' hlive'
    have hstep := WriterState.Step.of_step hstep
    have hfit := hfit'.of_step hstep
    obtain ⟨hinv, hwipe⟩ := hs hfit ha.2
    exact ⟨hinv.step hfit hstep, hwipe.step hinv hfit ha.1 ha.2 hlive' hstep⟩
  exact (hboth hfit hlive).2

/-- **Run lemma** for the total, which asks nothing of the links. -/
theorem total_inv (hrun : (writer serde).run (wiped pg) as = some st)
    (hfit : st.CountsFit serde pg.count) (hevents : st.events serde < 2 ^ 53) :
    TotalInv (fun d => pg.globalDailyClicks.val d) pg.untracked st := by
  have hpg : ∀ b, 0 ≤ pg.count b := fun b => (hfit b).1
  have hboth : st.CountsFit serde pg.count → st.events serde < 2 ^ 53 →
      WriterInv serde pg.count st ∧
        TotalInv (fun d => pg.count (.global d)) pg.untracked st := by
    apply (writer serde).run_invariant (I := fun st => st.CountsFit serde pg.count →
      st.events serde < 2 ^ 53 → WriterInv serde pg.count st ∧
        TotalInv (fun d => pg.count (.global d)) pg.untracked st) _ hrun
      (fun _ _ => ⟨WriterInv.wiped hpg, rfl, fun _ => le_refl _, fun _ htx => by cases htx⟩)
    intro s a s' hs hstep hfit' hevents'
    have hstep := WriterState.Step.of_step hstep
    have hfit := hfit'.of_step hstep
    have hevents : s.events serde < 2 ^ 53 :=
      lt_of_le_of_lt (hstep.countWhere_le _) hevents'
    obtain ⟨hinv, htotal⟩ := hs hfit hevents
    exact ⟨hinv.step hfit hstep, htotal.step hinv hfit hevents hstep⟩
  exact (hboth hfit hevents).2

/-- **The rows after a flush**: what they held before the loss, and the clicks since. -/
theorem count_of_wiped (hrun : (writer serde).run (wiped pg) (as ++ [.flushReturns]) = some st)
    (hclean : (writer serde).Meets (fun st a => st.CleanRehydrate since a) (wiped pg)
      (as ++ [.flushReturns]))
    (hlinks : (writer serde).Meets (fun st _ => st.Live codes) (wiped pg) (as ++ [.flushReturns]))
    (hfit : st.CountsFit serde pg.count) {b : Bucket} (hb : b.InWindow since codes) :
    st.pg.count b = pg.count b + ackedCount serde st.redis st.log b := by
  have hlost : st.lost = [] := lost_eq hrun (Machine.Meets.mono _ (by
    rintro s a ha rfl
    exact ha) hclean)
  obtain ⟨t, hrest, hlast⟩ := (writer serde).run_append_some.mp hrun
  rw [(writer serde).meets_append hrest] at hclean hlinks
  obtain ⟨u, hstep, hnil⟩ := (writer serde).run_cons_some.mp hlast
  obtain rfl := Option.some.inj hnil
  have hstep := WriterState.Step.of_step hstep
  have hwipe := wipe_inv hrest hclean.1 hlinks.1 (hfit.of_step hstep) hlinks.2.1
  cases hstep with
  | drop hdrops _ => exact absurd hdrops id
  | flushReturns hphase =>
    have hrows := (hwipe.after (by rw [hphase]; trivial)).phase
    have hkept := hwipe.kept (by rw [hphase]; trivial)
    rw [hphase] at hrows
    have hcount := hrows b hb fun c hc => hkept (hb.2 c hc)
    unfold WriterState.creditable at hcount
    rw [show t.lost = [] from hlost] at hcount
    show t.pg.count b = pg.count b + ackedCount serde t.redis t.log b
    rw [hcount]
    show pg.count b + (0 + _) = _
    rw [zero_add]

/-- Each row has moved by the clicks of its day, and so the total by all of them. -/
theorem totalClicks_of_days (huntracked : st.pg.untracked = pg.untracked)
    (hday : ∀ d, st.pg.globalDailyClicks.val d - pg.globalDailyClicks.val d =
      ackedCount serde st.redis st.log (.global d)) :
    st.pg.totalClicks = pg.totalClicks + ackedEvents serde st.redis st.log := by
  have hgrown : st.pg.globalDailyClicks.sum - pg.globalDailyClicks.sum =
      ackedEvents serde st.redis st.log := by
    rw [Table.sum_sub_sum, Finset.sum_congr rfl fun d _ => hday d]
    refine sum_ackedCount fun d hpos => ?_
    by_contra hnot
    rw [Finset.notMem_union] at hnot
    have hzero := hday d
    rw [Table.val_of_none (Table.get_eq_none_iff.mpr hnot.1),
      Table.val_of_none (Table.get_eq_none_iff.mpr hnot.2)] at hzero
    omega
  unfold Postgres.untracked at huntracked
  omega

end Runs

/-- A day without clicks since the loss has the row it had: rows do not fall, and there is nothing to
raise this one. -/
theorem val_of_noCredit {serde : SerdeJson} {start : Bucket → Int} {st : WriterState}
    (hinv : WriterInv serde start st) {d : NaiveDate} (hpos : 0 ≤ start (.global d))
    (hfloor : start (.global d) ≤ st.pg.globalDailyClicks.val d)
    (hcredit : st.creditable serde (.global d) = 0) :
    st.pg.globalDailyClicks.val d = start (.global d) := by
  refine le_antisymm ?_ hfloor
  cases hrow : st.pg.globalDailyClicks.get d with
  | none =>
    rw [Table.val_of_none hrow]
    exact hpos
  | some v =>
    have hv := (hinv.within (.global d) v (.pg hrow)).2
    rw [hcredit, add_zero] at hv
    rw [Table.val_of_get hrow]
    exact hv

/-- **Clicks survive a Redis wipe.** After the loss, the rehydration of the next writer and
anything that happens then, a flush that returns leaves in the daily rows of the window what they
held before plus the clicks recorded since, for days and for links that were there throughout.
When no recorded click is before the window, the total has grown by their number. -/
theorem clicks_survive_redis_wipe {serde : SerdeJson} {pg : Postgres} {since : NaiveDate}
    {as : List WriterAction} {st : WriterState}
    (hrun : (writer serde).run (wiped pg) (as ++ [.flushReturns]) = some st)
    (hclean : (writer serde).Meets (fun st a => st.CleanRehydrate since a) (wiped pg)
      (as ++ [.flushReturns]))
    (hfit : ∀ b, 0 ≤ pg.count b ∧ pg.count b + st.appended serde b < 2 ^ 53)
    (hevents : st.events serde < 2 ^ 53) :
    (∀ d, since ≤ d → st.pg.globalDailyClicks.val d =
      pg.globalDailyClicks.val d + ackedCount serde st.redis st.log (.global d)) ∧
    (∀ c, (writer serde).Meets (fun st _ => st.pg.linkExists c = true) (wiped pg)
        (as ++ [.flushReturns]) → ∀ d, since ≤ d → st.pg.linkDailyClicks.val (c, d) =
      pg.linkDailyClicks.val (c, d) + ackedCount serde st.redis st.log (.link c d)) ∧
    ((∀ e ∈ st.log, st.redis.Acked e → ∀ event, parseClickEvent serde e = some event →
        since ≤ event.atTime.dateNaive) →
      st.pg.totalClicks = pg.totalClicks + ackedEvents serde st.redis st.log) := by
  -- the days: every bucket of the window, and no link is asked to stay
  have hglobal : ∀ d, since ≤ d → st.pg.globalDailyClicks.val d =
      pg.globalDailyClicks.val d + ackedCount serde st.redis st.log (.global d) := by
    intro d hd
    have hwindow : (Bucket.global d).InWindow since ∅ := ⟨hd, fun c hc => by cases hc⟩
    have hlive : (writer serde).Meets (fun st _ => st.Live ∅) (wiped pg) (as ++ [.flushReturns]) :=
      Machine.Meets.mono _ (fun _ _ _ c hc => absurd hc (Finset.notMem_empty c))
        ((writer serde).meets_true _ _)
    exact count_of_wiped hrun hclean hlive hfit hwindow
  refine ⟨hglobal, fun c hlinks d hd => ?_, fun hdays => ?_⟩
  · -- the days of a link that is there throughout
    have hwindow : (Bucket.link c d).InWindow since {c} := by
      refine ⟨hd, fun c' hc' => ?_⟩
      rw [← Option.some.inj hc']
      exact Finset.mem_singleton_self c
    have hlive : (writer serde).Meets (fun st _ => st.Live {c}) (wiped pg)
        (as ++ [.flushReturns]) := by
      refine Machine.Meets.mono _ (fun s _ hc c' hc' => ?_) hlinks
      rw [Finset.mem_singleton.mp hc']
      exact hc
    exact count_of_wiped hrun hclean hlive hfit hwindow
  · -- the total moves with the sum of the days
    have hinv := writer_inv hrun (WriterInv.wiped fun b => (hfit b).1) hfit
    have htotal := total_inv hrun hfit hevents
    have hlost : st.lost = [] := lost_eq hrun (Machine.Meets.mono _ (by
      rintro s a ha rfl
      exact ha) hclean)
    refine totalClicks_of_days htotal.total fun d => ?_
    by_cases hd : since ≤ d
    · have hrow := hglobal d hd
      omega
    · -- a day before the window has no clicks, and its row has not moved
      have hzero : ackedCount serde st.redis st.log (.global d) = 0 :=
        ackedCount_global_eq_zero fun e he hacked event hparse heq =>
          hd (heq ▸ hdays e he hacked event hparse)
      have hcredit : st.creditable serde (.global d) = 0 := by
        unfold WriterState.creditable
        rw [hlost, hzero]
        rfl
      have hsame := val_of_noCredit hinv (hfit (.global d)).1 (htotal.floor d) hcredit
      rw [hzero]
      exact sub_eq_zero.mpr hsame

/-- The writer rehydrates a window of two rows, records a click and flushes it. -/
def wipedRun : List WriterAction :=
  [.start, .ensureConsumerGroup, .selectGlobal DateTime.unixEpoch (HashMap.empty.insert 0 4),
    .selectLinks (HashMap.empty.insert ("a", 0) 1), .call .answered, .call .answered, .rehydrated,
    .append (epochEntry 1), .readStream 1 false, .processEntry true, .endBatch,
    .flush DateTime.unixEpoch, .scan "a", .captureGlobal,
    .assemble ⟨HashMap.empty.insert 0 5, HashMap.empty.insert ("a", 0) 2, HashMap.empty, [], []⟩] ++
    List.replicate 8 .exec ++
  [.commit ⟨HashMap.empty.insert 0 5, HashMap.empty.insert ("a", 0) 2, 1, HashMap.empty⟩ true,
    .call .answered, .call .lost]

theorem clicks_survive_redis_wipe_click : ∃ st,
    (writer epochSerde).run (wiped aheadPg) (wipedRun ++ [.flushReturns]) = some st ∧
      aheadPg.globalDailyClicks.val 0 = 4 ∧ st.pg.globalDailyClicks.val 0 = 5 ∧
      st.pg.globalDailyClicks.val 0 = aheadPg.globalDailyClicks.val 0 +
        ackedCount epochSerde st.redis st.log (.global 0) ∧
      aheadPg.linkDailyClicks.val ("a", 0) = 1 ∧ st.pg.linkDailyClicks.val ("a", 0) = 2 ∧
      st.pg.linkDailyClicks.val ("a", 0) = aheadPg.linkDailyClicks.val ("a", 0) +
        ackedCount epochSerde st.redis st.log (.link "a" 0) := by
  have hvalues : ((writer epochSerde).run (wiped aheadPg) (wipedRun ++ [.flushReturns])).map
      (fun st => (st.pg.globalDailyClicks.val 0, st.pg.linkDailyClicks.val ("a", 0),
        decide ((st.lost ++ st.log).length ≤ 1))) = some (5, 2, true) := by
    decide
  obtain ⟨st, hrun, hst⟩ := Option.map_eq_some_iff.mp hvalues
  simp only [Prod.mk.injEq, decide_eq_true_eq] at hst
  obtain ⟨hglobal, hlink, hlen⟩ := hst
  have hcount : ∀ b, 0 ≤ aheadPg.count b ∧ aheadPg.count b ≤ 4 := fun b => by
    refine ⟨nonNegative_aheadPg.count b, ?_⟩
    cases b with
    | global d =>
      show (Table.empty.set (0 : NaiveDate) (4 : Int)).val d ≤ 4
      rw [Table.val_set]
      split <;> simp
    | link code d =>
      show (Table.empty.set ("a", (0 : NaiveDate)) (1 : Int)).val (code, d) ≤ 4
      rw [Table.val_set]
      split <;> simp
  have happended : ∀ p, countWhere (st.lost ++ st.log) p ≤ 1 := fun p =>
    (countWhere_le_length _ p).trans (by omega)
  have hclean : (writer epochSerde).Meets
      (fun st a => st.CleanRehydrate (rollingWindowStart DateTime.unixEpoch) a) (wiped aheadPg)
      (wipedRun ++ [.flushReturns]) := by
    decide
  -- the link is there throughout
  have hlinks : (writer epochSerde).Meets (fun st _ => st.pg.linkExists "a" = true) (wiped aheadPg)
      (wipedRun ++ [.flushReturns]) := by
    decide
  obtain ⟨hdays, hlinkDays, -⟩ := clicks_survive_redis_wipe hrun hclean
    (fun b => by
      have hle : st.appended epochSerde b ≤ 1 := happended _
      have hbound := hcount b
      omega)
    (lt_of_le_of_lt (happended _) (by norm_num))
  exact ⟨st, hrun, by decide, hglobal, hdays 0 (by decide), by decide, hlink,
    hlinkDays "a" hlinks 0 (by decide)⟩

end Kurl
