import Kurl.Analytics.CountBounds
import Kurl.Analytics.MergeAccount

/-!
# Kurl — the total over the writer's runs

A merge adds to `total_clicks` the growth of the daily rows it upserts, in the same transaction. So
no step changes by how much the total exceeds the sum of the daily rows (`Postgres.untracked`), and
no step lowers a daily row (`TotalInv`).

The delta of a merge is an `i64`. It does not wrap, because the rows it raises were never below what
they were at the start and are never raised above the credit: all of it was recorded since
(`WriterInv.globalGrowth_le`). The growth of one merge is a sum over days, so the number of entries
that bounds it is that of all days together (`WriterState.sum_creditable_le`).

Unlike the counts of links, the total needs no condition on creations and deletions: the rows of a
deleted link go with it, and the total keeps their clicks.
-/

namespace Kurl

open Lib

/-- What the local variables of a merge know about the global rows it sees. -/
def GlobalRead (pg : Postgres) (s : RedisSnapshot) : MergeStage → Prop
  | .lockGlobal visible => ∀ d ∈ s.globalDaily.keys,
    (pg.selectGlobal visible).val d = pg.globalDailyClicks.val d
  | .upsertGlobal existing => ReadEarlier existing pg.globalDailyClicks ∧
    ∀ d ∈ s.globalDaily.keys, existing.val d = pg.globalDailyClicks.val d
  | _ => True

/-- A merge of `s` at a stage where it sees `pg`. -/
structure MergeTotal (low : NaiveDate → Int) (excess : Int) (s : RedisSnapshot) (pg : Postgres)
    (stage : MergeStage) : Prop where
  total : pg.untracked + stage.pendingTotal = excess
  read : GlobalRead pg s stage
  floor : ∀ d, low d ≤ pg.globalDailyClicks.val d

/-- The total exceeds the sum of the rows by the same as ever, no row is below what it was at the
start, and a running merge keeps both. -/
structure TotalInv (low : NaiveDate → Int) (excess : Int) (st : WriterState) : Prop where
  total : st.pg.untracked = excess
  floor : ∀ d, low d ≤ st.pg.globalDailyClicks.val d
  merge : ∀ tx, st.phase = .merging tx →
    MergeTotal low excess tx.snapshot (tx.view st.pg) tx.stage

/-! ## The merge -/

section Merge

variable {low : NaiveDate → Int} {excess : Int} {s : RedisSnapshot} {pg pg' : Postgres}

theorem globalRead_linksStage (pg : Postgres) (s s' : RedisSnapshot) :
    GlobalRead pg s (MergeTx.linksStage s') := by
  unfold MergeTx.linksStage
  split <;> trivial

theorem GlobalRead.congr {stage : MergeStage} (h : GlobalRead pg s stage)
    (hdaily : pg'.globalDailyClicks = pg.globalDailyClicks) : GlobalRead pg' s stage := by
  have hselect : ∀ visible, pg'.selectGlobal visible = pg.selectGlobal visible := fun visible => by
    unfold Postgres.selectGlobal
    rw [hdaily]
  cases stage with
  | lockGlobal visible =>
    intro d hd
    rw [hselect, hdaily]
    exact h d hd
  | upsertGlobal existing =>
    unfold GlobalRead
    rw [hdaily]
    exact h
  | _ => trivial

/-- The tables with the same global rows and total. -/
theorem MergeTotal.congr {stage stage' : MergeStage} (h : MergeTotal low excess s pg stage)
    (hdaily : pg'.globalDailyClicks = pg.globalDailyClicks)
    (htotal : pg'.totalClicks = pg.totalClicks)
    (hpending : stage'.pendingTotal = stage.pendingTotal) (hread : GlobalRead pg' s stage') :
    MergeTotal low excess s pg' stage' := by
  refine ⟨?_, hread, fun d => ?_⟩
  · have htotal' := h.total
    unfold Postgres.untracked at htotal' ⊢
    rw [hdaily, htotal, hpending, htotal']
  · rw [hdaily]
    exact h.floor d

/-- **A statement of a merge** keeps the account of the total. -/
theorem Executed.total {o o' : MergeOutcome} {stage stage' : MergeStage}
    (h : Executed s pg o stage pg' stage' o') (hs : s.NonNegative)
    (hpg : ∀ d, 0 ≤ pg.globalDailyClicks.val d) (hfit : globalGrowth pg s ≤ i64Max)
    (htotal : MergeTotal low excess s pg stage) : MergeTotal low excess s pg' stage' := by
  have hread := htotal.read
  have haccount := h.untracked hs fun existing hstage => by
    rw [hstage] at hread
    have hexact : ∀ e ∈ s.globalDaily.entries, DeltaExact existing pg.globalDailyClicks e :=
      fun e he => .of_val (hread.2 e.1 (HashMap.mem_keys_of_mem he))
    exact ⟨hread.1, hexact, globalDeltaSum_eq hs hexact ▸ hfit⟩
  -- the account, what the next stage has read, and that no row has gone down
  refine ⟨haccount.trans htotal.total, ?_, fun d => ?_⟩
  · cases h with
    | selectGlobal hvisible =>
      intro d hd
      unfold Table.val
      rw [Postgres.selectGlobal, Table.get_filter]
      split
      · rfl
      · next hnot =>
        have hnone : pg.globalDailyClicks.get d = none := Table.get_eq_none_iff.mpr fun hkey =>
          hnot (decide_eq_true ((hvisible d).mpr ⟨hd, hkey⟩))
        rw [hnone]
    | lockGlobal visible =>
      refine ⟨fun d => ?_, hread⟩
      have hval := hpg d
      unfold Table.val at hval ⊢
      rw [Postgres.selectGlobal, Table.get_filter]
      split
      · exact ⟨hval, le_refl _⟩
      · exact ⟨le_refl _, hval⟩
    | upsertGlobal existing hdaily =>
      split
      · trivial
      · exact globalRead_linksStage _ _ _
    | updateTotal hpos => exact globalRead_linksStage _ _ _
    | upsertLinks existing hdaily => split <;> trivial
    | _ => trivial
  · have hfloor := htotal.floor d
    cases h with
    | upsertGlobal existing hdaily =>
      obtain rfl := globalDaily_of_upsert hs hread.1 hdaily
      exact hfloor.trans (Table.val_le_val_mergeMax _ hs.1 d)
    | _ => exact hfloor

theorem MergeTotal.begin (htotal : pg.untracked = excess)
    (hlow : ∀ d, low d ≤ pg.globalDailyClicks.val d) (s : RedisSnapshot) :
    MergeTotal low excess s ((MergeTx.begin s).view pg) (MergeTx.begin s).stage := by
  rw [MergeTx.view_begin]
  refine ⟨?_, ?_, hlow⟩
  · rw [htotal]
    rcases MergeTx.stage_begin s with hstage | hstage
    · rw [hstage]
      exact add_zero excess
    · rw [hstage, pendingTotal_linksStage, add_zero]
  · rcases MergeTx.stage_begin s with hstage | hstage
    · rw [hstage]
      trivial
    · rw [hstage]
      exact globalRead_linksStage _ _ _

/-- The growth of a merge within the credit. -/
theorem globalGrowth_le {credit : NaiveDate → Int}
    (hlow : ∀ d, low d ≤ pg.globalDailyClicks.val d)
    (hhigh : ∀ d, (pg.globalDailyClicks.mergeMax s.globalDaily).val d ≤ low d + credit d) :
    ∃ S : Finset NaiveDate, globalGrowth pg s ≤ ∑ d ∈ S, credit d := by
  unfold globalGrowth
  rw [Table.sum_sub_sum]
  refine ⟨pg.globalDailyClicks.keys ∪ (pg.globalDailyClicks.mergeMax s.globalDaily).keys, ?_⟩
  exact Finset.sum_le_sum fun d _ => by
    have hl := hlow d
    have hh := hhigh d
    omega

end Merge

/-! ## The entries of all days -/

/-- The acknowledged well-formed entries. -/
def ackedEvents (serde : SerdeJson) (r : Redis) (log : List StreamId) : Int :=
  countWhere log fun e => decide (r.Acked e) && (parseClickEvent serde e).isSome

/-- The well-formed entries ever appended. -/
def WriterState.events (serde : SerdeJson) (st : WriterState) : Int :=
  countWhere (st.lost ++ st.log) fun e => (parseClickEvent serde e).isSome

/-- An entry belongs in the bucket of one day. -/
theorem entryHits_global_inj {serde : SerdeJson} {e : StreamId} {d d' : NaiveDate}
    (h : entryHits serde e (.global d) = true) (h' : entryHits serde e (.global d') = true) :
    d = d' := by
  unfold entryHits at h h'
  cases hparse : parseClickEvent serde e with
  | none =>
    rw [hparse] at h
    cases h
  | some event =>
    rw [hparse] at h h'
    have hd : event.atTime.dateNaive = d := by simpa [ClickEvent.hits] using h
    have hd' : event.atTime.dateNaive = d' := by simpa [ClickEvent.hits] using h'
    exact hd.symm.trans hd'

theorem isSome_of_entryHits {serde : SerdeJson} {e : StreamId} {b : Bucket}
    (h : entryHits serde e b = true) : (parseClickEvent serde e).isSome = true := by
  unfold entryHits at h
  cases hparse : parseClickEvent serde e with
  | none =>
    rw [hparse] at h
    cases h
  | some event => rfl

/-- The credit of some days is at most the number of well-formed entries. -/
theorem WriterState.sum_creditable_le (serde : SerdeJson) (st : WriterState)
    (S : Finset NaiveDate) : ∑ d ∈ S, st.creditable serde (.global d) ≤ st.events serde := by
  have hlost := sum_countWhere S (p := fun d e => entryHits serde e (.global d))
    (fun _ _ _ h h' => entryHits_global_inj h h') st.lost
  have hacked := sum_countWhere S
    (p := fun d e => decide (st.redis.Acked e) && entryHits serde e (.global d))
    (fun _ _ _ h h' => entryHits_global_inj (Bool.and_eq_true_iff.mp h).2
      (Bool.and_eq_true_iff.mp h').2) st.log
  unfold creditable events ackedCount
  rw [Finset.sum_add_distrib, countWhere_append, hlost, hacked]
  refine add_le_add (countWhere_mono fun e _ he => ?_) (countWhere_mono fun e _ he => ?_)
  · obtain ⟨d, -, hd⟩ := of_decide_eq_true he
    exact isSome_of_entryHits hd
  · obtain ⟨d, -, hd⟩ := of_decide_eq_true he
    exact isSome_of_entryHits (Bool.and_eq_true_iff.mp hd).2

/-- The acknowledged entries, day by day. -/
theorem sum_ackedCount {serde : SerdeJson} {r : Redis} {log : List StreamId}
    {S : Finset NaiveDate} (hS : ∀ d, 0 < ackedCount serde r log (.global d) → d ∈ S) :
    ∑ d ∈ S, ackedCount serde r log (.global d) = ackedEvents serde r log := by
  have hsum := sum_countWhere S
    (p := fun d e => decide (r.Acked e) && entryHits serde e (.global d))
    (fun _ _ _ h h' => entryHits_global_inj (Bool.and_eq_true_iff.mp h).2
      (Bool.and_eq_true_iff.mp h').2) log
  refine hsum.trans (countWhere_congr fun e he => ?_)
  rw [Bool.eq_iff_iff, decide_eq_true_iff]
  constructor
  · rintro ⟨d, -, hd⟩
    obtain ⟨hacked, hhits⟩ := Bool.and_eq_true_iff.mp hd
    exact Bool.and_eq_true_iff.mpr ⟨hacked, isSome_of_entryHits hhits⟩
  · intro h
    obtain ⟨hacked, hsome⟩ := Bool.and_eq_true_iff.mp h
    obtain ⟨event, hevent⟩ := Option.isSome_iff_exists.mp hsome
    have hhits : (decide (r.Acked e) && entryHits serde e (.global event.atTime.dateNaive)) = true := by
      rw [hacked]
      simp [entryHits, hevent, ClickEvent.hits]
    exact ⟨_, hS _ (countWhere_pos he hhits), hhits⟩

/-- A day without acknowledged clicks. -/
theorem ackedCount_global_eq_zero {serde : SerdeJson} {r : Redis} {log : List StreamId}
    {d : NaiveDate} (h : ∀ e ∈ log, r.Acked e → ∀ event, parseClickEvent serde e = some event →
      event.atTime.dateNaive ≠ d) : ackedCount serde r log (.global d) = 0 := by
  refine countWhere_eq_zero fun e he => ?_
  by_cases hacked : r.Acked e
  · cases hparse : parseClickEvent serde e with
    | none => simp [entryHits, hparse]
    | some event => simp [entryHits, hparse, ClickEvent.hits, h e he hacked event hparse]
  · simp [hacked]

/-! ## The invariant -/

section Steps

variable {serde : SerdeJson} {start : Bucket → Int} {excess : Int} {st st' : WriterState}
  {a : WriterAction}

/-- The merge of the writer raises the total by no more than what was recorded. -/
theorem WriterInv.globalGrowth_le (h : WriterInv serde start st) (hfit : st.CountsFit serde start)
    (hevents : st.events serde < 2 ^ 53) {tx : MergeTx} (hphase : st.phase = .merging tx)
    (hfloor : ∀ d, start (.global d) ≤ (tx.view st.pg).globalDailyClicks.val d) :
    globalGrowth (tx.view st.pg) tx.snapshot ≤ i64Max := by
  have hholds : ∀ {b v}, tx.Holds st.pg b v → v ≤ start b + st.creditable serde b := fun hv =>
    (h.within _ _ (.phase (by rw [hphase]; exact hv))).2
  have hnonneg : ∀ b, 0 ≤ start b + st.creditable serde b := fun b =>
    (h.val_le hfit b).1.trans (h.val_le hfit b).2
  obtain ⟨S, hgrowth⟩ := Kurl.globalGrowth_le (s := tx.snapshot) hfloor (fun d => by
    unfold Table.val
    rw [Table.get_mergeMax]
    cases hget : greatest (tx.snapshot.globalDaily.get d)
        ((tx.view st.pg).globalDailyClicks.get d) with
    | none => exact hnonneg (.global d)
    | some v =>
      rcases greatest_eq_some hget with hin | hrow
      · exact hholds (.captured ((tx.snapshot.get_counts_global d).trans hin))
      · exact hholds (b := .global d) (.seen hrow))
  have hsum := st.sum_creditable_le serde S
  unfold i64Max
  omega

namespace TotalInv

variable {low : NaiveDate → Int}

/-- A step that leaves the tables, and does not take up a merge. -/
theorem of_pg (h : TotalInv low excess st) (hpg : st'.pg = st.pg)
    (hmerge : ∀ tx, st'.phase = .merging tx → st.phase = .merging tx) :
    TotalInv low excess st' := by
  refine ⟨by rw [hpg]; exact h.total, fun d => by rw [hpg]; exact h.floor d, fun tx htx => ?_⟩
  rw [hpg]
  exact h.merge tx (hmerge tx htx)

/-- **Step lemma.** Only a commit changes the total and the rows of the days, and it changes both to
what the transaction saw. -/
theorem step (hinv : WriterInv serde start st) (hfit : st.CountsFit serde start)
    (hevents : st.events serde < 2 ^ 53)
    (h : TotalInv (fun d => start (.global d)) excess st) (hstep : st.Step serde a st') :
    TotalInv (fun d => start (.global d)) excess st' := by
  cases hstep with
  | append entry hadd => exact h.of_pg rfl fun _ htx => htx
  | createLink hcreate =>
    -- links do not enter into the total, so the merge sees what it saw
    obtain ⟨-, hpg⟩ := Postgres.createLink_ok hcreate
    refine ⟨by rw [hpg]; exact h.total, fun d => by rw [hpg]; exact h.floor d, fun tx htx => ?_⟩
    have hmerge := h.merge tx htx
    obtain ⟨-, hview, -⟩ := (hinv.frame tx htx).view_createLink hcreate
    rw [hview]
    exact hmerge.congr rfl rfl rfl (hmerge.read.congr rfl)
  | deleteLink hfree hdelete =>
    obtain hpg : _ = st.pg.withoutLink _ := Postgres.deleteLink_ok hdelete
    refine ⟨by rw [hpg]; exact h.total, fun d => by rw [hpg]; exact h.floor d, fun tx htx => ?_⟩
    have hmerge := h.merge tx htx
    obtain ⟨hview, -⟩ :=
      (hinv.frame tx htx).view_deleteLink hdelete (WriterState.merging_free hfree htx)
    rw [hview]
    exact hmerge.congr rfl rfl rfl (hmerge.read.congr rfl)
  | createFails => exact h
  | deleteFails => exact h
  | loseData => exact h.of_pg rfl fun _ htx => htx
  | readStream cancelled hphase hread =>
    exact h.of_pg rfl fun tx htx => by cases cancelled <;> cases htx
  | assemble hphase hs =>
    -- a merge begins on the tables as they are
    refine ⟨h.total, h.floor, fun tx htx => ?_⟩
    obtain rfl := WriterPhase.eq_begin htx
    exact MergeTotal.begin h.total h.floor _
  | exec hphase hexec =>
    -- the delta of the merge fits, since all of it was recorded since the start
    refine ⟨h.total, h.floor, fun tx htx => ?_⟩
    obtain rfl := WriterPhase.merging.inj htx
    obtain ⟨hexecuted, hsnapshot, -⟩ := MergeTx.executed_of_exec (hinv.frame _ hphase) hexec
    have hmerge := h.merge _ hphase
    have hnonneg := RedisSnapshot.nonNegative_of_counts fun b n hn =>
      (hinv.within b n (.phase (by rw [hphase]; exact .captured hn))).1
    have hgrowth := hinv.globalGrowth_le hfit hevents hphase hmerge.floor
    rw [hsnapshot]
    refine hexecuted.total hnonneg (fun d => ?_) hgrowth hmerge
    exact (hfit (.global d)).1.trans (hmerge.floor d)
  | commit connected hphase hstage horder =>
    -- at the commit nothing is pending, so the account is the one of the tables
    have hmerge := h.merge _ hphase
    refine ⟨?_, hmerge.floor, fun tx htx => by cases htx⟩
    have htotal := hmerge.total
    rw [hstage] at htotal
    exact (add_zero _).symm.trans htotal
  | commitApplied hphase hstage =>
    have hmerge := h.merge _ hphase
    refine ⟨?_, hmerge.floor, fun tx htx => by cases htx⟩
    have htotal := hmerge.total
    rw [hstage] at htotal
    exact (add_zero _).symm.trans htotal
  | _ => exact h.of_pg rfl fun tx htx => by cases htx

end TotalInv

end Steps

end Kurl
