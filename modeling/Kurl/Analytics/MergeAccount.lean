import Kurl.Analytics.MergeJoin
import Kurl.Analytics.MergeStep

/-!
# Kurl — the account of a running merge

Two sums a merge keeps: the total is the sum of the global daily rows, and the click count of a link
is the sum of its daily rows. Between the upsert of the rows and the statement that pays in their
growth, the difference is in a local variable (`pendingTotal`, `pendingDelta`). No statement changes
the difference of count, sum and what is pending, if the upsert finds the rows as they were read
(`Executed.untracked`, `Executed.clickCount`).

Whether it does is a matter of locks. `LockedRead` says that the rows a merge has read and found are
locked, and every statement keeps it (`MergeTx.lockedRead_exec`); rows that were not there are not
covered, and that gap is where the modules on concurrent creations and on two merges have to ask for
more.
-/

namespace Kurl

open Lib

/-- The clicks of the total that no daily row holds. -/
def Postgres.untracked (pg : Postgres) : Int := pg.totalClicks - pg.globalDailyClicks.sum

/-- The delta that a merge is about to add to the total. -/
def MergeStage.pendingTotal : MergeStage → Int
  | .updateTotal delta => delta
  | _ => 0

/-- The delta that a merge is about to add to the click count of a code. -/
def MergeStage.pendingDelta : MergeStage → String → Int
  | .updateLinks deltas, code => (assoc deltas code).elim 0 Postgres.LinkDelta.delta
  | _, _ => 0

theorem pendingTotal_linksStage (s : RedisSnapshot) : (MergeTx.linksStage s).pendingTotal = 0 := by
  unfold MergeTx.linksStage
  split <;> rfl

theorem pendingDelta_linksStage (s : RedisSnapshot) :
    (MergeTx.linksStage s).pendingDelta = fun _ => 0 := by
  unfold MergeTx.linksStage
  split <;> rfl

section Statements

variable {s : RedisSnapshot} {pg pg' : Postgres} {o o' : MergeOutcome} {stage stage' : MergeStage}

/-- The upsert of the global rows leaves the maxima. -/
theorem globalDaily_of_upsert (hs : s.NonNegative) {existing daily : Table NaiveDate Int}
    (hearlier : ReadEarlier existing pg.globalDailyClicks)
    (hdaily : ∀ d, daily.get d =
      greatest (assoc (committedRows s.globalDaily existing) d) (pg.globalDailyClicks.get d)) :
    daily = pg.globalDailyClicks.mergeMax s.globalDaily := by
  ext1 d
  rw [hdaily, Table.get_mergeMax]
  exact greatest_committed hs.1 hearlier d

/-- The upsert of the daily rows leaves the maxima, for existing links. -/
theorem linkDaily_of_upsert (hs : s.NonNegative) {existing daily : Table (String × NaiveDate) Int}
    (hearlier : ReadEarlier existing pg.linkDailyClicks)
    (hdaily : ∀ k, daily.get k = if pg.linkExists k.1 then
        greatest (assoc (committedRows s.linkDaily existing) k) (pg.linkDailyClicks.get k)
      else pg.linkDailyClicks.get k) :
    daily = pg.linkDailyClicks.mergeMax (liveLinkDaily pg s) := by
  ext1 k
  rw [hdaily, Table.get_mergeMax, liveLinkDaily, HashMap.get_filterKeys]
  split
  · exact greatest_committed hs.2 hearlier k
  · rfl

/-- **The total.** -/
theorem Executed.untracked (h : Executed s pg o stage pg' stage' o') (hs : s.NonNegative)
    (hread : ∀ existing, stage = .upsertGlobal existing →
      ReadEarlier existing pg.globalDailyClicks ∧
        (∀ e ∈ s.globalDaily.entries, DeltaExact existing pg.globalDailyClicks e) ∧
        globalDeltaSum s existing ≤ i64Max) :
    pg'.untracked + stage'.pendingTotal = pg.untracked + stage.pendingTotal := by
  cases h with
  | upsertGlobal existing hdaily =>
    obtain ⟨hearlier, hexact, hfit⟩ := hread existing rfl
    have hgrow := globalGrowth_nonneg pg hs
    have hdelta : s.totalGlobalDelta existing = globalGrowth pg s := by
      rw [globalDeltaSum_eq hs hexact] at hfit
      rw [totalGlobalDelta_eq, globalDeltaSum_eq hs hexact]
      exact wrapI64_of_mem ⟨by unfold i64Min; omega, hfit⟩
    obtain rfl := globalDaily_of_upsert hs hearlier hdaily
    rw [hdelta]
    show pg.totalClicks - (pg.globalDailyClicks.mergeMax s.globalDaily).sum + _ =
      pg.totalClicks - pg.globalDailyClicks.sum + 0
    unfold globalGrowth at *
    split
    · show _ + ((pg.globalDailyClicks.mergeMax s.globalDaily).sum - pg.globalDailyClicks.sum) = _
      omega
    · rw [pendingTotal_linksStage]
      omega
  | @updateTotal delta hpos =>
    rw [pendingTotal_linksStage]
    show pg.totalClicks + delta - pg.globalDailyClicks.sum + 0 =
      pg.totalClicks - pg.globalDailyClicks.sum + delta
    omega
  | upsertLinks existing hdaily => split <;> rfl
  | selectGlobal hvisible => rfl
  | lockGlobal visible => rfl
  | selectLinks hvisible => rfl
  | lockLinks visible => rfl
  | updateLinks deltas => rfl
  | commit => rfl

/-- **The click counts.** -/
theorem Executed.clickCount (h : Executed s pg o stage pg' stage' o') (hs : s.NonNegative)
    (hread : ∀ existing, stage = .upsertLinks existing →
      ReadEarlier existing pg.linkDailyClicks ∧ ∀ c, pg.linkExists c = true →
        (∀ e ∈ s.linkDaily.entries, e.1.1 = c → DeltaExact existing pg.linkDailyClicks e) ∧
        linkDeltaSum s existing c ≤ i64Max)
    (hcount : ∀ c row, pg.links.get c = some row →
      row.clickCount + stage.pendingDelta c = pg.linkSum c) {c : String} {row : LinkRow}
    (hrow : pg'.links.get c = some row) :
    row.clickCount + stage'.pendingDelta c = pg'.linkSum c := by
  -- two statements move a side of the account: the upsert the rows, the update the counts
  cases h with
  | upsertLinks existing hdaily =>
    obtain ⟨hearlier, hlinks⟩ := hread existing rfl
    have hlink : pg.linkExists c = true := linkExists_of_get hrow
    obtain ⟨hexact, hfit⟩ := hlinks c hlink
    obtain rfl := linkDaily_of_upsert hs hearlier hdaily
    have hsum := linkDeltaSum_eq hs hlink hexact
    have hgrow := linkGrowth_nonneg pg hs c
    -- the commit of an empty update and the update itself promise the same
    have hpending : (if (s.deltaRows (s.linkDeltas existing)).isEmpty then MergeStage.commit
        else .updateLinks (s.deltaRows (s.linkDeltas existing))).pendingDelta c =
          linkGrowth pg s c := by
      have hdelta := delta_deltaRows s existing c
      rw [wrapI64_of_mem ⟨by unfold i64Min; omega, hfit⟩, hsum, max_eq_left hgrow] at hdelta
      rw [← hdelta]
      split
      · next hempty =>
        rw [List.isEmpty_iff.mp hempty]
        rfl
      · rfl
    have hbefore : row.clickCount + 0 = pg.linkSum c := hcount c row hrow
    rw [hpending]
    show row.clickCount + ((pg.linkDailyClicks.mergeMax (liveLinkDaily pg s)).sumWhere
      (fun k => k.1 = c) - pg.linkSum c) =
        (pg.linkDailyClicks.mergeMax (liveLinkDaily pg s)).sumWhere fun k => k.1 = c
    omega
  | updateLinks deltas =>
    -- what was pending is paid in
    change (pg.links.mapRows _).get c = some row at hrow
    rw [Table.get_mapRows] at hrow
    obtain ⟨old, hold, rfl⟩ := Option.map_eq_some_iff.mp hrow
    have hbefore : old.clickCount + (assoc deltas c).elim 0 Postgres.LinkDelta.delta =
      pg.linkSum c := hcount c old hold
    show (bumpRow old _).clickCount + 0 = pg.linkSum c
    rw [← hbefore, add_zero, clickCount_bumpRow]
  | upsertGlobal existing hdaily =>
    have hbefore := hcount c row hrow
    split
    · exact hbefore
    · rw [pendingDelta_linksStage]
      exact hbefore
  | updateTotal hpos =>
    rw [pendingDelta_linksStage]
    exact hcount c row hrow
  | selectGlobal hvisible => exact hcount c row hrow
  | lockGlobal visible => exact hcount c row hrow
  | selectLinks hvisible => exact hcount c row hrow
  | lockLinks visible => exact hcount c row hrow
  | commit => exact hcount c row hrow

end Statements

/-! ## What a merge has read and locked -/

/-- What a merge has read and locked is what it sees. -/
def LockedRead (pg : Postgres) (l : Locks) : MergeStage → Prop
  | .upsertGlobal existing => ∀ d v, existing.get d = some v →
    d ∈ l.globalDays ∧ pg.globalDailyClicks.get d = some v
  | .upsertLinks existing => ∀ k v, existing.get k = some v →
    k ∈ l.linkDays ∧ pg.linkDailyClicks.get k = some v
  | _ => True

theorem lockedRead_linksStage (pg : Postgres) (l : Locks) (s : RedisSnapshot) :
    LockedRead pg l (MergeTx.linksStage s) := by
  unfold MergeTx.linksStage
  split <;> trivial

/-- What a `select .. for update` reads it has locked. -/
theorem Executed.lockedRead {s : RedisSnapshot} {o o' : MergeOutcome} {pg' : Postgres}
    {stage stage' : MergeStage} {l : Locks} (h : Executed s pg o stage pg' stage' o')
    (hglobal : ∀ visible, stage = .lockGlobal visible → ∀ d ∈ visible, d ∈ l.globalDays)
    (hlinks : ∀ visible, stage = .lockLinks visible → ∀ k ∈ visible, k ∈ l.linkDays) :
    LockedRead pg' l stage' := by
  cases h with
  | lockGlobal visible =>
    intro d v hv
    rw [Postgres.selectGlobal, Table.get_filter] at hv
    split at hv
    · next hmem => exact ⟨hglobal visible rfl d (of_decide_eq_true hmem), hv⟩
    · cases hv
  | lockLinks visible =>
    intro k v hv
    rw [Postgres.selectLinks, Table.get_filter] at hv
    split at hv
    · next hmem => exact ⟨hlinks visible rfl k (of_decide_eq_true hmem), hv⟩
    · cases hv
  | upsertGlobal existing hdaily =>
    split
    · trivial
    · exact lockedRead_linksStage _ _ _
  | updateTotal hpos => exact lockedRead_linksStage _ _ _
  | upsertLinks existing hdaily => split <;> trivial
  | _ => trivial

theorem Locks.union_none (a : Locks) : a.union none = a := by
  simp [union, none]

/-- The locks after a statement. -/
theorem MergeTx.exec_locks {pg : Postgres} {tx tx' : MergeTx} (hexec : tx.exec pg = .ok tx') :
    tx'.locks = tx.locks.union (tx.needs pg) := by
  cases hstage : tx.stage with
  | selectGlobal =>
    obtain ⟨visible, -, hselect⟩ := MergeTx.exec_selectGlobal pg hstage
    obtain rfl := Except.ok.inj (hselect.symm.trans hexec)
    rfl
  | lockGlobal visible =>
    obtain rfl := Except.ok.inj ((MergeTx.exec_lockGlobal hstage).symm.trans hexec)
    rfl
  | upsertGlobal existing =>
    rw [MergeTx.exec_upsertGlobal hstage] at hexec
    obtain ⟨rows, -, rfl⟩ := exceptMap_eq_ok hexec
    rfl
  | updateTotal delta =>
    rw [MergeTx.exec_updateTotal hstage] at hexec
    obtain ⟨rows, -, rfl⟩ := exceptMap_eq_ok hexec
    rfl
  | selectLinks =>
    obtain ⟨visible, -, hselect⟩ := MergeTx.exec_selectLinks pg hstage
    obtain rfl := Except.ok.inj (hselect.symm.trans hexec)
    rfl
  | lockLinks visible =>
    obtain rfl := Except.ok.inj ((MergeTx.exec_lockLinks hstage).symm.trans hexec)
    rfl
  | upsertLinks existing =>
    rw [MergeTx.exec_upsertLinks hstage] at hexec
    obtain ⟨rows, -, rfl⟩ := exceptMap_eq_ok hexec
    rfl
  | updateLinks deltas =>
    rw [MergeTx.exec_updateLinks hstage] at hexec
    obtain ⟨rows, -, rfl⟩ := exceptMap_eq_ok hexec
    rfl
  | commit =>
    have heq : tx.exec pg = .ok tx := by simp only [MergeTx.exec, hstage]
    obtain rfl := Except.ok.inj (heq.symm.trans hexec)
    have hneeds : tx.needs pg = Locks.none := by simp only [MergeTx.needs, hstage]
    rw [hneeds, Locks.union_none]

theorem MergeTx.lockedRead_exec {pg : Postgres} {tx tx' : MergeTx} (h : TxFrame pg tx)
    (hexec : tx.exec pg = .ok tx') : LockedRead (tx'.view pg) tx'.locks tx'.stage := by
  obtain ⟨hexecuted, -, -⟩ := MergeTx.executed_of_exec h hexec
  rw [MergeTx.exec_locks hexec]
  refine hexecuted.lockedRead (fun visible hstage d hd => ?_) fun visible hstage k hk => ?_
  · refine List.mem_append_right _ ?_
    simpa only [MergeTx.needs, hstage] using hd
  · refine List.mem_append_right _ ?_
    simpa only [MergeTx.needs, hstage] using hk

end Kurl
