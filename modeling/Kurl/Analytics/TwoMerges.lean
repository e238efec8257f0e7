import Kurl.Analytics.MergeAccount
import Kurl.Lib.Machine

/-!
# Kurl — two merges at once

The advisory lock belongs to a database session, and a writer whose session is gone goes on until
its next use of it. So two `merge_snapshot` can run at once, statement by statement, with their row
locks and nothing else between them.

A row that is there when a merge reads it is locked from then on, and the other merge waits with its
upsert. A row that is not there cannot be locked. If the other merge inserts it and commits, this
one has read zero, and pays in once more what the other has already paid in
(`absent_row_counted_twice`). `FindsRead` is the condition under which an upsert finds what its
merge has read.

The argument for the other direction has three parts.

* **`MergeTx.exec_within`** — a statement writes only rows it locks, so two merges whose locks do
  not conflict write disjoint rows.
* **`SessionInv.exec`** — a merge whose upserts find what it has read keeps its account: the total
  and the click counts, with what it is still to pay in, are the sums of the daily rows.
* **`SessionInv.commit_other`** — the commit of the other merge moves the tables under this one, but
  not the rows it has locked, and so not its account.
-/

namespace Kurl

open Lib

/-! ## The machine -/

/-- The two sessions: one has the advisory lock, the other had it and has not noticed. -/
inductive Session where
  | first
  | second
  deriving DecidableEq

def Session.other : Session → Session
  | .first => .second
  | .second => .first

/-- The tables and the transactions of the two sessions. -/
structure MergesState where
  pg : Postgres
  merges : Session → Option MergeTx

/-- A session executes a statement, commits, or its transaction is rolled back. -/
inductive MergesAction where
  /-- The next statement; an error rolls the transaction back. -/
  | exec (session : Session)
  | commit (session : Session)
  | rollback (session : Session)

namespace MergesState

def locks (st : MergesState) (session : Session) : Locks :=
  (st.merges session).elim Locks.none MergeTx.locks

def setMerge (st : MergesState) (session : Session) (tx : Option MergeTx) : MergesState :=
  { st with merges := fun other => if other = session then tx else st.merges other }

def step (st : MergesState) : MergesAction → Option MergesState
  | .exec session =>
    match st.merges session with
    | none => none
    | some tx =>
      -- the statement waits for the row locks of the other transaction
      if (st.locks session.other).conflict (tx.needs st.pg) then none
      else match tx.exec st.pg with
        | .ok tx' => some (st.setMerge session (some tx'))
        | .error _ => some (st.setMerge session none)
  | .commit session =>
    match st.merges session with
    | none => none
    | some tx =>
      match tx.stage with
      | .commit => some { st.setMerge session none with pg := tx.view st.pg }
      | _ => none
  | .rollback session => some (st.setMerge session none)

end MergesState

def twoMerges : Machine MergesState MergesAction where
  step := MergesState.step

/-- Both transactions have begun. -/
def bothBegun (pg : Postgres) (s s' : RedisSnapshot) : MergesState where
  pg := pg
  merges
    | .first => some (MergeTx.begin s)
    | .second => some (MergeTx.begin s')

/-- The total is the sum of the global rows, and each click count that of the rows of its link. -/
structure Postgres.Balanced (pg : Postgres) : Prop where
  totalClicks : pg.totalClicks = pg.globalDailyClicks.sum
  clickCount : ∀ c row, pg.links.get c = some row → row.clickCount = pg.linkSum c

/-! ## The condition -/

/-- No count is upserted where a row has appeared since the merge read none. -/
def NoneSince {κ : Type} (incoming : HashMap κ Int) (existing t : Table κ Int) : Prop :=
  ∀ e ∈ incoming.entries, existing.get e.1 = none → e.2 = 0 ∨ t.val e.1 = 0

instance {κ : Type} (incoming : HashMap κ Int) (existing t : Table κ Int) :
    Decidable (NoneSince incoming existing t) :=
  inferInstanceAs (Decidable (∀ e ∈ incoming.entries, existing.get e.1 = none → _ ∨ _))

/-- An upsert of the merge finds what the merge has read, and its deltas fit in 64 bits. -/
def MergeTx.FindsRead (pg : Postgres) (tx : MergeTx) : Prop :=
  match tx.stage with
  | .upsertGlobal existing =>
    NoneSince tx.snapshot.globalDaily existing (tx.view pg).globalDailyClicks ∧
      globalDeltaSum tx.snapshot existing ≤ i64Max
  | .upsertLinks existing =>
    NoneSince tx.snapshot.linkDaily existing (tx.view pg).linkDailyClicks ∧
      ∀ c ∈ (tx.view pg).links.keys, linkDeltaSum tx.snapshot existing c ≤ i64Max
  | _ => True

instance (pg : Postgres) (tx : MergeTx) : Decidable (tx.FindsRead pg) :=
  match h : tx.stage with
  | .upsertGlobal existing => decidable_of_iff
      (NoneSince tx.snapshot.globalDaily existing (tx.view pg).globalDailyClicks ∧
        globalDeltaSum tx.snapshot existing ≤ i64Max) (by unfold MergeTx.FindsRead; rw [h])
  | .upsertLinks existing => decidable_of_iff
      (NoneSince tx.snapshot.linkDaily existing (tx.view pg).linkDailyClicks ∧
        ∀ c ∈ (tx.view pg).links.keys, linkDeltaSum tx.snapshot existing c ≤ i64Max)
      (by unfold MergeTx.FindsRead; rw [h])
  | .selectGlobal | .lockGlobal _ | .updateTotal _ | .selectLinks | .lockLinks _ | .updateLinks _
  | .commit => isTrue (by unfold MergeTx.FindsRead; rw [h]; trivial)

/-- A step that is no upsert over a row that has appeared. -/
def MergesState.FindsRead (st : MergesState) : MergesAction → Prop
  | .exec session => ∀ tx ∈ st.merges session, tx.FindsRead st.pg
  | _ => True

instance (st : MergesState) : DecidablePred st.FindsRead
  | .exec session => inferInstanceAs (Decidable (∀ tx ∈ st.merges session, tx.FindsRead st.pg))
  | .commit _ | .rollback _ => inferInstanceAs (Decidable True)

/-! ## Rows and locks -/

/-- Rows that are locked. -/
structure Writes.Within (w : Writes) (l : Locks) : Prop where
  globalDays : ∀ d, (w.globalDailyClicks.get d).isSome = true → d ∈ l.globalDays
  total : w.totalClicks.isSome = true → l.total = true
  linkDays : ∀ k, (w.linkDailyClicks.get k).isSome = true → k ∈ l.linkDays
  links : ∀ c, (w.links.get c).isSome = true → c ∈ l.links

theorem Writes.Within.empty (l : Locks) : Writes.empty.Within l where
  globalDays := fun _ h => by cases h
  total := fun h => by cases h
  linkDays := fun _ h => by cases h
  links := fun _ h => by cases h

theorem Writes.Within.overlay {w v : Writes} {l l' : Locks} (hw : w.Within l) (hv : v.Within l') :
    (w.overlay v).Within (l.union l') := by
  refine ⟨fun d hd => ?_, fun h => ?_, fun k hk => ?_, fun c hc => ?_⟩
  · change ((v.globalDailyClicks.get d).or (w.globalDailyClicks.get d)).isSome = true at hd
    rw [Option.isSome_or, Bool.or_eq_true] at hd
    exact List.mem_append.mpr (hd.symm.imp (hw.globalDays d) (hv.globalDays d))
  · change (v.totalClicks.or w.totalClicks).isSome = true at h
    rw [Option.isSome_or, Bool.or_eq_true] at h
    exact Bool.or_eq_true_iff.mpr (h.symm.imp hw.total hv.total)
  · change ((v.linkDailyClicks.get k).or (w.linkDailyClicks.get k)).isSome = true at hk
    rw [Option.isSome_or, Bool.or_eq_true] at hk
    exact List.mem_append.mpr (hk.symm.imp (hw.linkDays k) (hv.linkDays k))
  · change ((v.links.get c).or (w.links.get c)).isSome = true at hc
    rw [Option.isSome_or, Bool.or_eq_true] at hc
    exact List.mem_append.mpr (hc.symm.imp (hw.links c) (hv.links c))

namespace Locks

variable {a b c : Locks}

theorem conflict_eq_false : a.conflict b = false ↔
    (∀ d ∈ a.globalDays, d ∉ b.globalDays) ∧ ¬ (a.total = true ∧ b.total = true) ∧
      (∀ k ∈ a.linkDays, k ∉ b.linkDays) ∧ ∀ c ∈ a.links, c ∉ b.links := by
  simp only [conflict, Bool.or_eq_false_iff, List.any_eq_false, decide_eq_true_eq,
    Bool.and_eq_false_iff, not_and_or, Bool.not_eq_true]
  tauto

theorem conflict_comm : a.conflict b = false ↔ b.conflict a = false := by
  rw [conflict_eq_false, conflict_eq_false]
  constructor
  · rintro ⟨hdays, htotal, hlinkDays, hlinks⟩
    exact ⟨fun d hd hd' => hdays d hd' hd, fun h => htotal h.symm,
      fun k hk hk' => hlinkDays k hk' hk, fun c hc hc' => hlinks c hc' hc⟩
  · rintro ⟨hdays, htotal, hlinkDays, hlinks⟩
    exact ⟨fun d hd hd' => hdays d hd' hd, fun h => htotal h.symm,
      fun k hk hk' => hlinkDays k hk' hk, fun c hc hc' => hlinks c hc' hc⟩

theorem conflict_union (hb : a.conflict b = false) (hc : a.conflict c = false) :
    a.conflict (b.union c) = false := by
  rw [conflict_eq_false] at *
  refine ⟨fun d hd hmem => ?_, fun h => ?_, fun k hk hmem => ?_, fun l hl hmem => ?_⟩
  · exact (List.mem_append.mp hmem).elim (hb.1 d hd) (hc.1 d hd)
  · exact (Bool.or_eq_true_iff.mp h.2).elim (fun hb' => hb.2.1 ⟨h.1, hb'⟩)
      fun hc' => hc.2.1 ⟨h.1, hc'⟩
  · exact (List.mem_append.mp hmem).elim (hb.2.2.1 k hk) (hc.2.2.1 k hk)
  · exact (List.mem_append.mp hmem).elim (hb.2.2.2 l hl) (hc.2.2.2 l hl)

theorem none_conflict (b : Locks) : none.conflict b = false :=
  conflict_eq_false.mpr ⟨fun _ hd => (by cases hd), fun h => (by cases h.1),
    fun _ hk => (by cases hk), fun _ hc => (by cases hc)⟩

end Locks

/-- The upsert of rows writes rows of those keys. -/
theorem isSome_upsertRows {κ : Type} [DecidableEq κ] {t : Table κ Int} {rows : List (κ × Int)}
    (hnodup : (rows.map Prod.fst).Nodup) {k : κ}
    (h : ((t.upsertRows rows).get k).isSome = true) : k ∈ rows.map Prod.fst := by
  rw [Table.get_upsertRows _ hnodup, Option.isSome_map] at h
  obtain ⟨n, hn⟩ := Option.isSome_iff_exists.mp h
  exact List.mem_map_of_mem (mem_of_assoc hn)

/-- **A statement writes only rows it locks.** -/
theorem MergeTx.exec_within {pg : Postgres} {tx tx' : MergeTx} (h : tx.writes.Within tx.locks)
    (hexec : tx.exec pg = .ok tx') : tx'.writes.Within tx'.locks := by
  have hadvance : ∀ {rows stage outcome}, rows.Within (tx.needs pg) →
      (tx.advance pg rows stage outcome).writes.Within (tx.advance pg rows stage outcome).locks :=
    fun hrows => h.overlay hrows
  -- by statement: the reads write nothing, and the rows of the others are those that
  -- `MergeTx.needs` lists for the stage
  cases hstage : tx.stage with
  | selectGlobal =>
    obtain ⟨visible, -, hselect⟩ := MergeTx.exec_selectGlobal pg hstage
    obtain rfl := Except.ok.inj (hselect.symm.trans hexec)
    exact hadvance (Writes.Within.empty _)
  | lockGlobal visible =>
    obtain rfl := Except.ok.inj ((MergeTx.exec_lockGlobal hstage).symm.trans hexec)
    exact hadvance (Writes.Within.empty _)
  | upsertGlobal existing =>
    rw [MergeTx.exec_upsertGlobal hstage] at hexec
    obtain ⟨rows, hrows, rfl⟩ := exceptMap_eq_ok hexec
    refine hadvance ?_
    unfold Postgres.upsertGlobal at hrows
    split at hrows
    · cases hrows
    · obtain rfl := Except.ok.inj hrows
      refine { Writes.Within.empty _ with globalDays := fun d hd => ?_ }
      -- the upsert is keyed by the days of the snapshot, which are the locked ones
      have hmem := isSome_upsertRows (nodup_committedRows _ _) hd
      rw [keys_committedRows] at hmem
      simpa only [MergeTx.needs, hstage] using hmem
  | updateTotal delta =>
    rw [MergeTx.exec_updateTotal hstage] at hexec
    obtain ⟨rows, hrows, rfl⟩ := exceptMap_eq_ok hexec
    refine hadvance ?_
    unfold Postgres.updateTotal at hrows
    split at hrows
    · split at hrows
      · cases hrows
      · obtain rfl := Except.ok.inj hrows
        exact { Writes.Within.empty _ with total := fun _ => by simp only [MergeTx.needs, hstage] }
    · cases hrows
  | selectLinks =>
    obtain ⟨visible, -, hselect⟩ := MergeTx.exec_selectLinks pg hstage
    obtain rfl := Except.ok.inj (hselect.symm.trans hexec)
    exact hadvance (Writes.Within.empty _)
  | lockLinks visible =>
    obtain rfl := Except.ok.inj ((MergeTx.exec_lockLinks hstage).symm.trans hexec)
    exact hadvance (Writes.Within.empty _)
  | upsertLinks existing =>
    rw [MergeTx.exec_upsertLinks hstage] at hexec
    obtain ⟨rows, hrows, rfl⟩ := exceptMap_eq_ok hexec
    refine hadvance ?_
    unfold Postgres.upsertLinks at hrows
    simp only at hrows
    split at hrows
    · cases hrows
    · obtain rfl := Except.ok.inj hrows
      refine { Writes.Within.empty _ with linkDays := fun k hk => ?_ }
      -- likewise, less the codes without a link, which the `INSERT` leaves out
      have hmem := isSome_upsertRows
        ((nodup_committedRows _ _).sublist (List.filter_sublist.map _)) hk
      obtain ⟨e, he, rfl⟩ := List.mem_map.mp hmem
      obtain ⟨hrow, hlink⟩ := List.mem_filter.mp he
      have hkey : e.1 ∈ tx.snapshot.linkDaily.keys := by
        rw [← keys_committedRows tx.snapshot.linkDaily existing]
        exact List.mem_map_of_mem hrow
      simp only [MergeTx.needs, hstage]
      exact List.mem_filter.mpr ⟨hkey, hlink⟩
  | updateLinks deltas =>
    rw [MergeTx.exec_updateLinks hstage] at hexec
    obtain ⟨rows, hrows, rfl⟩ := exceptMap_eq_ok hexec
    obtain ⟨hrest, hlinks⟩ := updateLinks_writes hrows
    refine hadvance ?_
    rw [hrest]
    refine { Writes.Within.empty _ with links := fun c hc => ?_ }
    obtain ⟨hmem, hlink⟩ := hlinks c hc
    simp only [MergeTx.needs, hstage]
    exact List.mem_filter.mpr ⟨hmem, hlink⟩
  | commit =>
    have heq : tx.exec pg = .ok tx := by simp only [MergeTx.exec, hstage]
    obtain rfl := Except.ok.inj (heq.symm.trans hexec)
    exact h

/-! ## The invariant -/

/-- The daily rows are counts, as the checks of the tables say. -/
structure Postgres.Counts (pg : Postgres) : Prop where
  globalDaily : ∀ d, 0 ≤ pg.globalDailyClicks.val d
  linkDaily : ∀ k, 0 ≤ pg.linkDailyClicks.val k

/-- A running merge keeps its account. -/
structure SessionInv (pg : Postgres) (tx : MergeTx) : Prop where
  frame : TxFrame pg tx
  within : tx.writes.Within tx.locks
  snapshot : tx.snapshot.NonNegative
  counts : (tx.view pg).Counts
  read : LockedRead (tx.view pg) tx.locks tx.stage
  total : (tx.view pg).untracked + tx.stage.pendingTotal = 0
  clickCount : ∀ c row, (tx.view pg).links.get c = some row →
    row.clickCount + tx.stage.pendingDelta c = (tx.view pg).linkSum c

/-- The tables balance, each running merge keeps its account, and the locks of the two are apart. -/
structure MergesInv (st : MergesState) : Prop where
  balanced : st.pg.Balanced
  counts : st.pg.Counts
  session : ∀ session tx, st.merges session = some tx → SessionInv st.pg tx
  apart : ∀ session, (st.locks session).conflict (st.locks session.other) = false

/-! ### A statement -/

section Statement

variable {pg : Postgres} {tx tx' : MergeTx}

/-- What was read under locks has not moved, and what was not there has not come. -/
theorem deltaExact_of_locked {κ : Type} {incoming : HashMap κ Int} {existing t : Table κ Int}
    (ht : ∀ k, 0 ≤ t.val k) (hread : ∀ k v, existing.get k = some v → t.get k = some v)
    (hnone : NoneSince incoming existing t) :
    ReadEarlier existing t ∧ ∀ e ∈ incoming.entries, DeltaExact existing t e := by
  refine ⟨fun k => ?_, fun e he => ?_⟩
  · cases hget : existing.get k with
    | none => exact ⟨(Table.val_of_none hget).ge, (Table.val_of_none hget).trans_le (ht k)⟩
    | some v =>
      have hval := Table.val_of_get (hread k v hget)
      rw [Table.val_of_get hget, ← hval]
      exact ⟨ht k, le_refl _⟩
  · cases hget : existing.get e.1 with
    | some v =>
      exact .of_val ((Table.val_of_get hget).trans (Table.val_of_get (hread e.1 v hget)).symm)
    | none =>
      have hzero := Table.val_of_none hget
      rcases hnone e he hget with hincoming | habsent
      · have hnonneg := ht e.1
        unfold DeltaExact
        rw [hzero, hincoming]
        omega
      · exact .of_val (hzero.trans habsent.symm)

/-- What a merge sees after a statement is counts. -/
theorem Executed.counts {s : RedisSnapshot} {o o' : MergeOutcome} {pg' : Postgres}
    {stage stage' : MergeStage} (h : Executed s pg o stage pg' stage' o') (hpg : pg.Counts)
    (hs : s.NonNegative) : pg'.Counts := by
  -- an upsert leaves a row as it was, or the greater of two counts
  have hgreatest : ∀ {a b : Option Int}, (∀ v, a = some v → 0 ≤ v) → 0 ≤ b.getD 0 →
      0 ≤ (greatest a b).getD 0 := by
    intro a b ha hb
    cases a with
    | none => exact hb
    | some v =>
      cases b with
      | none => exact ha v rfl
      | some w => exact (ha v rfl).trans (le_max_left v w)
  have hcommitted : ∀ {κ : Type} [DecidableEq κ] {m : HashMap κ Int} {existing : Table κ Int}
      {k : κ} {v : Int}, (∀ e ∈ m.entries, 0 ≤ e.2) →
      assoc (committedRows m existing) k = some v → 0 ≤ v := by
    intro κ _ m existing k v hm hv
    rw [assoc_committedRows] at hv
    obtain ⟨n, hn, rfl⟩ := Option.map_eq_some_iff.mp hv
    exact (hm _ (m.get_eq_some_iff.mp hn)).trans (le_max_right _ n)
  cases h with
  | upsertGlobal existing hdaily =>
    refine ⟨fun d => ?_, hpg.linkDaily⟩
    show 0 ≤ (Table.get _ d).getD 0
    rw [hdaily]
    exact hgreatest (fun v hv => hcommitted hs.1 hv) (hpg.globalDaily d)
  | upsertLinks existing hdaily =>
    refine ⟨hpg.globalDaily, fun k => ?_⟩
    show 0 ≤ (Table.get _ k).getD 0
    rw [hdaily]
    split
    · exact hgreatest (fun v hv => hcommitted hs.2 hv) (hpg.linkDaily k)
    · exact hpg.linkDaily k
  | _ => exact ⟨hpg.globalDaily, hpg.linkDaily⟩

/-- **A statement that finds what its merge has read** keeps the account. -/
theorem SessionInv.exec (h : SessionInv pg tx) (hfinds : tx.FindsRead pg)
    (hexec : tx.exec pg = .ok tx') : SessionInv pg tx' := by
  obtain ⟨hexecuted, hsnapshot, hframe⟩ := MergeTx.executed_of_exec h.frame hexec
  have hread := h.read
  unfold MergeTx.FindsRead at hfinds
  refine ⟨hframe, MergeTx.exec_within h.within hexec, hsnapshot ▸ h.snapshot,
    hexecuted.counts h.counts h.snapshot, MergeTx.lockedRead_exec h.frame hexec, ?_, ?_⟩
  · refine (hexecuted.untracked h.snapshot fun existing hstage => ?_).trans h.total
    rw [hstage] at hread hfinds
    obtain ⟨hearlier, hexact⟩ := deltaExact_of_locked h.counts.globalDaily
      (fun d v hv => (hread d v hv).2) hfinds.1
    exact ⟨hearlier, hexact, hfinds.2⟩
  · intro c row hrow
    refine hexecuted.clickCount h.snapshot (fun existing hstage => ?_) h.clickCount hrow
    rw [hstage] at hread hfinds
    obtain ⟨hearlier, hexact⟩ := deltaExact_of_locked h.counts.linkDaily
      (fun k v hv => (hread k v hv).2) hfinds.1
    refine ⟨hearlier, fun c hlink => ⟨fun e he _ => hexact e he, hfinds.2 c ?_⟩⟩
    exact ((tx.view pg).links.mem_keys c).mpr hlink

end Statement

/-! ### The commit of the other merge -/

section Commit

variable {pg : Postgres} {tx tx' : MergeTx}

/-- What a merge that is about to commit leaves is balanced. -/
theorem SessionInv.balanced (h : SessionInv pg tx) (hstage : tx.stage = .commit) :
    (tx.view pg).Balanced := by
  have htotal := h.total
  have hcount := h.clickCount
  rw [hstage] at htotal hcount
  refine ⟨?_, fun c row hrow => (add_zero _).symm.trans (hcount c row hrow)⟩
  have hbalance : (tx.view pg).totalClicks - (tx.view pg).globalDailyClicks.sum + 0 = 0 := htotal
  omega

/-- The commit of a merge leaves the rows another has locked. -/
theorem get_view_of_locked {κ ν : Type} [DecidableEq κ] {w t : Table κ ν} {k : κ} {l l' : List κ}
    (hw : (w.get k).isSome = true → k ∈ l) (hk : k ∈ l') (hapart : ∀ k ∈ l', k ∉ l) :
    (t.overlay w).get k = t.get k := by
  have hnone : w.get k = none := by
    cases hget : w.get k with
    | none => rfl
    | some v => exact absurd (hw (by rw [hget]; rfl)) (hapart k hk)
  rw [Table.get_overlay, hnone]
  rfl

/-- The tables differ in no row that these locks are on, nor in which links there are. -/
structure Locks.Keep (locks : Locks) (pg pg' : Postgres) : Prop where
  globalDays : ∀ d ∈ locks.globalDays, pg'.globalDailyClicks.get d = pg.globalDailyClicks.get d
  total : locks.total = true → pg'.totalClicks = pg.totalClicks
  linkDays : ∀ k ∈ locks.linkDays, pg'.linkDailyClicks.get k = pg.linkDailyClicks.get k
  links : ∀ c ∈ locks.links, pg'.links.get c = pg.links.get c
  linkExists : ∀ c, pg'.linkExists c = pg.linkExists c

/-- The rows a merge has locked are the same after the commit of the other. -/
theorem SessionInv.keep (hother : SessionInv pg tx) (hapart : tx'.locks.conflict tx.locks = false) :
    tx'.locks.Keep pg (tx.view pg) := by
  obtain ⟨hdays, htotals, hlinkDays, hlinks⟩ := Locks.conflict_eq_false.mp hapart
  refine ⟨fun d hd => get_view_of_locked (hother.within.globalDays d) hd hdays, fun htotal => ?_,
    fun k hk => get_view_of_locked (hother.within.linkDays k) hk hlinkDays,
    fun c hc => get_view_of_locked (hother.within.links c) hc hlinks, hother.frame.linkExists⟩
  -- this merge holds the row of the total, so the other one has not written it
  have hnone : tx.writes.totalClicks = none := by
    cases hwritten : tx.writes.totalClicks with
    | none => rfl
    | some m => exact absurd ⟨htotal, hother.within.total (by rw [hwritten]; rfl)⟩ htotals
  show tx.writes.totalClicks.getD pg.totalClicks = pg.totalClicks
  rw [hnone]
  rfl

/-- A row of this merge is a count as before, and the others are counts in the new tables. -/
theorem SessionInv.counts_of_counts (h : SessionInv pg tx) {pg' : Postgres} (hpg' : pg'.Counts) :
    (tx.view pg').Counts := by
  refine ⟨fun d => ?_, fun k => ?_⟩
  · have hmine := h.counts.globalDaily d
    show 0 ≤ ((tx.writes.globalDailyClicks.get d).or _).getD 0
    cases hget : tx.writes.globalDailyClicks.get d with
    | none => exact hpg'.globalDaily d
    | some v =>
      change 0 ≤ ((tx.writes.globalDailyClicks.get d).or _).getD 0 at hmine
      rwa [hget] at hmine
  · have hmine := h.counts.linkDaily k
    show 0 ≤ ((tx.writes.linkDailyClicks.get k).or _).getD 0
    cases hget : tx.writes.linkDailyClicks.get k with
    | none => exact hpg'.linkDaily k
    | some v =>
      change 0 ≤ ((tx.writes.linkDailyClicks.get k).or _).getD 0 at hmine
      rwa [hget] at hmine

/-- What a merge has read under its locks has not moved. -/
theorem SessionInv.lockedRead_of_keep (h : SessionInv pg tx) {pg' : Postgres}
    (hkeep : tx.locks.Keep pg pg') : LockedRead (tx.view pg') tx.locks tx.stage := by
  have hread := h.read
  cases hstage : tx.stage with
  | upsertGlobal existing =>
    rw [hstage] at hread
    intro d v hv
    obtain ⟨hmem, hsees⟩ := hread d v hv
    refine ⟨hmem, ?_⟩
    show (tx.writes.globalDailyClicks.get d).or (pg'.globalDailyClicks.get d) = some v
    rw [hkeep.globalDays d hmem]
    exact hsees
  | upsertLinks existing =>
    rw [hstage] at hread
    intro k v hv
    obtain ⟨hmem, hsees⟩ := hread k v hv
    refine ⟨hmem, ?_⟩
    show (tx.writes.linkDailyClicks.get k).or (pg'.linkDailyClicks.get k) = some v
    rw [hkeep.linkDays k hmem]
    exact hsees
  | _ => trivial

/-- The account of the total: what this merge adds to the sum of the rows is the same on both
tables, and both balance. -/
theorem SessionInv.total_of_keep (h : SessionInv pg tx) (hbalanced : pg.Balanced) {pg' : Postgres}
    (hbalanced' : pg'.Balanced) (hkeep : tx.locks.Keep pg pg') :
    (tx.view pg').untracked + tx.stage.pendingTotal = 0 := by
  have hsum := Table.sumWhere_overlay_sub (w := tx.writes.globalDailyClicks) (fun _ => True)
    fun d hd => congrArg (Option.getD · 0) (hkeep.globalDays d (h.within.globalDays d hd))
  have hmine : tx.writes.totalClicks.getD pg.totalClicks -
      (pg.globalDailyClicks.overlay tx.writes.globalDailyClicks).sum +
        tx.stage.pendingTotal = 0 := h.total
  have hold := hbalanced.totalClicks
  have hnew := hbalanced'.totalClicks
  show tx.writes.totalClicks.getD pg'.totalClicks -
    (pg'.globalDailyClicks.overlay tx.writes.globalDailyClicks).sum + tx.stage.pendingTotal = 0
  unfold Table.sum at *
  cases hwritten : tx.writes.totalClicks with
  | none =>
    rw [hwritten] at hmine
    change pg.totalClicks - _ + _ = 0 at hmine
    show pg'.totalClicks - _ + _ = 0
    omega
  | some n =>
    have hsame := hkeep.total (h.within.total (by rw [hwritten]; rfl))
    rw [hwritten] at hmine
    change n - _ + _ = 0 at hmine
    show n - _ + _ = 0
    omega

/-- The account of a link, likewise. -/
theorem SessionInv.clickCount_of_keep (h : SessionInv pg tx) (hbalanced : pg.Balanced)
    {pg' : Postgres} (hbalanced' : pg'.Balanced) (hkeep : tx.locks.Keep pg pg') {c : String}
    {row : LinkRow} (hrow : (tx.view pg').links.get c = some row) :
    row.clickCount + tx.stage.pendingDelta c = (tx.view pg').linkSum c := by
  have hsum := Table.sumWhere_overlay_sub (w := tx.writes.linkDailyClicks) (fun k => k.1 = c)
    fun k hk => congrArg (Option.getD · 0) (hkeep.linkDays k (h.within.linkDays k hk))
  have hmove : (tx.view pg').linkSum c - pg'.linkSum c = (tx.view pg).linkSum c - pg.linkSum c := hsum
  change (tx.writes.links.get c).or (pg'.links.get c) = some row at hrow
  cases hwritten : tx.writes.links.get c with
  | some written =>
    -- this merge holds the row of the link, which is the same in both
    rw [hwritten] at hrow
    obtain rfl := Option.some.inj hrow
    obtain ⟨hmem, hlink⟩ := h.frame.links c (by rw [hwritten]; rfl)
    obtain ⟨old, hold⟩ := Option.isSome_iff_exists.mp hlink
    have hmine := h.clickCount c written (by
      show (tx.writes.links.get c).or (pg.links.get c) = some written
      rw [hwritten]
      rfl)
    have hbefore := hbalanced.clickCount c old hold
    have hafter := hbalanced'.clickCount c old ((hkeep.links c hmem).trans hold)
    omega
  | none =>
    rw [hwritten] at hrow
    obtain ⟨old, hold⟩ := Option.isSome_iff_exists.mp
      ((hkeep.linkExists c).symm.trans (linkExists_of_get
        (show pg'.links.get c = some row from hrow)))
    have hmine := h.clickCount c old (by
      show (tx.writes.links.get c).or (pg.links.get c) = some old
      rw [hwritten]
      exact hold)
    have hbefore := hbalanced.clickCount c old hold
    have hafter := hbalanced'.clickCount c row hrow
    omega

/-- **The other merge commits.** The rows it writes are not among those this one has locked, so
the account of this one moves with the tables. -/
theorem SessionInv.commit_other (h : SessionInv pg tx') (hother : SessionInv pg tx)
    (hstage : tx.stage = .commit) (hbalanced : pg.Balanced)
    (hapart : tx'.locks.conflict tx.locks = false) : SessionInv (tx.view pg) tx' := by
  have hkeep := hother.keep hapart
  have hbalanced' := hother.balanced hstage
  refine ⟨?_, h.within, h.snapshot, h.counts_of_counts hother.counts, h.lockedRead_of_keep hkeep,
    h.total_of_keep hbalanced hbalanced' hkeep,
    fun c row hrow => h.clickCount_of_keep hbalanced hbalanced' hkeep hrow⟩
  -- the frame: a link exists after the commit if it did before
  exact ⟨fun c hc => (h.frame.links c hc).imp_right fun hlink => (hkeep.linkExists c).trans hlink,
    fun k hk => (h.frame.linkDaily k hk).imp_right fun hlink => (hkeep.linkExists k.1).trans hlink,
    h.frame.nodup⟩

end Commit

/-! ## Runs -/

namespace MergesInv

variable {st st' : MergesState} {a : MergesAction}

theorem locks_setMerge (st : MergesState) (session other : Session) (tx : Option MergeTx) :
    (st.setMerge session tx).locks other =
      if other = session then tx.elim Locks.none MergeTx.locks else st.locks other := by
  unfold MergesState.locks MergesState.setMerge
  simp only
  split <;> rfl

/-- A session whose transaction is over. -/
theorem ended (h : MergesInv st) (session : Session) : MergesInv (st.setMerge session none) := by
  refine ⟨h.balanced, h.counts, fun other tx htx => ?_, fun other => ?_⟩
  · change (if other = session then none else st.merges other) = some tx at htx
    split at htx
    · cases htx
    · exact h.session other tx htx
  · rw [locks_setMerge, locks_setMerge]
    split
    · exact Locks.none_conflict _
    · split
      · exact Locks.conflict_comm.mp (Locks.none_conflict _)
      · exact h.apart other

/-- A statement of a session that does not wait. -/
theorem exec (h : MergesInv st) {session : Session} {tx tx' : MergeTx}
    (htx : st.merges session = some tx) (hfinds : tx.FindsRead st.pg)
    (hfree : (st.locks session.other).conflict (tx.needs st.pg) = false)
    (hexec : tx.exec st.pg = .ok tx') : MergesInv (st.setMerge session (some tx')) := by
  have hinv := h.session session tx htx
  have hlocks := MergeTx.exec_locks hexec
  have hold : st.locks session = tx.locks := by
    unfold MergesState.locks
    rw [htx]
    rfl
  -- the locks of the statement are free, and so were those held before
  have hapart : (st.locks session.other).conflict tx'.locks = false := by
    rw [hlocks]
    refine Locks.conflict_union ?_ hfree
    rw [← hold]
    exact Locks.conflict_comm.mp (h.apart session)
  refine ⟨h.balanced, h.counts, fun other tx₁ htx₁ => ?_, fun other => ?_⟩
  · -- the session that moved has its statement; the other one is as before
    change (if other = session then some tx' else st.merges other) = some tx₁ at htx₁
    split at htx₁
    · obtain rfl := Option.some.inj htx₁
      exact hinv.exec hfinds hexec
    · exact h.session other tx₁ htx₁
  · -- the locks of the two stay apart
    rw [locks_setMerge, locks_setMerge]
    cases session <;> cases other
    · exact Locks.conflict_comm.mp hapart
    · exact hapart
    · exact hapart
    · exact Locks.conflict_comm.mp hapart

/-- A session commits. -/
theorem commit (h : MergesInv st) {session : Session} {tx : MergeTx}
    (htx : st.merges session = some tx) (hstage : tx.stage = .commit) :
    MergesInv { st.setMerge session none with pg := tx.view st.pg } := by
  have hinv := h.session session tx htx
  have hended := h.ended session
  refine ⟨hinv.balanced hstage, hinv.counts, fun other tx' htx' => ?_, hended.apart⟩
  change (if other = session then none else st.merges other) = some tx' at htx'
  split at htx'
  · cases htx'
  · next hne =>
    have hother : other.other = session := by
      cases other <;> cases session <;> first | rfl | exact absurd rfl hne
    have hapart := h.apart other
    rw [hother] at hapart
    unfold MergesState.locks at hapart
    rw [htx, htx'] at hapart
    exact (h.session other tx' htx').commit_other hinv hstage h.balanced hapart

/-- **Step lemma.** A statement, a commit or a rollback of one session, by the lemmas above; the
other session keeps its account in each case. -/
theorem step (h : MergesInv st) (hfinds : st.FindsRead a)
    (hstep : twoMerges.step st a = some st') : MergesInv st' := by
  change st.step a = some st' at hstep
  cases a with
  | exec session =>
    cases htx : st.merges session with
    | none => simp [MergesState.step, htx] at hstep
    | some tx =>
      simp only [MergesState.step, htx] at hstep
      split at hstep
      · cases hstep
      · next hfree =>
        split at hstep
        · next tx' hexec =>
          obtain rfl := Option.some.inj hstep
          exact h.exec htx (hfinds tx htx) (by simpa using hfree) hexec
        · obtain rfl := Option.some.inj hstep
          exact h.ended session
  | commit session =>
    cases htx : st.merges session with
    | none => simp [MergesState.step, htx] at hstep
    | some tx =>
      simp only [MergesState.step, htx] at hstep
      split at hstep
      · next hstage =>
        obtain rfl := Option.some.inj hstep
        exact h.commit htx hstage
      · cases hstep
  | rollback session =>
    obtain rfl := Option.some.inj hstep
    exact h.ended session

theorem bothBegun {pg : Postgres} {s s' : RedisSnapshot} (hpg : pg.Balanced) (hcounts : pg.Counts)
    (hs : s.NonNegative) (hs' : s'.NonNegative) : MergesInv (bothBegun pg s s') := by
  have hbegin : ∀ s : RedisSnapshot, s.NonNegative → SessionInv pg (MergeTx.begin s) := by
    intro s hs
    have htotal : pg.totalClicks - pg.globalDailyClicks.sum + 0 = 0 := by
      have hbalance := hpg.totalClicks
      omega
    refine ⟨TxFrame.begin pg s, Writes.Within.empty _, hs, ?_, ?_, ?_, ?_⟩
    · rw [MergeTx.view_begin]
      exact hcounts
    · rcases MergeTx.stage_begin s with heq | heq
      · rw [heq]
        trivial
      · rw [heq]
        exact lockedRead_linksStage _ _ _
    · rw [MergeTx.view_begin]
      rcases MergeTx.stage_begin s with heq | heq
      · rw [heq]
        exact htotal
      · rw [heq, pendingTotal_linksStage]
        exact htotal
    · rw [MergeTx.view_begin]
      intro c row hrow
      rcases MergeTx.stage_begin s with heq | heq
      · rw [heq]
        exact (add_zero _).trans (hpg.clickCount c row hrow)
      · rw [heq, pendingDelta_linksStage]
        exact (add_zero _).trans (hpg.clickCount c row hrow)
  refine ⟨hpg, hcounts, fun session tx htx => ?_, fun session => ?_⟩
  · cases session with
    | first =>
      obtain rfl := Option.some.inj htx
      exact hbegin s hs
    | second =>
      obtain rfl := Option.some.inj htx
      exact hbegin s' hs'
  · cases session <;> exact Locks.none_conflict _

end MergesInv

/-- **Two merges keep the sums.** Where no upsert meets a row that has appeared since its merge
read none, the total is the sum of the global rows, and every click count the sum of the rows of
its link, in every state the two reach, and so after both have committed. -/
theorem balanced_after_two_merges {pg : Postgres} {s s' : RedisSnapshot} (hpg : pg.Balanced)
    (hcounts : pg.Counts) (hs : s.NonNegative) (hs' : s'.NonNegative) {as : List MergesAction}
    {st : MergesState} (hfinds : twoMerges.Meets (fun st a => st.FindsRead a) (bothBegun pg s s') as)
    (hrun : twoMerges.run (bothBegun pg s s') as = some st) : st.pg.Balanced := by
  have hinv := twoMerges.run_invariant_of_meets (fun _ _ _ h hc hstep => MergesInv.step h hc hstep)
    hfinds hrun (MergesInv.bothBegun hpg hcounts hs hs')
  exact hinv.balanced

/-! ## A day without a row -/

/-- Five clicks of one day. -/
def fiveOfDay (day : NaiveDate) : RedisSnapshot :=
  ⟨HashMap.empty.insert day 5, HashMap.empty, HashMap.empty, [], []⟩

/-- The second merge reads before the first one commits. -/
def readBoth : List MergesAction :=
  [.exec .first, .exec .second, .exec .first, .exec .second, .exec .first, .exec .first,
    .commit .first, .exec .second, .exec .second, .commit .second]

/-- Days of their own. -/
theorem balanced_after_two_merges_apart : ∃ st,
    twoMerges.run (bothBegun Postgres.empty (fiveOfDay 0) (fiveOfDay 1)) readBoth = some st ∧
      st.pg.totalClicks = 10 ∧ st.pg.Balanced := by
  have hvalues : (twoMerges.run (bothBegun Postgres.empty (fiveOfDay 0) (fiveOfDay 1)) readBoth).map
      (fun st => st.pg.totalClicks) = some 10 := by
    decide
  obtain ⟨st, hrun, htotal⟩ := Option.map_eq_some_iff.mp hvalues
  refine ⟨st, hrun, htotal, balanced_after_two_merges ⟨rfl, fun c row hrow => by cases hrow⟩
    ⟨fun d => le_refl 0, fun k => le_refl 0⟩ (by decide) (by decide) (by decide) hrun⟩

/-- The same day, and no row of it yet: both merges pay in the five clicks. -/
theorem absent_row_counted_twice : Postgres.empty.Balanced ∧ ∃ st,
    twoMerges.run (bothBegun Postgres.empty (fiveOfDay 0) (fiveOfDay 0)) readBoth = some st ∧
      (st.merges .first).isNone = true ∧ (st.merges .second).isNone = true ∧
      st.pg.totalClicks = 10 ∧ st.pg.globalDailyClicks.sum = 5 := by
  refine ⟨⟨rfl, fun c row hrow => by cases hrow⟩, ?_⟩
  have hvalues : (twoMerges.run (bothBegun Postgres.empty (fiveOfDay 0) (fiveOfDay 0)) readBoth).map
      (fun st => ((st.merges .first).isNone, (st.merges .second).isNone, st.pg.totalClicks,
        st.pg.globalDailyClicks.sum)) = some (true, true, 10, 5) := by
    decide
  obtain ⟨st, hrun, hst⟩ := Option.map_eq_some_iff.mp hvalues
  simp only [Prod.mk.injEq] at hst
  exact ⟨st, hrun, hst⟩

end Kurl
