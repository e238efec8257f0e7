import Kurl.Analytics.CreateRace
import Kurl.Analytics.TotalClicks

/-!
# Kurl — the click counts over the writer's runs

A merge of the writer keeps the account of the links part (`TxInv`), with links created and deleted
between its statements. A deletion leaves it, because the rows a merge has read are locked
(`TxInv.deleteLink`). A creation leaves it unless the merge holds clicks of the code already, and it
holds none of a code that has not been clicked (`WriterState.CreatesFresh`). So `click_count` is the
sum of the daily rows of its link (`LinkInv`), and both are at most the number of entries appended
for the code (`WriterInv.linkSum_le`).

The condition is on the run and not on the code: a link may be deleted and its code never used
again, or used again while no entry for it was ever appended. Without it the claim fails, as a link
created between the two statements of a merge that holds old clicks of its code gets the count
without the rows (`Kurl.Analytics.CreateRace`).
-/

namespace Kurl

open Lib

/-! ## Clicks of a code -/

/-- The entry is a click on the code. -/
def clickOn (serde : SerdeJson) (code : String) (e : StreamId) : Bool :=
  (parseClickEvent serde e).any fun event => event.shortCode = code

theorem clickOn_iff {serde : SerdeJson} {code : String} {e : StreamId} :
    clickOn serde code e = true ↔
      ∃ event, parseClickEvent serde e = some event ∧ event.shortCode = code := by
  unfold clickOn
  rw [Option.any_eq_true]
  simp

namespace WriterState

variable (serde : SerdeJson) (st : WriterState)

/-- The clicks on a code ever appended. -/
def clicks (code : String) : Int := countWhere (st.lost ++ st.log) (clickOn serde code)

/-- No link is created for a code that has been clicked. -/
def CreatesFresh : WriterAction → Prop
  | .createLink code _ _ => st.pg.linkExists code = true ∨
    ∀ e ∈ st.lost ++ st.log, clickOn serde code e = false
  | _ => True

instance : DecidablePred (st.CreatesFresh serde)
  | .createLink code _ _ => inferInstanceAs (Decidable (st.pg.linkExists code = true ∨
      ∀ e ∈ st.lost ++ st.log, clickOn serde code e = false))
  | .append _ | .deleteLink _ | .loseData | .start | .stop | .ensureConsumerGroup
  | .selectGlobal _ _ | .selectLinks _ | .call _ | .rehydrated | .readStream _ _
  | .drainPendingBatch _ | .processEntry _ | .endBatch | .flush _ | .scan _ | .captureGlobal
  | .assemble _ | .exec | .commit _ _ | .commitUnknown _ | .flushFails | .flushReturns =>
    isTrue trivial

end WriterState

/-- The codes and days of one entry. -/
theorem entryHits_link_inj {serde : SerdeJson} {e : StreamId} {k k' : String × NaiveDate}
    (h : entryHits serde e (.link k.1 k.2) = true) (h' : entryHits serde e (.link k'.1 k'.2) = true) :
    k = k' := by
  unfold entryHits at h h'
  cases hparse : parseClickEvent serde e with
  | none =>
    rw [hparse] at h
    cases h
  | some event =>
    rw [hparse] at h h'
    have hk : event.shortCode = k.1 ∧ event.atTime.dateNaive = k.2 := by
      simpa [ClickEvent.hits] using h
    have hk' : event.shortCode = k'.1 ∧ event.atTime.dateNaive = k'.2 := by
      simpa [ClickEvent.hits] using h'
    exact Prod.ext (hk.1.symm.trans hk'.1) (hk.2.symm.trans hk'.2)

theorem clickOn_of_entryHits {serde : SerdeJson} {e : StreamId} {code : String} {d : NaiveDate}
    (h : entryHits serde e (.link code d) = true) : clickOn serde code e = true := by
  unfold entryHits at h
  obtain ⟨event, hparse, hhits⟩ := (Option.any_eq_true _ _).mp h
  have hk : event.shortCode = code ∧ event.atTime.dateNaive = d := by
    simpa [ClickEvent.hits] using hhits
  exact clickOn_iff.mpr ⟨event, hparse, hk.1⟩

namespace WriterState

variable {serde : SerdeJson} {st : WriterState} {code : String}

theorem clicks_le_events : st.clicks serde code ≤ st.events serde := by
  refine countWhere_mono fun e _ he => ?_
  obtain ⟨event, hparse, -⟩ := clickOn_iff.mp he
  rw [hparse]
  rfl

theorem appended_le_events (b : Bucket) : st.appended serde b ≤ st.events serde :=
  countWhere_mono fun _ _ he => isSome_of_entryHits he

theorem CountsFit.of_events (h : st.events serde < 2 ^ 53) : st.CountsFit serde fun _ => 0 :=
  fun b => ⟨le_refl 0, by rw [zero_add]; exact lt_of_le_of_lt (appended_le_events b) h⟩

/-- The credit of some days of a code is at most the number of clicks on it. -/
theorem sum_creditable_link_le (S : Finset (String × NaiveDate)) (hS : ∀ k ∈ S, k.1 = code) :
    ∑ k ∈ S, st.creditable serde (.link k.1 k.2) ≤ st.clicks serde code := by
  have hle : ∑ k ∈ S, st.creditable serde (.link k.1 k.2) ≤
      ∑ k ∈ S, st.appended serde (.link k.1 k.2) :=
    Finset.sum_le_sum fun k _ => st.creditable_le_appended serde _
  have hsum := sum_countWhere S (p := fun k e => entryHits serde e (.link k.1 k.2))
    (fun _ _ _ h h' => entryHits_link_inj h h') (st.lost ++ st.log)
  refine hle.trans (hsum.trans_le (countWhere_mono fun e _ he => ?_))
  obtain ⟨k, hk, hhits⟩ := of_decide_eq_true he
  exact hS k hk ▸ clickOn_of_entryHits hhits

/-- Daily rows within the credit. -/
theorem sumWhere_le_clicks {t : Table (String × NaiveDate) Int}
    (h : ∀ k, t.val k ≤ st.creditable serde (.link k.1 k.2)) :
    t.sumWhere (fun k => k.1 = code) ≤ st.clicks serde code := by
  have hle : t.sumWhere (fun k => k.1 = code) ≤
      ∑ k ∈ t.keys with k.1 = code, st.creditable serde (.link k.1 k.2) :=
    Finset.sum_le_sum fun k _ => h k
  exact hle.trans (sum_creditable_link_le _ fun k hk => (Finset.mem_filter.mp hk).2)

end WriterState

/-! ## Creations and deletions during a merge -/

section Merge

variable {pg pg' : Postgres} {tx : MergeTx}

theorem LockedRead.congr {l : Locks} {stage : MergeStage} (h : LockedRead pg l stage)
    (hglobal : pg'.globalDailyClicks = pg.globalDailyClicks)
    (hlinks : pg'.linkDailyClicks = pg.linkDailyClicks) : LockedRead pg' l stage := by
  cases stage with
  | upsertGlobal existing =>
    intro d v hv
    rw [hglobal]
    exact h d v hv
  | upsertLinks existing =>
    intro k v hv
    rw [hlinks]
    exact h k v hv
  | _ => trivial

/-- A row that a merge has read belongs to a link that cannot be deleted. -/
theorem LockedRead.get_eq_none {l : Locks} {existing : Table (String × NaiveDate) Int}
    (h : LockedRead pg l (.upsertLinks existing)) {code : String}
    (hfree : l.blocksDelete code = false) {k : String × NaiveDate} (hk : k.1 = code) :
    existing.get k = none := by
  cases hget : existing.get k with
  | none => rfl
  | some v =>
    simp only [Locks.blocksDelete, Bool.or_eq_false_iff, List.any_eq_false] at hfree
    exact absurd (decide_eq_true hk) (hfree.2 k (h k v hget).1)

theorem LockedRead.withoutLink {l : Locks} {stage : MergeStage} (h : LockedRead pg l stage)
    {code : String} (hfree : l.blocksDelete code = false) :
    LockedRead (pg.withoutLink code) l stage := by
  cases stage with
  | upsertGlobal existing => exact h
  | upsertLinks existing =>
    intro k v hv
    have hne : k.1 ≠ code := fun hk => by
      rw [h.get_eq_none hfree hk] at hv
      cases hv
    refine ⟨(h k v hv).1, ?_⟩
    show (pg.linkDailyClicks.filter _).get k = some v
    rw [Table.get_filter, if_pos (decide_eq_true hne)]
    exact (h k v hv).2
  | _ => trivial

/-- What the local variables of a merge know outlives a deletion that does not wait. -/
theorem StageInv.withoutLink {s : RedisSnapshot} {l : Locks} {stage : MergeStage}
    (h : StageInv pg s stage) (hread : LockedRead pg l stage) {code : String}
    (hfree : l.blocksDelete code = false) : StageInv (pg.withoutLink code) s stage := by
  -- the rows of the code are gone, and the others stay
  have hval : ∀ k, (pg.withoutLink code).linkDailyClicks.val k =
      if k.1 = code then 0 else pg.linkDailyClicks.val k := by
    intro k
    show ((pg.linkDailyClicks.filter _).get k).getD 0 = _
    rw [Table.get_filter]
    by_cases hk : k.1 = code
    · simp [hk]
    · simp [hk, Table.val]
  cases stage with
  | lockLinks visible =>
    intro k hk
    have hsame := h k hk
    rw [hval]
    unfold Table.val Postgres.selectLinks at hsame ⊢
    rw [Table.get_filter] at hsame ⊢
    split
    · next hmem =>
      rw [if_pos hmem] at hsame
      exact hval k
    · next hmem =>
      rw [if_neg hmem] at hsame
      split
      · rfl
      · exact hsame
  | upsertLinks existing =>
    -- what was read of the code under locks was no row, as the deletion did not wait
    have hgone : ∀ k, k.1 = code → existing.val k = 0 := fun k hk =>
      Table.val_of_none (hread.get_eq_none hfree hk)
    refine ⟨fun k => ?_, fun k hk => ?_⟩
    · rw [hval]
      split
      · next hcode => exact ⟨(hgone k hcode).ge, (hgone k hcode).le⟩
      · exact h.1 k
    · rw [hval]
      split
      · next hcode => exact hgone k hcode
      · exact h.2 k hk
  | updateLinks deltas => exact h
  | _ => trivial

/-- **A link deleted while a merge runs.** -/
theorem TxInv.deleteLink (h : TxInv pg tx) (hframe : TxFrame pg tx)
    (hread : LockedRead (tx.view pg) tx.locks tx.stage) {code : String}
    (hdelete : pg.deleteLink code = .ok pg') (hfree : tx.locks.blocksDelete code = false) :
    TxInv pg' tx := by
  obtain ⟨hview, hframe'⟩ := hframe.view_deleteLink hdelete hfree
  have hthere : pg.linkExists code = true := by
    unfold Postgres.deleteLink at hdelete
    split at hdelete
    · assumption
    · cases hdelete
  have hdelete' : (tx.view pg).deleteLink code = .ok ((tx.view pg).withoutLink code) :=
    if_pos ((h.linkExists code).trans hthere)
  refine ⟨h.snapshot, hframe'.linkExists, ?_, ?_⟩
  · rw [hview]
    exact h.counts.deleteLink hdelete'
  · rw [hview]
    exact h.stage.withoutLink hread hfree

end Merge

/-! ## The invariant -/

/-- The click counts are the sums of the daily rows, and a running merge keeps its account. -/
structure LinkInv (st : WriterState) : Prop where
  counts : CountsMatch st.pg fun _ => 0
  merge : ∀ tx, st.phase = .merging tx → TxInv st.pg tx
  read : ∀ tx, st.phase = .merging tx → LockedRead (tx.view st.pg) tx.locks tx.stage

section Steps

variable {serde : SerdeJson} {st st' : WriterState} {a : WriterAction}

theorem LinkInv.init : LinkInv WriterState.init where
  counts := ⟨fun _ hk => (by cases hk), fun _ => le_refl 0, fun _ _ hrow => (by cases hrow)⟩
  merge := fun _ htx => by cases htx
  read := fun _ htx => by cases htx

/-- A running merge holds no click of a code that has not been clicked. -/
theorem WriterInv.noClicks (h : WriterInv serde (fun _ => 0) st) {tx : MergeTx}
    (hphase : st.phase = .merging tx) {code : String}
    (hnone : ∀ e ∈ st.lost ++ st.log, clickOn serde code e = false) :
    tx.snapshot.NoClicks code := by
  rintro ⟨⟨c, d⟩, n⟩ he rfl
  have hget : tx.snapshot.counts.get (.link c d) = some n :=
    (tx.snapshot.get_counts_link c d).trans ((HashMap.get_eq_some_iff _).mpr he)
  have hbound := h.within _ n (.phase (by rw [hphase]; exact .captured hget))
  have happended : st.appended serde (.link c d) = 0 := countWhere_eq_zero fun e' he' => by
    by_contra hhits
    have hclick := clickOn_of_entryHits (Bool.not_eq_false _ ▸ hhits)
    rw [hnone e' he'] at hclick
    cases hclick
  have hcredit := st.creditable_le_appended serde (.link c d)
  show n = 0
  omega

/-- The deltas of a merge of the writer fit in 64 bits. -/
theorem WriterInv.linkDeltaSum_le (h : WriterInv serde (fun _ => 0) st)
    (hevents : st.events serde < 2 ^ 53) {tx : MergeTx} (hphase : st.phase = .merging tx)
    (htx : TxInv st.pg tx) {existing : Table (String × NaiveDate) Int}
    (hstage : tx.stage = .upsertLinks existing) {c : String}
    (hlink : st.pg.linkExists c = true) : linkDeltaSum tx.snapshot existing c ≤ i64Max := by
  have hread : StageInv _ _ (.upsertLinks existing) := hstage ▸ htx.stage
  have hholds : ∀ {b v}, tx.Holds st.pg b v → 0 ≤ v ∧ v ≤ st.creditable serde b := fun hv => by
    have hbound := h.within _ _ (.phase (by rw [hphase]; exact hv))
    rwa [zero_add] at hbound
  have hnonneg : ∀ b, 0 ≤ st.creditable serde b := fun b =>
    add_nonneg (countWhere_nonneg _ _) (ackedCount_nonneg serde _ _ b)
  rw [linkDeltaSum_eq htx.snapshot ((htx.linkExists c).trans hlink) fun e he _ =>
    .of_val (hread.2 e.1 (HashMap.mem_keys_of_mem he))]
  -- what the rows grow to is within the credit
  have hgrown : ((tx.view st.pg).linkDailyClicks.mergeMax
      (liveLinkDaily (tx.view st.pg) tx.snapshot)).sumWhere (fun k => k.1 = c) ≤
        st.clicks serde c := by
    refine st.sumWhere_le_clicks fun k => ?_
    unfold Table.val
    rw [Table.get_mergeMax, liveLinkDaily, HashMap.get_filterKeys]
    cases hget : greatest (if (tx.view st.pg).linkExists k.1 then tx.snapshot.linkDaily.get k
        else none) ((tx.view st.pg).linkDailyClicks.get k) with
    | none => exact hnonneg _
    | some v =>
      rcases greatest_eq_some hget with hin | hrow
      · split at hin
        · exact (hholds (.captured ((tx.snapshot.get_counts_link k.1 k.2).trans hin))).2
        · cases hin
      · exact (hholds (b := .link k.1 k.2) (.seen hrow)).2
  have hclicks : st.clicks serde c ≤ st.events serde := st.clicks_le_events
  have hbefore : 0 ≤ (tx.view st.pg).linkDailyClicks.sumWhere fun k => k.1 = c :=
    Table.sumWhere_nonneg fun k _ => htx.counts.nonNegative k
  unfold linkGrowth i64Max
  omega

/-- **The daily rows of a link** are at most the clicks on its code. -/
theorem WriterInv.linkSum_le (h : WriterInv serde (fun _ => 0) st) (code : String) :
    st.pg.linkSum code ≤ st.clicks serde code := by
  refine st.sumWhere_le_clicks fun k => ?_
  cases hrow : st.pg.linkDailyClicks.get k with
  | none =>
    rw [Table.val_of_none hrow]
    exact add_nonneg (countWhere_nonneg _ _) (ackedCount_nonneg serde _ _ _)
  | some v =>
    have hbound := (h.within (.link k.1 k.2) v (.pg hrow)).2
    rw [Table.val_of_get hrow]
    rwa [zero_add] at hbound

namespace LinkInv

/-- A step that leaves the tables, and does not take up a merge. -/
theorem of_pg (h : LinkInv st) (hpg : st'.pg = st.pg)
    (hmerge : ∀ tx, st'.phase = .merging tx → st.phase = .merging tx) : LinkInv st' := by
  refine ⟨by rw [hpg]; exact h.counts, fun tx htx => ?_, fun tx htx => ?_⟩
  · rw [hpg]
    exact h.merge tx (hmerge tx htx)
  · rw [hpg]
    exact h.read tx (hmerge tx htx)

/-- A merge of the writer commits. -/
theorem commit (h : LinkInv st) {tx : MergeTx} (hphase : st.phase = .merging tx)
    (hstage : tx.stage = .commit) : CountsMatch (tx.view st.pg) fun _ => 0 := by
  have hcounts := (h.merge tx hphase).counts
  rw [hstage] at hcounts
  exact hcounts

/-- **Step lemma.** The tables balance, a running merge keeps its account, and what it has read
under locks has not moved. -/
theorem step (hinv : WriterInv serde (fun _ => 0) st) (hevents : st.events serde < 2 ^ 53)
    (h : LinkInv st) (hfresh : st.CreatesFresh serde a) (hstep : st.Step serde a st') :
    LinkInv st' := by
  cases hstep with
  | append entry hadd => exact h.of_pg rfl fun _ htx => htx
  | @createLink code target expiration pg hcreate =>
    -- the condition on runs: no click of the code is in Redis, so the merge owes the link nothing
    obtain ⟨hnone, hpg⟩ := Postgres.createLink_ok hcreate
    have hunclicked := hfresh.resolve_left fun hexists => by
      unfold Postgres.linkExists at hexists
      rw [hnone] at hexists
      cases hexists
    refine ⟨?_, fun tx htx => ?_, fun tx htx => ?_⟩
    · show CountsMatch pg _
      rw [hpg]
      exact h.counts.insertLink hnone rfl rfl
    · exact (h.merge tx htx).createLink hcreate fun _ _ => hinv.noClicks htx hunclicked
    · obtain ⟨-, hview, -⟩ := (hinv.frame tx htx).view_createLink hcreate
      show LockedRead (tx.view pg) _ _
      rw [hview]
      exact (h.read tx htx).congr rfl rfl
  | @deleteLink code pg hfree hdelete =>
    -- the deletion has not waited, so the merge has no lock on rows of the code
    have hlocks : ∀ tx, st.phase = .merging tx → tx.locks.blocksDelete code = false :=
      fun _ htx => WriterState.merging_free hfree htx
    refine ⟨h.counts.deleteLink hdelete, fun tx htx => ?_, fun tx htx => ?_⟩
    · exact (h.merge tx htx).deleteLink (hinv.frame tx htx) (h.read tx htx) hdelete (hlocks tx htx)
    · obtain ⟨hview, -⟩ := (hinv.frame tx htx).view_deleteLink hdelete (hlocks tx htx)
      show LockedRead (tx.view pg) _ _
      rw [hview]
      exact (h.read tx htx).withoutLink (hlocks tx htx)
  | createFails => exact h
  | deleteFails => exact h
  | loseData => exact h.of_pg rfl fun _ htx => htx
  | readStream cancelled hphase hread =>
    exact h.of_pg rfl fun tx htx => by cases cancelled <;> cases htx
  | @assemble _ _ s hphase hs =>
    -- a merge begins on tables that balance, with nothing read yet
    refine ⟨h.counts, fun tx htx => ?_, fun tx htx => ?_⟩
    · obtain rfl := WriterPhase.eq_begin htx
      refine TxInv.begin h.counts (RedisSnapshot.nonNegative_of_counts fun b n hn => ?_)
      rw [hs.get_counts] at hn
      exact (hinv.within b n (.phase (by rw [hphase]; exact hn))).1
    · obtain rfl := WriterPhase.eq_begin htx
      unfold MergeTx.begin
      simp only
      split
      · exact lockedRead_linksStage _ _ _
      · trivial
  | exec hphase hexec =>
    -- the statement keeps the account (`TxInv.exec`) and what is read under locks
    have hmerge := h.merge _ hphase
    refine ⟨h.counts, fun tx htx => ?_, fun tx htx => ?_⟩
    · obtain rfl := WriterPhase.merging.inj htx
      exact hmerge.exec (fun existing hstage c hlink =>
        hinv.linkDeltaSum_le hevents hphase hmerge hstage hlink) hexec
    · obtain rfl := WriterPhase.merging.inj htx
      exact MergeTx.lockedRead_exec (hinv.frame _ hphase) hexec
  | commit connected hphase hstage horder =>
    -- nothing is pending at the commit, so the tables balance as they are
    exact ⟨h.commit hphase hstage, fun _ htx => (by cases htx), fun _ htx => (by cases htx)⟩
  | commitApplied hphase hstage =>
    exact ⟨h.commit hphase hstage, fun _ htx => (by cases htx), fun _ htx => (by cases htx)⟩
  | _ => exact h.of_pg rfl fun tx htx => by cases htx

end LinkInv

end Steps

end Kurl
