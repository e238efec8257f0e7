import Kurl.Analytics.CountBounds

/-!
# Kurl — what a flush leaves in the tables

Where a bucket in Redis holds its whole credit, a capture reads that credit, the merge raises the
row to it, and no later step of the flush lowers either (`FilledInv`). Every count is at most the
credit (`WriterInv`), so the maxima that the merge and the reconciliation take are the credit.

What `WriterPhase.Filled` says depends on how far the flush has come: of the hashes that have been
scanned, of the snapshot, and within the merge of the buckets whose upsert is done
(`MergeStage.past`). `Executed.filled` is the case of a statement, `phase_step` that of any step,
and `count_of_flushReturns` reads the invariant off when the flush returns.

The rows of a link are raised only if the upsert of `link_daily_clicks` finds the link. A link that
is created later in the flush has clicks in Redis, if its code was in use before, and no rows when
the flush returns (`late_link_has_no_rows`).
-/

namespace Kurl

open Lib

/-! ## Filled counts -/

/-- A bucket of a code in the set, or a global one. -/
def Bucket.Of (codes : Finset String) (b : Bucket) : Prop := ∀ code ∈ b.shortCode, code ∈ codes

/-- The statements that raise the row of a bucket are done. -/
def MergeStage.past : MergeStage → Bucket → Bool
  | .selectGlobal, _ | .lockGlobal _, _ | .upsertGlobal _, _ => false
  | .updateTotal _, .global _ | .selectLinks, .global _ | .lockLinks _, .global _ => true
  | .upsertLinks _, .global _ => true
  | .updateTotal _, .link _ _ | .selectLinks, .link _ _ | .lockLinks _, .link _ _ => false
  | .upsertLinks _, .link _ _ => false
  | .updateLinks _, _ | .commit, _ => true

section

variable (target : Bucket → Int) (P : Bucket → Prop)

/-- The snapshot holds the credit, and so does every row that is raised. -/
structure MergeTx.Filled (pg : Postgres) (kept : Finset String) (tx : MergeTx) : Prop where
  snapshot : ∀ b, P b → (tx.snapshot.counts.get b).getD 0 = target b
  row : ∀ b, P b → tx.stage.past b = true → b.Of kept → (tx.view pg).count b = target b

def WriterPhase.Filled (pg : Postgres) (kept : Finset String) : WriterPhase → Prop
  | .scanning _ scanned counts =>
    ∀ b, P b → (∃ code ∈ b.shortCode, code ∈ scanned) → counts.val b = target b
  | .assembling _ counts => ∀ b, P b → counts.val b = target b
  | .merging tx => tx.Filled target P pg kept
  | .reconciling _ _ => ∀ b, P b → b.Of kept → pg.count b = target b
  | _ => True

end

/-- The buckets of `P` hold their whole credit, in Redis and as far as a flush has come. -/
structure FilledInv (serde : SerdeJson) (start : Bucket → Int) (P : Bucket → Prop)
    (st : WriterState) : Prop where
  redis : ∀ b, P b → st.redis.buckets.val b = start b + st.creditable serde b
  phase : st.phase.Filled (fun b => start b + st.creditable serde b) P st.pg st.kept

/-! ## The merge -/

section Merge

variable {target : Bucket → Int} {P : Bucket → Prop} {s : RedisSnapshot} {pg pg' : Postgres}

/-- The maximum of a captured credit and of counts within it is the credit. -/
theorem greatest_committed_eq {κ : Type} [DecidableEq κ] {m : HashMap κ Int}
    {existing t : Table κ Int} {k : κ} {n : Int} (hn : 0 ≤ n) (hm : (m.get k).getD 0 = n)
    (hexisting : ∀ v, existing.get k = some v → v ≤ n)
    (ht : ∀ v, t.get k = some v → 0 ≤ v ∧ v ≤ n) :
    (greatest (assoc (committedRows m existing) k) (t.get k)).getD 0 = n := by
  rw [assoc_committedRows]
  cases hget : m.get k with
  | none =>
    rw [hget] at hm
    obtain rfl : 0 = n := hm
    rw [Option.map_none, greatest_none_left]
    cases hrow : t.get k with
    | none => rfl
    | some v =>
      have hv := ht v hrow
      show v = 0
      omega
  | some u =>
    rw [hget] at hm
    obtain rfl : u = n := hm
    have hread : existing.val k ≤ u := by
      cases hex : existing.get k with
      | none => exact (Table.val_of_none hex).trans_le hn
      | some v => exact (Table.val_of_get hex).trans_le (hexisting v hex)
    rw [Option.map_some, max_eq_right hread]
    cases hrow : t.get k with
    | none => rfl
    | some v => exact max_eq_left (ht v hrow).2

/-- A bucket of which nothing was captured has no credit, and no count. -/
theorem count_of_not_captured (hcount : ∀ b v, pg.row b = some v → 0 ≤ v ∧ v ≤ target b)
    (hsnapshot : ∀ b, P b → (s.counts.get b).getD 0 = target b) {b : Bucket} (hb : P b)
    (hnone : s.counts.get b = none) : pg.count b = target b := by
  have hzero : 0 = target b := by
    have hb := hsnapshot b hb
    rwa [hnone] at hb
  unfold Postgres.count
  cases hrow : pg.row b with
  | none => exact hzero
  | some v =>
    have hv := hcount b v hrow
    show v = target b
    omega

/-- The stage after the global part is past the links only if there are none. -/
theorem past_linksStage {b : Bucket} (h : (MergeTx.linksStage s).past b = true) :
    b.shortCode = none ∨ s.counts.get b = none := by
  cases b with
  | global day => exact Or.inl rfl
  | link code day =>
    unfold MergeTx.linksStage at h
    split at h
    · next hempty => exact Or.inr ((s.get_counts_link code day).trans (HashMap.get_isEmpty hempty _))
    · cases h

/-- Nothing was captured. -/
theorem get_counts_of_isEmpty (hglobal : s.globalDaily.isEmpty = true)
    (hlinks : s.linkDaily.isEmpty = true) (b : Bucket) : s.counts.get b = none := by
  cases b with
  | global day => exact (s.get_counts_global day).trans (HashMap.get_isEmpty hglobal _)
  | link code day => exact (s.get_counts_link code day).trans (HashMap.get_isEmpty hlinks _)

/-- The merge of a snapshot that holds the credit begins. -/
theorem MergeTx.filled_begin {kept : Finset String}
    (hcount : ∀ b v, pg.row b = some v → 0 ≤ v ∧ v ≤ target b)
    (hsnapshot : ∀ b, P b → (s.counts.get b).getD 0 = target b) :
    (MergeTx.begin s).Filled target P pg kept := by
  refine ⟨hsnapshot, fun b hb hpast _ => ?_⟩
  rw [MergeTx.view_begin]
  -- what is past at once was not captured
  refine count_of_not_captured hcount hsnapshot hb ?_
  change (if _ then MergeTx.linksStage s else MergeStage.selectGlobal).past b = true at hpast
  split at hpast
  · next hglobal =>
    cases b with
    | global day => exact (s.get_counts_global day).trans (HashMap.get_isEmpty hglobal _)
    | link code day => exact (past_linksStage hpast).resolve_left (by rintro ⟨⟩)
  · cases hpast

/-- **A statement of a merge raises rows to the credit.** -/
theorem Executed.filled {o o' : MergeOutcome} {stage stage' : MergeStage} {kept : Finset String}
    (h : Executed s pg o stage pg' stage' o') (htarget : ∀ b, 0 ≤ target b)
    (hcount : ∀ b v, MergeCount s stage pg o b v → 0 ≤ v ∧ v ≤ target b)
    (hsnapshot : ∀ b, P b → (s.counts.get b).getD 0 = target b)
    (hrow : ∀ b, P b → stage.past b = true → b.Of kept → pg.count b = target b) {b : Bucket}
    (hb : P b) (hpast : stage'.past b = true)
    (hkept : b.Of (stage.keptBy pg kept)) :
    pg'.count b = target b := by
  have hseen : ∀ b v, pg.row b = some v → 0 ≤ v ∧ v ≤ target b := fun b v hv => hcount b v (.seen hv)
  -- without captured links, the stage after the global part is past the links
  have hnone : ∀ {code : String} {day : NaiveDate}, P (.link code day) →
      (MergeTx.linksStage s).past (.link code day) = true →
      pg.count (.link code day) = target (.link code day) := by
    intro code day hb hpast
    rcases past_linksStage hpast with hcode | hget
    · cases hcode
    · exact count_of_not_captured hseen hsnapshot hb hget
  -- only the two upserts bring a bucket past its stage; the other statements leave the rows and
  -- what is past
  cases h with
  | selectGlobal hvisible => cases hpast
  | lockGlobal visible => cases hpast
  | upsertGlobal existing hdaily =>
    cases b with
    | global day =>
      -- the upsert takes the greatest of what was captured, read and seen
      have hgreatest := greatest_committed_eq (htarget (.global day))
        (s.get_counts_global day ▸ hsnapshot _ hb)
        (fun v hv => (hcount (.global day) v (.read hv)).2)
        (fun v hv => hseen (.global day) v hv)
      show (Table.get _ day).getD 0 = _
      rw [hdaily]
      exact hgreatest
    | link code day =>
      split at hpast
      · cases hpast
      · exact hnone hb hpast
  | updateTotal hpos =>
    cases b with
    | global day => exact hrow _ hb rfl hkept
    | link code day => exact hnone hb hpast
  | selectLinks hvisible => exact hrow b hb (by cases b <;> [rfl; cases hpast]) hkept
  | lockLinks visible => exact hrow b hb (by cases b <;> [rfl; cases hpast]) hkept
  | upsertLinks existing hdaily =>
    cases b with
    | global day => exact hrow _ hb rfl fun code hcode => by cases hcode
    | link code day =>
      have hlink : pg.linkExists code = true := (pg.links.mem_keys code).mp (hkept code rfl)
      have hgreatest := greatest_committed_eq (htarget (.link code day))
        (s.get_counts_link code day ▸ hsnapshot _ hb)
        (fun v hv => (hcount (.link code day) v (.read hv)).2)
        (fun v hv => hseen (.link code day) v hv)
      show (Table.get _ (code, day)).getD 0 = _
      rw [hdaily, if_pos hlink]
      exact hgreatest
  | updateLinks deltas => exact hrow b hb (by cases b <;> rfl) hkept
  | commit => exact hrow b hb hpast hkept

end Merge

/-! ## The capture -/

section Capture

variable {r : Redis} {b : Bucket}

/-- Reading a hash puts what a bucket of it holds over an earlier count within that. -/
theorem val_overlay_parsed {counts : Table Bucket Int}
    (hval : 0 ≤ r.buckets.val b ∧ r.buckets.val b ≤ i64Max)
    (hcounts : ∀ v, counts.get b = some v → 0 ≤ v ∧ v ≤ r.buckets.val b) :
    (counts.overlay (parseDailyCounts (r.hgetall b.shortCode))).val b = r.buckets.val b := by
  unfold Table.val
  rw [Table.get_overlay, get_parse_hgetall, if_pos rfl, get_parseDailyCounts, if_pos hval]
  cases hget : r.buckets.get b with
  | some v => rfl
  | none =>
    cases hold : counts.get b with
    | none => rfl
    | some v =>
      have hv := hcounts v hold
      rw [Table.val_of_none hget] at hv
      show v = 0
      omega

/-- Reading another hash leaves a count. -/
theorem val_overlay_other (counts : Table Bucket Int) {code : Option String}
    (hne : b.shortCode ≠ code) :
    (counts.overlay (parseDailyCounts (r.hgetall code))).val b = counts.val b := by
  unfold Table.val
  rw [Table.get_overlay, get_parse_hgetall, if_neg hne]
  rfl

/-- **A call within a count leaves it.** -/
theorem val_exec_of_le {reconciled : List Bucket} {call : RedisCall} (result : CallResult)
    (hbound : r.buckets.val b < 2 ^ 53)
    (hle : ∀ v, call = .hmax b v → 0 ≤ v ∧ v ≤ r.buckets.val b) :
    (call.exec r reconciled result).1.buckets.val b = r.buckets.val b := by
  cases call with
  | compareAndDelete b' value =>
    unfold Table.val
    rw [get_exec_of_target_ne (by simp [RedisCall.target])]
  | hmax b' value =>
    unfold Table.val
    rw [get_exec_hmax]
    split
    · next hboth =>
      obtain ⟨rfl, -⟩ := hboth
      obtain ⟨hnonneg, hvalue⟩ := hle value rfl
      cases hget : r.buckets.get b with
      | none =>
        rw [Table.val_of_none hget] at hvalue
        show value = 0
        omega
      | some c =>
        rw [Table.val_of_get hget] at hvalue hbound
        rw [hmaxValue_eq_max ⟨by omega, hbound⟩ ⟨by omega, by omega⟩]
        exact max_eq_left hvalue
    · rfl

end Capture

/-! ## The invariant -/

/-- The rows of the other links stay when a link is deleted. -/
theorem row_withoutLink_of (pg : Postgres) {kept : Finset String} {code : String} {b : Bucket}
    (hb : b.Of (kept.erase code)) : (pg.withoutLink code).row b = pg.row b ∧ b.Of kept := by
  cases b with
  | global day => exact ⟨rfl, fun c hc => by cases hc⟩
  | link c day =>
    obtain ⟨hne, hmem⟩ := Finset.mem_erase.mp (hb c rfl)
    refine ⟨?_, fun c' hc' => Option.some.inj hc' ▸ hmem⟩
    show (pg.linkDailyClicks.filter fun k => k.1 ≠ code).get (c, day) = _
    rw [Table.get_filter, if_pos (by simpa using hne)]
    rfl

namespace FilledInv

variable {serde : SerdeJson} {start : Bucket → Int} {P : Bucket → Prop} {st st' : WriterState}
  {a : WriterAction}

/-- A step that leaves the credit. -/
theorem of_credit (hcredit : ∀ b, st'.creditable serde b = st.creditable serde b)
    (hredis : ∀ b, P b → st'.redis.buckets.val b = start b + st.creditable serde b)
    (hphase : st'.phase.Filled (fun b => start b + st.creditable serde b) P st'.pg st'.kept) :
    FilledInv serde start P st' := by
  refine ⟨fun b hb => by rw [hcredit, hredis b hb], ?_⟩
  rw [funext fun b => congrArg (start b + ·) (hcredit b)]
  exact hphase

/-- The counts of a phase while a link is created. -/
theorem phase_createLink (h : WriterInv serde start st) {target : Bucket → Int}
    {code url : String} {expiration : Option DateTime} {pg : Postgres}
    (hcreate : st.pg.createLink code url expiration = .ok pg)
    (hphase : st.phase.Filled target P st.pg st.kept) : st.phase.Filled target P pg st.kept := by
  cases hp : st.phase with
  | merging tx =>
    rw [hp] at hphase
    obtain ⟨-, hview, -⟩ := (h.frame tx hp).view_createLink hcreate
    refine ⟨hphase.snapshot, fun b hb hpast hof => ?_⟩
    rw [hview]
    exact Eq.trans (by cases b <;> rfl) (hphase.row b hb hpast hof)
  | reconciling calls reconciled =>
    rw [hp] at hphase
    obtain ⟨-, rfl⟩ := Postgres.createLink_ok hcreate
    exact fun b hb hof => Eq.trans (by cases b <;> rfl) (hphase b hb hof)
  | _ =>
    rw [hp] at hphase
    exact hphase

/-- The counts of a phase while a link is deleted. -/
theorem phase_deleteLink (h : WriterInv serde start st) {target : Bucket → Int} {code : String}
    {pg : Postgres} (hfree : st.locks.blocksDelete code = false)
    (hdelete : st.pg.deleteLink code = .ok pg)
    (hphase : st.phase.Filled target P st.pg st.kept) :
    st.phase.Filled target P pg (st.kept.erase code) := by
  cases hp : st.phase with
  | merging tx =>
    rw [hp] at hphase
    obtain ⟨hview, -⟩ := (h.frame tx hp).view_deleteLink hdelete (WriterState.merging_free hfree hp)
    refine ⟨hphase.snapshot, fun b hb hpast hof => ?_⟩
    obtain ⟨hrow, hof⟩ := row_withoutLink_of (tx.view st.pg) hof
    rw [hview]
    exact (congrArg (Option.getD · 0) hrow).trans (hphase.row b hb hpast hof)
  | reconciling calls reconciled =>
    rw [hp] at hphase
    obtain rfl : pg = st.pg.withoutLink code := Postgres.deleteLink_ok hdelete
    intro b hb hof
    obtain ⟨hrow, hof⟩ := row_withoutLink_of st.pg hof
    exact (congrArg (Option.getD · 0) hrow).trans (hphase b hb hof)
  | _ =>
    rw [hp] at hphase
    exact hphase

/-- A filled bucket keeps its count through a step that processes no entry. -/
theorem val_step (h : WriterInv serde start st) (hfit : st.CountsFit serde start)
    (hstep : st.Step serde a st') (ha : ∀ reached, a ≠ .processEntry reached)
    (hlose : a ≠ .loseData) {b : Bucket}
    (hval : st.redis.buckets.val b = start b + st.creditable serde b) :
    st'.redis.buckets.val b = st.redis.buckets.val b := by
  -- the counts of the calls are within the credit, which the bucket holds
  have hcall : ∀ {call : RedisCall} {reconciled : List Bucket} (result : CallResult),
      (∀ v, call = .hmax b v → st.Holds b v) →
      (call.exec st.redis reconciled result).1.buckets.val b = st.redis.buckets.val b := by
    intro call reconciled result hholds
    have hle := st.creditable_le_appended serde b
    have hbound := (hfit b).2
    refine val_exec_of_le result (by omega) fun v hv => ?_
    have hwithin := h.within b v (hholds v hv)
    omega
  cases hstep with
  | append entry hadd =>
    obtain ⟨-, rfl⟩ := xadd_cases hadd
    rfl
  | loseData => exact absurd rfl hlose
  | processEntry _ _ reached _ => exact absurd rfl (ha reached)
  | ensureConsumerGroup hphase =>
    obtain ⟨-, -, -, -, hbuckets, -⟩ := xgroupCreateMkstream_data st.redis
    exact congrArg (·.val b) hbuckets
  | readStream cancelled hphase hread =>
    obtain ⟨-, -, -, -, -, -, hbuckets, -⟩ := xreadgroup_cases hread
    exact congrArg (·.val b) hbuckets
  | drainPendingBatch hphase hclaim =>
    obtain ⟨rfl, -⟩ := xautoclaim_cases h.stream hclaim
    rfl
  | rehydrate result hphase =>
    exact hcall result fun v hv => .phase (by rw [hphase, hv]; exact List.mem_cons_self)
  | reconcile result hphase =>
    exact hcall result fun v hv => .phase (by rw [hphase, hv]; exact List.mem_cons_self)
  | _ => rfl

/-- The counts of a phase after a step that leaves the credit. -/
theorem phase_step (h : WriterInv serde start st) (hfit : st.CountsFit serde start)
    (hfilled : FilledInv serde start P st) (hstep : st.Step serde a st')
    (ha : ∀ reached, a ≠ .processEntry reached) (hlose : a ≠ .loseData) :
    st'.phase.Filled (fun b => start b + st.creditable serde b) P st'.pg st'.kept := by
  have hphase := hfilled.phase
  -- what is held is within the credit
  have hwithin : ∀ {b v}, st.phase.Holds st.pg b v → 0 ≤ v ∧ v ≤ start b + st.creditable serde b :=
    fun hv => h.within _ _ (.phase hv)
  have hrow : ∀ b v, st.pg.row b = some v → 0 ≤ v ∧ v ≤ start b + st.creditable serde b :=
    fun b v hv => h.within b v (.pg hv)
  have hval : ∀ b, 0 ≤ st.redis.buckets.val b ∧ st.redis.buckets.val b ≤ i64Max := by
    intro b
    have hval := h.val_le hfit b
    have hle := st.creditable_le_appended serde b
    have hbound := (hfit b).2
    unfold i64Max
    omega
  have hcounts : ∀ {b : Bucket} {counts : Table Bucket Int}, P b →
      (∀ v, counts.get b = some v → st.phase.Holds st.pg b v) →
      ∀ v, counts.get b = some v → 0 ≤ v ∧ v ≤ st.redis.buckets.val b := by
    intro b counts hb hheld v hv
    rw [hfilled.redis b hb]
    exact hwithin (hheld v hv)
  cases hstep with
  | append entry hadd => exact hphase
  | createLink hcreate => exact phase_createLink h hcreate hphase
  | deleteLink hfree hdelete => exact phase_deleteLink h hfree hdelete hphase
  | createFails => exact hphase
  | deleteFails => exact hphase
  | loseData => exact absurd rfl hlose
  | processEntry _ _ reached _ => exact absurd rfl (ha reached)
  | readStream cancelled hp hread => cases cancelled <;> exact trivial
  -- no hash is read yet, so nothing is promised of any
  | flush now hp => exact fun b hb ⟨code, hcode, hmem⟩ => absurd hmem List.not_mem_nil
  | scan code hp =>
    rw [hp] at hphase hcounts
    rintro b hb ⟨code', hcode', hmem⟩
    -- a bucket of the hash just read, or one of a hash read before
    by_cases hsame : b.shortCode = some code
    · have hread := val_overlay_parsed (hval b) (hcounts hb fun v hv => hv)
      rw [hsame] at hread
      exact hread.trans (hfilled.redis b hb)
    · rw [val_overlay_other _ hsame]
      refine hphase b hb ⟨code', hcode', (List.mem_cons.mp hmem).resolve_left fun heq => ?_⟩
      exact hsame (heq ▸ hcode')
  | @captureGlobal cutoff scanned counts hp hscanned =>
    rw [hp] at hphase hcounts
    intro b hb
    -- the hash of the days is read last; a hash of a code was scanned, or it was not there
    by_cases hglobal : b.shortCode = none
    · have hread := val_overlay_parsed (hval b) (hcounts hb fun v hv => hv)
      rw [hglobal] at hread
      exact hread.trans (hfilled.redis b hb)
    · obtain ⟨code, hcode⟩ := Option.ne_none_iff_exists'.mp hglobal
      rw [val_overlay_other _ hglobal]
      by_cases hmem : ∃ code ∈ b.shortCode, code ∈ scanned
      · exact hphase b hb hmem
      · -- a hash that was not met holds nothing
        have hnone : st.redis.buckets.get b = none := Table.get_eq_none_iff.mpr fun hkey =>
          hmem ⟨code, hcode, hscanned b hkey code hcode⟩
        have hzero := hfilled.redis b hb
        rw [Table.val_of_none hnone] at hzero
        cases hget : counts.get b with
        | none => exact (Table.val_of_none hget).trans hzero
        | some v =>
          have hv := hcounts hb (fun v hv => hv) v hget
          rw [Table.val_of_none hnone] at hv
          rw [Table.val_of_get hget]
          show v = start b + st.creditable serde b
          omega
  | @assemble cutoff counts s hp hs =>
    rw [hp] at hphase
    -- the snapshot is what was counted; nothing to merge means no credit
    have hsnapshot : ∀ b, P b → (s.counts.get b).getD 0 = start b + st.creditable serde b :=
      fun b hb => (congrArg (Option.getD · 0) (hs.get_counts b)).trans (hphase b hb)
    show WriterPhase.Filled _ P st.pg st.kept (if _ then _ else _)
    split
    · next hempty =>
      obtain ⟨hglobal, hlinks⟩ := Bool.and_eq_true_iff.mp hempty
      intro b hb _
      exact count_of_not_captured hrow hsnapshot hb (get_counts_of_isEmpty hglobal hlinks b)
    · exact MergeTx.filled_begin hrow hsnapshot
  | exec hp hexec =>
    rw [hp] at hphase hwithin
    obtain ⟨hexecuted, hsnapshot, -⟩ := MergeTx.executed_of_exec (h.frame _ hp) hexec
    have htarget : ∀ b, 0 ≤ start b + st.creditable serde b := fun b =>
      (h.val_le hfit b).1.trans (h.val_le hfit b).2
    refine ⟨fun b hb => by rw [hsnapshot]; exact hphase.snapshot b hb, fun b hb hpast hof => ?_⟩
    exact hexecuted.filled htarget (fun b v hv => hwithin hv) hphase.snapshot hphase.row hb hpast hof
  | commit connected hp hstage horder =>
    -- at its commit a merge is past every bucket
    rw [hp] at hphase
    exact fun b hb hof => hphase.row b hb (by rw [hstage]; rfl) hof
  | reconcile result hp =>
    rw [hp] at hphase
    exact hphase
  | _ => exact trivial

/-- **Step lemma.** The buckets keep their credit (`val_step`) or grow with it, and the local
variables of the flush hold as much as the phase promises (`phase_step`). -/
theorem step (h : WriterInv serde start st) (hfit : st.CountsFit serde start)
    (hfilled : FilledInv serde start P st) (hstep : st.Step serde a st') (hlose : a ≠ .loseData) :
    FilledInv serde start P st' := by
  by_cases ha : ∀ reached, a ≠ .processEntry reached
  · refine of_credit (hstep.creditable h.stream ha hlose) (fun b hb => ?_)
      (phase_step h hfit hfilled hstep ha hlose)
    rw [val_step h hfit hstep ha hlose (hfilled.redis b hb), hfilled.redis b hb]
  · cases hstep with
    | processEntry entry batch reached hphase =>
      cases reached with
      | false => exact ⟨hfilled.redis, trivial⟩
      | true =>
        refine ⟨fun b hb => ?_, trivial⟩
        obtain ⟨n, -, hval, hacked⟩ := h.processEntry_val hfit hphase b
        have hold := hfilled.redis b hb
        show (Kurl.processEntry serde st.redis entry).buckets.val b = start b +
          (countWhere st.lost _ + ackedCount serde (Kurl.processEntry serde st.redis entry) st.log b)
        rw [hval, hacked, hold]
        unfold WriterState.creditable
        omega
    | drop hdrops _ => exact absurd (fun reached heq => by rw [heq] at hdrops; exact hdrops) ha
    | _ => exact absurd (fun reached heq => by cases heq) ha

end FilledInv

/-! ## The result -/

section Runs

variable {serde : SerdeJson} {start : Bucket → Int} {P : Bucket → Prop} {st st' : WriterState}
  {as : List WriterAction}

/-- **Run lemma.** Filled buckets stay filled while Redis keeps its data. -/
theorem filled_inv (hrun : (writer serde).run st as = some st') (hlose : .loseData ∉ as)
    (hinv : WriterInv serde start st) (hfilled : FilledInv serde start P st)
    (hfit : st'.CountsFit serde start) : FilledInv serde start P st' := by
  have hboth : st'.CountsFit serde start → WriterInv serde start st' ∧
      FilledInv serde start P st' := by
    have hmeets : (writer serde).Meets (fun _ a => a ≠ .loseData) st as :=
      Machine.meets_of_forall _ (by rintro a ha rfl; exact hlose ha) st
    apply (writer serde).run_invariant_of_meets (I := fun st => st.CountsFit serde start →
      WriterInv serde start st ∧ FilledInv serde start P st) _ hmeets hrun
      (fun _ => ⟨hinv, hfilled⟩)
    intro s a s' hs ha hstep hfit'
    have hstep := WriterState.Step.of_step hstep
    have hfit := hfit'.of_step hstep
    obtain ⟨hinv, hfilled⟩ := hs hfit
    exact ⟨hinv.step hfit hstep, hfilled.step hinv hfit hstep ha⟩
  exact (hboth hfit).2

/-- **What a flush leaves.** When it returns, the row of a filled bucket is the credit. -/
theorem count_of_flushReturns
    (hrun : (writer serde).run st (as ++ [.flushReturns]) = some st') (hlose : .loseData ∉ as)
    (hinv : WriterInv serde start st) (hfilled : FilledInv serde start P st)
    (hfit : st'.CountsFit serde start) {b : Bucket} (hb : P b) (hof : b.Of st'.kept) :
    st'.pg.count b = start b + st'.creditable serde b := by
  obtain ⟨t, hrest, hlast⟩ := (writer serde).run_append_some.mp hrun
  obtain ⟨u, hstep, hnil⟩ := (writer serde).run_cons_some.mp hlast
  obtain rfl := Option.some.inj hnil
  have hstep := WriterState.Step.of_step hstep
  have hfilled := filled_inv hrest hlose hinv hfilled (hfit.of_step hstep)
  cases hstep with
  | drop hdrops _ => exact absurd hdrops id
  | flushReturns hphase =>
    have hrows := hfilled.phase
    rw [hphase] at hrows
    exact hrows b hb hof

/-- Nothing is lost. -/
theorem lost_eq (hrun : (writer serde).run st as = some st')
    (hmeets : (writer serde).Meets (fun _ a => a ≠ .loseData) st as) : st'.lost = st.lost := by
  apply (writer serde).run_invariant_of_meets (I := fun s => s.lost = st.lost) _ hmeets hrun rfl
  intro s a s' hs ha hstep
  cases WriterState.Step.of_step hstep with
  | loseData => exact absurd rfl ha
  | _ => exact hs

theorem FilledInv.init (serde : SerdeJson) :
    FilledInv serde (fun _ => 0) (fun _ => True) WriterState.init :=
  ⟨fun _ _ => rfl, trivial⟩

end Runs

/-- **No over-count, and exact after a flush.** A daily count is never more than the number of
well-formed entries ever appended for it. While Redis keeps its data, a flush that returns leaves
every count of a day, and every count of a link whose row was there throughout since its upsert,
at the number of acknowledged entries. -/
theorem counts_bounded_and_exact {serde : SerdeJson} {st : WriterState} {as : List WriterAction}
    (hrun : (writer serde).run .init as = some st)
    (hfit : ∀ b, st.appended serde b < 2 ^ 53) :
    (∀ d, st.pg.globalDailyClicks.val d ≤ st.appended serde (.global d)) ∧
    (∀ c d, st.pg.linkDailyClicks.val (c, d) ≤ st.appended serde (.link c d)) ∧
    ∀ bs, as = bs ++ [.flushReturns] → .loseData ∉ as →
      (∀ d, st.pg.globalDailyClicks.val d = ackedCount serde st.redis st.log (.global d)) ∧
      ∀ c ∈ st.kept, ∀ d,
        st.pg.linkDailyClicks.val (c, d) = ackedCount serde st.redis st.log (.link c d) := by
  refine ⟨fun d => count_le_appended hrun hfit (.global d),
    fun c d => count_le_appended hrun hfit (.link c d), ?_⟩
  rintro bs rfl hlose
  have hfit : st.CountsFit serde fun _ => 0 := fun b => ⟨le_refl _, by rw [zero_add]; exact hfit b⟩
  have hexact : ∀ b, b.Of st.kept → st.pg.count b = ackedCount serde st.redis st.log b := by
    intro b hof
    rw [count_of_flushReturns hrun (fun hmem => hlose (List.mem_append_left _ hmem))
      (WriterInv.init serde) (FilledInv.init serde) hfit trivial hof]
    unfold WriterState.creditable
    rw [lost_eq hrun (Machine.meets_of_forall _ (by rintro a ha rfl; exact hlose ha) _)]
    show 0 + (0 + _) = _
    rw [zero_add, zero_add]
  exact ⟨fun d => hexact (.global d) (fun code hcode => by cases hcode),
    fun c hc d => hexact (.link c d) (fun code hcode => Option.some.inj hcode ▸ hc)⟩

/-! ## A link created during a flush -/

def clickSnapshot : RedisSnapshot :=
  ⟨HashMap.empty.insert 0 1, HashMap.empty.insert ("a", 0) 1, HashMap.empty, [], []⟩

def clickOutcome : MergeOutcome :=
  ⟨HashMap.empty.insert 0 1, HashMap.empty.insert ("a", 0) 1, 1, HashMap.empty⟩

/-- The writer starts on empty stores and records a click. -/
def clickRecorded : List WriterAction :=
  [.createLink "a" "https://example.org" none, .start, .ensureConsumerGroup,
    .selectGlobal DateTime.unixEpoch HashMap.empty, .selectLinks HashMap.empty, .rehydrated,
    .append (epochEntry 1), .readStream 1 false, .processEntry true, .endBatch]

/-- A flush of it, up to its commit. -/
def clickMerged : List WriterAction :=
  [.flush DateTime.unixEpoch, .scan "a", .captureGlobal, .assemble clickSnapshot] ++
    List.replicate 8 .exec

def clickFlushed : List WriterAction :=
  [.commit clickOutcome true, .call .answered, .call .answered, .flushReturns]

theorem counts_bounded_and_exact_click : ∃ st, (writer epochSerde).run .init
    (clickRecorded ++ clickMerged ++ clickFlushed) = some st ∧
      st.pg.globalDailyClicks.val 0 = 1 ∧ st.pg.linkDailyClicks.val ("a", 0) = 1 ∧
      ∀ d, st.pg.globalDailyClicks.val d = ackedCount epochSerde st.redis st.log (.global d) := by
  have hvalues : (((writer epochSerde).run .init (clickRecorded ++ clickMerged ++ clickFlushed)).map
      fun st => (st.pg.globalDailyClicks.val 0, st.pg.linkDailyClicks.val ("a", 0),
        decide ((st.lost ++ st.log).length ≤ 1))) = some (1, 1, true) := by
    decide
  obtain ⟨st, hrun, hst⟩ := Option.map_eq_some_iff.mp hvalues
  simp only [Prod.mk.injEq, decide_eq_true_eq] at hst
  obtain ⟨hglobal, hlink, hlen⟩ := hst
  have hfit : ∀ b, st.appended epochSerde b < 2 ^ 53 := by
    intro b
    have hle := countWhere_le_length (st.lost ++ st.log) fun e => entryHits epochSerde e b
    unfold WriterState.appended
    omega
  obtain ⟨-, -, hexact⟩ := counts_bounded_and_exact hrun hfit
  refine ⟨st, hrun, hglobal, hlink, (hexact (clickRecorded ++ clickMerged ++
    [.commit clickOutcome true, .call .answered, .call .answered]) rfl ?_).1⟩
  simp [clickRecorded, clickMerged, clickFlushed]

/-- The link is deleted once its click is recorded, and created again when the flush has done
its upsert: the flush returns, the link has an acknowledged entry and no count. -/
theorem late_link_has_no_rows : ∃ st, (writer epochSerde).run .init
    (clickRecorded ++ [.deleteLink "a"] ++ clickMerged ++
      [.createLink "a" "https://example.org" none] ++ clickFlushed) = some st ∧
      st.pg.linkExists "a" = true ∧ st.pg.linkDailyClicks.val ("a", 0) = 0 ∧
      ackedCount epochSerde st.redis st.log (.link "a" 0) = 1 := by
  have hvalues : (((writer epochSerde).run .init (clickRecorded ++ [.deleteLink "a"] ++
      clickMerged ++ [.createLink "a" "https://example.org" none] ++ clickFlushed)).map fun st =>
        (st.pg.linkExists "a", st.pg.linkDailyClicks.val ("a", 0),
          ackedCount epochSerde st.redis st.log (.link "a" 0))) = some (true, 0, 1) := by
    decide
  obtain ⟨st, hrun, hst⟩ := Option.map_eq_some_iff.mp hvalues
  simp only [Prod.mk.injEq] at hst
  exact ⟨st, hrun, hst⟩

end Kurl
