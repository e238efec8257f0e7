import Kurl.Analytics.MergeAccount
import Kurl.Lib.Machine

/-!
# Kurl — links created while a merge runs

One merge at a time, cut at its statements, with `create_link` committing at any point and
`delete_link` between merges. The three statements of the links part see three different sets of
links. A link that appears before the upsert gets its daily rows and its count; one that appears
after the update gets neither. One that appears *between* the two gets the count without the rows,
and `late_create_breaks_the_total` shows the resulting row.

`TxInv` is the invariant of a running merge, over what its transaction sees: every click count, plus
the delta the transaction has still to add to it (`pendingDelta`), is the sum of the daily rows. A
late create is the step that can break it; `noLateCreate` is the condition under which it does not.

`TxInv.exec` is the case of a statement and `TxInv.createLink` that of a creation; `RaceInv.step`
assembles them. A deletion waits for the merge's row locks, which is why it occurs between merges
only; the module on the running writer has deletions that need not wait.
-/

namespace Kurl

open Lib

/-- The tables, and the transaction of a merge if one is running. -/
structure RaceState where
  pg : Postgres
  tx : Option MergeTx

/-- A merge begins, executes a statement, commits or is rolled back; a link is created or deleted.
-/
inductive RaceAction where
  | begin (s : RedisSnapshot)
  /-- The next statement of the merge; an error rolls the transaction back. -/
  | exec
  | commit
  | rollback
  | createLink (shortCode target : String) (expiration : Option DateTime)
  | deleteLink (shortCode : String)

def RaceState.step (st : RaceState) : RaceAction → Option RaceState
  | .begin s =>
    match st.tx with
    | some _ => none
    | none => if s.NonNegative then some { st with tx := some (MergeTx.begin s) } else none
  | .exec =>
    match st.tx with
    | none => none
    | some tx =>
      match tx.exec st.pg with
      | .ok tx' => some { st with tx := some tx' }
      | .error _ => some { st with tx := none }
  | .commit =>
    match st.tx with
    | some tx => match tx.stage with
      | .commit => some ⟨tx.view st.pg, none⟩
      | _ => none
    | none => none
  | .rollback => some { st with tx := none }
  | .createLink shortCode target expiration =>
    match st.pg.createLink shortCode target expiration with
    | .ok pg => some { st with pg := pg }
    | .error _ => some st
  | .deleteLink shortCode =>
    match st.tx with
    | some _ => none
    | none =>
      match st.pg.deleteLink shortCode with
      | .ok pg => some { st with pg := pg }
      | .error _ => some st

def createRace : Machine RaceState RaceAction where
  step := RaceState.step

/-! ## The invariant -/

/-- Daily rows belong to links, are not negative, and add up to the click count, less what
is pending. -/
structure CountsMatch (pg : Postgres) (pending : String → Int) : Prop where
  foreignKey : ∀ k, (pg.linkDailyClicks.get k).isSome = true → pg.linkExists k.1 = true
  nonNegative : ∀ k, 0 ≤ pg.linkDailyClicks.val k
  clickCount : ∀ c row, pg.links.get c = some row → row.clickCount + pending c = pg.linkSum c

/-- What the local variables of a merge know about the daily rows it sees. -/
def StageInv (pg : Postgres) (s : RedisSnapshot) : MergeStage → Prop
  | .lockLinks visible => ∀ k ∈ s.linkDaily.keys,
    (pg.selectLinks visible).val k = pg.linkDailyClicks.val k
  | .upsertLinks existing => ReadEarlier existing pg.linkDailyClicks ∧
    ∀ k ∈ s.linkDaily.keys, existing.val k = pg.linkDailyClicks.val k
  | .updateLinks deltas => ∃ existing, (∀ k, 0 ≤ existing.val k) ∧
    deltas = s.deltaRows (s.linkDeltas existing)
  | _ => True

/-- The account of a running merge, over the tables as its transaction sees them. -/
structure TxInv (pg : Postgres) (tx : MergeTx) : Prop where
  snapshot : tx.snapshot.NonNegative
  linkExists : ∀ c, (tx.view pg).linkExists c = pg.linkExists c
  counts : CountsMatch (tx.view pg) tx.stage.pendingDelta
  stage : StageInv (tx.view pg) tx.snapshot tx.stage

/-- The account of the tables, and that of the merge if one is running. -/
structure RaceInv (st : RaceState) : Prop where
  counts : CountsMatch st.pg (fun _ => 0)
  tx : ∀ tx, st.tx = some tx → TxInv st.pg tx

/-! ## The condition -/

/-- The snapshot holds no click of the code. -/
def RedisSnapshot.NoClicks (s : RedisSnapshot) (code : String) : Prop :=
  ∀ e ∈ s.linkDaily.entries, e.1.1 = code → e.2 = 0

instance (s : RedisSnapshot) (code : String) : Decidable (s.NoClicks code) :=
  inferInstanceAs (Decidable (∀ e ∈ s.linkDaily.entries, e.1.1 = code → e.2 = 0))

/-- A step that does not create a link between the upsert of the daily rows and the update
of `links` of a merge that holds clicks of its code, and does not accumulate a delta of an
existing link past 64 bits. -/
def noLateCreate (st : RaceState) (a : RaceAction) : Bool :=
  match st.tx, a with
  | some tx, .createLink shortCode target expiration =>
    match tx.stage with
    | .updateLinks _ => !(st.pg.createLink shortCode target expiration).isOk ||
        decide (tx.snapshot.NoClicks shortCode)
    | _ => true
  | some tx, .exec =>
    match tx.stage with
    | .upsertLinks existing =>
      decide (∀ c ∈ st.pg.links.keys, linkDeltaSum tx.snapshot existing c ≤ i64Max)
    | _ => true
  | _, _ => true

theorem noLateCreate_createLink {st : RaceState} {code target : String}
    {expiration : Option DateTime} {pg : Postgres} {tx : MergeTx}
    {deltas : List (String × Postgres.LinkDelta)}
    (h : noLateCreate st (.createLink code target expiration) = true) (htx : st.tx = some tx)
    (hstage : tx.stage = .updateLinks deltas)
    (hok : st.pg.createLink code target expiration = .ok pg) : tx.snapshot.NoClicks code := by
  unfold noLateCreate at h
  simpa only [htx, hstage, hok, Except.isOk, Except.toBool, Bool.not_true, Bool.false_or,
    decide_eq_true_eq] using h

theorem noLateCreate_exec {st : RaceState} {tx : MergeTx}
    {existing : Table (String × NaiveDate) Int} (h : noLateCreate st .exec = true)
    (htx : st.tx = some tx) (hstage : tx.stage = .upsertLinks existing) {c : String}
    (hlink : st.pg.linkExists c = true) : linkDeltaSum tx.snapshot existing c ≤ i64Max := by
  unfold noLateCreate at h
  simp only [htx, hstage, decide_eq_true_eq] at h
  exact h c ((st.pg.links.mem_keys c).mpr hlink)

/-! ## Creation and deletion -/

section Links

variable {pg pg' : Postgres} {pending : String → Int}

/-- A code without a link has no daily rows. -/
theorem CountsMatch.linkSum_eq_zero (h : CountsMatch pg pending) {code : String}
    (hnone : pg.links.get code = none) : pg.linkSum code = 0 := by
  refine Table.sumWhere_eq_zero fun k hk => Table.val_of_none ?_
  by_contra hsome
  have hexists := h.foreignKey k (Option.isSome_iff_ne_none.mpr hsome)
  rw [Postgres.linkExists, hk, hnone] at hexists
  simp at hexists

/-- A new link starts from zero and finds no rows. -/
theorem CountsMatch.insertLink (h : CountsMatch pg pending) {code : String} {row : LinkRow}
    (hnone : pg.links.get code = none) (hrow : row.clickCount = 0) (hpending : pending code = 0) :
    CountsMatch { pg with links := pg.links.set code row } pending where
  foreignKey k hk := by
    have hexists := h.foreignKey k hk
    unfold Postgres.linkExists at hexists ⊢
    rw [Table.get_set]
    split
    · rfl
    · exact hexists
  nonNegative := h.nonNegative
  clickCount c r hr := by
    rw [Table.get_set] at hr
    split at hr
    · next hc =>
      obtain rfl := Option.some.inj hr
      subst hc
      have hsum := h.linkSum_eq_zero hnone
      show row.clickCount + pending c = pg.linkSum c
      omega
    · exact h.clickCount c r hr

/-- A deleted link takes its daily rows along. -/
theorem CountsMatch.deleteLink (h : CountsMatch pg pending) {code : String}
    (hdelete : pg.deleteLink code = .ok pg') : CountsMatch pg' pending := by
  obtain rfl := Postgres.deleteLink_ok hdelete
  refine ⟨fun k hk => ?_, fun k => ?_, fun c row hrow => ?_⟩
  · rw [Table.get_filter] at hk
    split at hk
    · next hne =>
      have hne : k.1 ≠ code := by simpa using hne
      have hexists := h.foreignKey k hk
      unfold Postgres.linkExists at hexists ⊢
      rwa [Table.get_erase, if_neg hne]
    · simp at hk
  · have hval := h.nonNegative k
    unfold Table.val at hval ⊢
    rw [Table.get_filter]
    split
    · exact hval
    · exact le_refl _
  · rw [Table.get_erase] at hrow
    split at hrow
    · simp at hrow
    · next hne =>
      rw [h.clickCount c row hrow]
      refine Table.sumWhere_congr fun k hk => ?_
      have hkeep : k.1 ≠ code := fun heq => hne (hk ▸ heq)
      simp [Table.val, Table.get_filter, hkeep]

end Links

/-! ## The statements of a merge -/

section Statements

variable {pg : Postgres} {tx tx' : MergeTx}

theorem stageInv_linksStage (pg : Postgres) (s s' : RedisSnapshot) :
    StageInv pg s (MergeTx.linksStage s') := by
  unfold MergeTx.linksStage
  split <;> trivial

theorem TxInv.begin {s : RedisSnapshot} (hpg : CountsMatch pg fun _ => 0) (hs : s.NonNegative) :
    TxInv pg (MergeTx.begin s) := by
  refine ⟨hs, fun c => by rw [MergeTx.view_begin], ?_, ?_⟩
  · rw [MergeTx.view_begin]
    rcases MergeTx.stage_begin s with h | h
    · rw [h]
      exact hpg
    · rw [h, pendingDelta_linksStage]
      exact hpg
  · rcases MergeTx.stage_begin s with h | h
    · rw [h]
      trivial
    · rw [h]
      exact stageInv_linksStage _ _ _

/-- A statement that does not touch the links part. -/
theorem TxInv.advance (h : TxInv pg tx) {rows : Writes} {stage : MergeStage}
    {outcome : MergeOutcome} (hlinks : ((tx.view pg).overlay rows).links = (tx.view pg).links)
    (hdaily : ((tx.view pg).overlay rows).linkDailyClicks = (tx.view pg).linkDailyClicks)
    (hpending : stage.pendingDelta = tx.stage.pendingDelta)
    (hstage : StageInv ((tx.view pg).overlay rows) tx.snapshot stage) :
    TxInv pg (tx.advance pg rows stage outcome) := by
  refine ⟨h.snapshot, fun c => ?_, ?_, ?_⟩
  · rw [MergeTx.view_advance, ← h.linkExists c]
    unfold Postgres.linkExists
    rw [hlinks]
  · rw [MergeTx.view_advance, MergeTx.stage_advance, hpending]
    refine ⟨fun k hk => ?_, fun k => ?_, fun c row hrow => ?_⟩
    · rw [hdaily] at hk
      unfold Postgres.linkExists
      rw [hlinks]
      exact h.counts.foreignKey k hk
    · rw [hdaily]
      exact h.counts.nonNegative k
    · rw [hlinks] at hrow
      unfold Postgres.linkSum
      rw [hdaily]
      exact h.counts.clickCount c row hrow
  · rw [MergeTx.view_advance]
    exact hstage

/-- The upsert of the daily rows: what it adds to the rows of a link is pending. -/
theorem TxInv.upsertLinks (h : TxInv pg tx) {existing : Table (String × NaiveDate) Int}
    (hstage : tx.stage = .upsertLinks existing)
    (hfit : ∀ c, pg.linkExists c = true → linkDeltaSum tx.snapshot existing c ≤ i64Max)
    (hexec : tx.exec pg = .ok tx') : TxInv pg tx' := by
  have hinv : StageInv _ _ (.upsertLinks existing) := hstage ▸ h.stage
  obtain ⟨hearlier, hread⟩ := hinv
  obtain ⟨rows, hrows, hview⟩ := upsertLinks_eq h.snapshot hearlier
  rw [MergeTx.exec_upsertLinks hstage, hrows] at hexec
  obtain rfl := Except.ok.inj hexec
  set deltas := tx.snapshot.deltaRows (tx.snapshot.linkDeltas existing) with hdeltas
  -- the commit of an empty update and the update itself promise the same
  have hpending : (if deltas.isEmpty then MergeStage.commit
      else .updateLinks deltas).pendingDelta =
        fun c => max (wrapI64 (linkDeltaSum tx.snapshot existing c)) 0 := by
    funext c
    rw [← delta_deltaRows, ← hdeltas]
    by_cases hempty : deltas.isEmpty = true
    · rw [if_pos hempty, List.isEmpty_iff.mp hempty]
      rfl
    · rw [if_neg hempty]
      rfl
  have hcounts := h.counts
  rw [hstage] at hcounts
  refine ⟨h.snapshot, fun c => ?_, ?_, ?_⟩
  · rw [MergeTx.view_advance, hview]
    exact h.linkExists c
  · -- the rows are of links, they are counts, and each click count lacks its delta
    rw [MergeTx.view_advance, MergeTx.stage_advance, hview, hpending]
    refine ⟨fun k hk => ?_, fun k => ?_, fun c row hrow => ?_⟩
    · rw [Table.get_mergeMax, liveLinkDaily, HashMap.get_filterKeys] at hk
      by_cases hlink : (tx.view pg).linkExists k.1 = true
      · exact hlink
      · rw [if_neg hlink, greatest_none_left] at hk
        exact hcounts.foreignKey k hk
    · exact le_trans (hcounts.nonNegative k)
        (Table.val_le_val_mergeMax _ (liveLinkDaily_nonneg _ h.snapshot) k)
    · have hlink : (tx.view pg).linkExists c = true := linkExists_of_get hrow
      have hsum := linkDeltaSum_eq h.snapshot hlink fun e he _ =>
        .of_val (hread e.1 (HashMap.mem_keys_of_mem he))
      have hgrow := linkGrowth_nonneg (tx.view pg) h.snapshot c
      have hbound := hfit c (h.linkExists c ▸ hlink)
      have hrow' : row.clickCount + 0 = (tx.view pg).linkSum c := hcounts.clickCount c row hrow
      rw [wrapI64_of_mem ⟨by unfold i64Min; omega, hbound⟩, hsum, max_eq_left hgrow]
      show row.clickCount +
        (((tx.view pg).linkDailyClicks.mergeMax (liveLinkDaily (tx.view pg) tx.snapshot)).sumWhere
          (fun k => k.1 = c) - (tx.view pg).linkSum c) =
        ((tx.view pg).linkDailyClicks.mergeMax (liveLinkDaily (tx.view pg) tx.snapshot)).sumWhere
          (fun k => k.1 = c)
      omega
  · rw [MergeTx.stage_advance]
    split
    · trivial
    · exact ⟨existing, fun k => (hearlier k).1, rfl⟩

/-- The update of `links` pays in what was pending. -/
theorem TxInv.updateLinks (h : TxInv pg tx) {deltas : List (String × Postgres.LinkDelta)}
    (hstage : tx.stage = .updateLinks deltas) (hexec : tx.exec pg = .ok tx') : TxInv pg tx' := by
  have hinv : StageInv _ _ (.updateLinks deltas) := hstage ▸ h.stage
  obtain ⟨existing, -, rfl⟩ := hinv
  have hcounts := h.counts
  rw [hstage] at hcounts
  rw [MergeTx.exec_updateLinks hstage] at hexec
  obtain ⟨rows, hrows, rfl⟩ := exceptMap_eq_ok hexec
  have hview := updateLinks_ok (nodup_deltaRows _ _) hrows
  refine ⟨h.snapshot, fun c => ?_, ?_, trivial⟩
  · rw [MergeTx.view_advance, hview, ← h.linkExists c]
    unfold Postgres.linkExists
    rw [Table.get_mapRows, Option.isSome_map]
  · rw [MergeTx.view_advance, MergeTx.stage_advance, hview]
    refine ⟨fun k hk => ?_, hcounts.nonNegative, fun c row hrow => ?_⟩
    · have hexists := hcounts.foreignKey k hk
      unfold Postgres.linkExists at hexists ⊢
      rwa [Table.get_mapRows, Option.isSome_map]
    · rw [Table.get_mapRows] at hrow
      obtain ⟨old, hold, rfl⟩ := Option.map_eq_some_iff.mp hrow
      have hold' : old.clickCount +
          (assoc (tx.snapshot.deltaRows (tx.snapshot.linkDeltas existing)) c).elim 0
            Postgres.LinkDelta.delta = (tx.view pg).linkSum c := hcounts.clickCount c old hold
      show (bumpRow old _).clickCount + 0 = (tx.view pg).linkSum c
      rw [← hold', add_zero, clickCount_bumpRow]

/-- **Step lemma** for the statements: each keeps the account, if the delta of a link fits in 64
bits when its rows are raised. -/
theorem TxInv.exec (h : TxInv pg tx)
    (hfit : ∀ existing, tx.stage = .upsertLinks existing →
      ∀ c, pg.linkExists c = true → linkDeltaSum tx.snapshot existing c ≤ i64Max)
    (hexec : tx.exec pg = .ok tx') : TxInv pg tx' := by
  have hinv := h.stage
  -- up to the upsert of the daily rows nothing of a link moves; the upsert makes a delta pending,
  -- and the update pays it in
  cases hstage : tx.stage with
  | selectGlobal =>
    obtain ⟨visible, -, hselect⟩ := MergeTx.exec_selectGlobal pg hstage
    obtain rfl := Except.ok.inj (hselect.symm.trans hexec)
    exact h.advance (by simp) (by simp) (by rw [hstage]; rfl) trivial
  | lockGlobal visible =>
    obtain rfl := Except.ok.inj ((MergeTx.exec_lockGlobal hstage).symm.trans hexec)
    exact h.advance (by simp) (by simp) (by rw [hstage]; rfl) trivial
  | upsertGlobal existing =>
    rw [MergeTx.exec_upsertGlobal hstage] at hexec
    obtain ⟨rows, hrows, rfl⟩ := exceptMap_eq_ok hexec
    obtain ⟨daily, hview⟩ := upsertGlobal_frame hrows
    refine h.advance (by rw [hview]) (by rw [hview]) ?_ ?_
    · rw [hstage]
      split
      · rfl
      · exact pendingDelta_linksStage _
    · split
      · trivial
      · exact stageInv_linksStage _ _ _
  | updateTotal delta =>
    rw [MergeTx.exec_updateTotal hstage] at hexec
    obtain ⟨rows, hrows, rfl⟩ := exceptMap_eq_ok hexec
    have hview := (updateTotal_ok hrows).1
    refine h.advance (by rw [hview]) (by rw [hview]) ?_ (stageInv_linksStage _ _ _)
    rw [hstage]
    exact pendingDelta_linksStage _
  | selectLinks =>
    obtain ⟨visible, hvisible, hselect⟩ := MergeTx.exec_selectLinks pg hstage
    obtain rfl := Except.ok.inj (hselect.symm.trans hexec)
    refine h.advance (by simp) (by simp) (by rw [hstage]; rfl) ?_
    intro k hk
    rw [Postgres.overlay_empty, hvisible]
    exact selectLinks_val hk
  | lockLinks visible =>
    obtain rfl := Except.ok.inj ((MergeTx.exec_lockLinks hstage).symm.trans hexec)
    refine h.advance (by simp) (by simp) (by rw [hstage]; rfl) ?_
    rw [hstage] at hinv
    rw [Postgres.overlay_empty]
    -- the rows read later are not lower than the ones seen before
    refine ⟨fun k => ?_, hinv⟩
    have hval := h.counts.nonNegative k
    unfold Table.val at hval ⊢
    rw [Postgres.selectLinks, Table.get_filter]
    split
    · exact ⟨hval, le_refl _⟩
    · exact ⟨le_refl _, hval⟩
  | upsertLinks existing => exact h.upsertLinks hstage (hfit existing hstage) hexec
  | updateLinks deltas => exact h.updateLinks hstage hexec
  | commit =>
    have heq : tx.exec pg = .ok tx := by simp only [MergeTx.exec, hstage]
    obtain rfl := Except.ok.inj (heq.symm.trans hexec)
    exact h

/-- A snapshot without clicks of a code leaves nothing pending for it. -/
theorem linkDeltaSum_of_noClicks {s : RedisSnapshot} {code : String} (h : s.NoClicks code)
    {existing : Table (String × NaiveDate) Int} (hex : ∀ k, 0 ≤ existing.val k) :
    linkDeltaSum s existing code = 0 := by
  unfold linkDeltaSum HashMap.sumFor mergeDeltas calculateMergeDelta
  refine List.sum_eq_zero fun n hn => ?_
  simp only [List.map_map, List.mem_map, List.mem_filter, decide_eq_true_eq] at hn
  obtain ⟨e, ⟨⟨r, hr, rfl⟩, hcode⟩, rfl⟩ := hn
  show max (existing.val r.1) r.2 - existing.val r.1 = 0
  rw [h r hr hcode, max_eq_left (hex r.1), sub_self]

/-- A link created while a merge runs, with nothing pending for it. -/
theorem TxInv.createLink (h : TxInv pg tx) {code target : String} {expiration : Option DateTime}
    {pg' : Postgres} (hcreate : pg.createLink code target expiration = .ok pg')
    (hlate : ∀ deltas, tx.stage = .updateLinks deltas → tx.snapshot.NoClicks code) :
    TxInv pg' tx := by
  obtain ⟨hnone, rfl⟩ := Postgres.createLink_ok hcreate
  have hviewNone : (tx.view pg).links.get code = none := by
    have hexists := h.linkExists code
    unfold Postgres.linkExists at hexists
    rw [hnone] at hexists
    simpa using hexists
  have hview : tx.view { pg with links := pg.links.set code (Postgres.newLink target expiration) } =
      { tx.view pg with
        links := (tx.view pg).links.set code (Postgres.newLink target expiration) } := by
    have hwrites : tx.writes.links.get code = none := by
      have hor : (tx.writes.links.get code).or (pg.links.get code) = none := hviewNone
      rw [hnone, Option.or_none] at hor
      exact hor
    unfold MergeTx.view Postgres.overlay
    simp only [Table.set_overlay hwrites]
  -- what the late link is still to be paid: nothing, as the snapshot has no click of it
  have hpending : tx.stage.pendingDelta code = 0 := by
    have hinv := h.stage
    cases hstage : tx.stage with
    | updateLinks deltas =>
      rw [hstage] at hinv
      obtain ⟨existing, hex, rfl⟩ := hinv
      show (assoc (tx.snapshot.deltaRows (tx.snapshot.linkDeltas existing)) code).elim 0 _ = 0
      rw [delta_deltaRows, linkDeltaSum_of_noClicks (hlate _ hstage) hex]
      decide
    | _ => rfl
  -- the links the transaction sees, their counts, and what the stage has read
  refine ⟨h.snapshot, fun c => ?_, ?_, ?_⟩
  · have hexists := h.linkExists c
    rw [hview]
    unfold Postgres.linkExists at hexists ⊢
    rw [Table.get_set, Table.get_set]
    split
    · rfl
    · exact hexists
  · rw [hview]
    exact h.counts.insertLink hviewNone rfl hpending
  · have hinv := h.stage
    rw [hview]
    cases hstage : tx.stage with
    | lockLinks visible => rw [hstage] at hinv; exact hinv
    | upsertLinks existing => rw [hstage] at hinv; exact hinv
    | updateLinks deltas => rw [hstage] at hinv; exact hinv
    | _ => trivial

end Statements

/-! ## Runs -/

/-- **Step lemma.** The tables balance, and what a running transaction sees does up to what it has
still to pay in. -/
theorem RaceInv.step {st st' : RaceState} {a : RaceAction} (h : RaceInv st)
    (hcond : noLateCreate st a = true) (hstep : createRace.step st a = some st') : RaceInv st' := by
  obtain ⟨pg, tx⟩ := st
  cases a with
  | begin s =>
    cases tx with
    | some tx => simp [createRace, RaceState.step] at hstep
    | none =>
      by_cases hs : s.NonNegative
      · obtain rfl : ⟨pg, some (MergeTx.begin s)⟩ = st' := by
          simpa [createRace, RaceState.step, hs] using hstep
        exact ⟨h.counts, fun _ htx => Option.some.inj htx ▸ TxInv.begin h.counts hs⟩
      · simp [createRace, RaceState.step, hs] at hstep
  | exec =>
    cases tx with
    | none => simp [createRace, RaceState.step] at hstep
    | some tx =>
      -- a statement fails and the transaction is over, or `TxInv.exec` carries it on
      cases hexec : tx.exec pg with
      | error e =>
        obtain rfl : ⟨pg, none⟩ = st' := by simpa [createRace, RaceState.step, hexec] using hstep
        exact ⟨h.counts, fun _ htx => by simp at htx⟩
      | ok tx' =>
        obtain rfl : ⟨pg, some tx'⟩ = st' := by
          simpa [createRace, RaceState.step, hexec] using hstep
        refine ⟨h.counts, fun _ htx => Option.some.inj htx ▸ ?_⟩
        exact (h.tx tx rfl).exec (fun existing hstage c hlink =>
          noLateCreate_exec hcond rfl hstage hlink) hexec
  | commit =>
    cases tx with
    | none => simp [createRace, RaceState.step] at hstep
    | some tx =>
      -- what the transaction saw is what the tables are now
      cases hstage : tx.stage with
      | commit =>
        obtain rfl : ⟨tx.view pg, none⟩ = st' := by
          simpa [createRace, RaceState.step, hstage] using hstep
        have hcounts := (h.tx tx rfl).counts
        rw [hstage] at hcounts
        exact ⟨hcounts, fun _ htx => by simp at htx⟩
      | _ => simp [createRace, RaceState.step, hstage] at hstep
  | rollback =>
    obtain rfl : ⟨pg, none⟩ = st' := by simpa [createRace, RaceState.step] using hstep
    exact ⟨h.counts, fun _ htx => by simp at htx⟩
  | createLink code target expiration =>
    cases hcreate : pg.createLink code target expiration with
    | error e =>
      obtain rfl : ⟨pg, tx⟩ = st' := by
        simpa [createRace, RaceState.step, hcreate] using hstep
      exact h
    | ok pg' =>
      obtain rfl : ⟨pg', tx⟩ = st' := by
        simpa [createRace, RaceState.step, hcreate] using hstep
      -- the tables have a link with no clicks, and so has what the transaction sees
      refine ⟨?_, fun tx' htx => ?_⟩
      · obtain ⟨hnone, rfl⟩ := Postgres.createLink_ok hcreate
        exact h.counts.insertLink hnone rfl rfl
      · exact (h.tx tx' htx).createLink hcreate fun deltas hstage =>
          noLateCreate_createLink hcond htx hstage hcreate
  | deleteLink code =>
    cases tx with
    | some tx => simp [createRace, RaceState.step] at hstep
    | none =>
      cases hdelete : pg.deleteLink code with
      | error e =>
        obtain rfl : ⟨pg, none⟩ = st' := by
          simpa [createRace, RaceState.step, hdelete] using hstep
        exact h
      | ok pg' =>
        obtain rfl : ⟨pg', none⟩ = st' := by
          simpa [createRace, RaceState.step, hdelete] using hstep
        exact ⟨h.counts.deleteLink hdelete, fun _ htx => by simp at htx⟩

/-- **Click counts and daily rows agree** in every state of every run from empty tables in
which no link is created late. -/
theorem clickCount_eq_linkSum {pg : Postgres} (hlinks : pg.links = Table.empty)
    (hdaily : pg.linkDailyClicks = Table.empty) {as : List RaceAction}
    (hcond : createRace.Meets (fun st a => noLateCreate st a = true) ⟨pg, none⟩ as)
    {st : RaceState} (hrun : createRace.run ⟨pg, none⟩ as = some st) {c : String}
    {row : LinkRow} (hrow : st.pg.links.get c = some row) : row.clickCount = st.pg.linkSum c := by
  have hinit : RaceInv ⟨pg, none⟩ := by
    refine ⟨⟨fun k hk => ?_, fun k => ?_, fun c row hrow => ?_⟩, fun _ htx => by simp at htx⟩
    · simp [hdaily] at hk
    · simp [hdaily]
    · simp [hlinks] at hrow
  have hinv := createRace.run_invariant_of_meets (fun _ _ _ h hc hs => RaceInv.step h hc hs)
    hcond hrun hinit
  have hcount := hinv.counts.clickCount c row hrow
  rwa [add_zero] at hcount

/-- Five clicks of one code on one day. -/
def fiveClicks : RedisSnapshot :=
  ⟨HashMap.empty, HashMap.empty.insert ("a", 0) 5, HashMap.empty, [], []⟩

/-- The link appears before the upsert, and an unrelated one late. -/
def earlyCreate : List RaceAction :=
  [.begin fiveClicks, .exec, .exec, .createLink "a" "https://example.org" none, .exec,
    .createLink "b" "https://example.org" none, .exec, .commit]

theorem clickCount_eq_linkSum_earlyCreate : ∃ st, createRace.run ⟨Postgres.empty, none⟩ earlyCreate =
    some st ∧ st.tx.isNone = true ∧ (st.pg.links.get "a").map LinkRow.clickCount = some 5 ∧
      ∀ c row, st.pg.links.get c = some row → row.clickCount = st.pg.linkSum c := by
  have hrun : ((createRace.run ⟨Postgres.empty, none⟩ earlyCreate).map fun st =>
      (st.tx.isNone, (st.pg.links.get "a").map LinkRow.clickCount)) = some (true, some 5) := by
    decide
  obtain ⟨st, hst, hvalues⟩ := Option.map_eq_some_iff.mp hrun
  obtain ⟨hidle, hcount⟩ := Prod.mk.inj hvalues
  exact ⟨st, hst, hidle, hcount, fun c row hrow =>
    clickCount_eq_linkSum rfl rfl (by decide) hst hrow⟩

/-- A link that appears between the upsert and the update gets the count without the rows. -/
theorem late_create_breaks_the_total : ∃ st, createRace.run ⟨Postgres.empty, none⟩
    [.begin fiveClicks, .exec, .exec, .exec, .createLink "a" "https://example.org" none,
      .exec, .commit] = some st ∧ st.tx.isNone = true ∧
    (st.pg.links.get "a").map LinkRow.clickCount = some 5 ∧ st.pg.linkSum "a" = 0 := by
  have hrun : ((createRace.run ⟨Postgres.empty, none⟩
      [.begin fiveClicks, .exec, .exec, .exec, .createLink "a" "https://example.org" none,
        .exec, .commit]).map fun st => (st.tx.isNone,
          (st.pg.links.get "a").map LinkRow.clickCount, st.pg.linkSum "a")) =
      some (true, some 5, 0) := by
    decide
  obtain ⟨st, hst, hvalues⟩ := Option.map_eq_some_iff.mp hrun
  simp only [Prod.mk.injEq] at hvalues
  exact ⟨st, hst, hvalues⟩

end Kurl
