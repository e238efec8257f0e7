import Kurl.Analytics.ConsumerShutdown

/-!
# Kurl — statistics do not go back

A reader of the tables sees every count again or a larger one (`stats_never_decrease`): merges write
the greater of two values, add nothing negative and roll back as a whole, and nothing else writes to
the counts of a link that is not deleted. This asks nothing of Redis, which may lose its data and be
rehydrated, and nothing of the snapshots, whose sums may wrap.

`Postgres.GrowsTo` is the order, `Executed.grows` what one statement of a merge does to it, and
`WriterState.GrowInv` says that a running merge sees tables that have grown. Links that come or go
meanwhile concern rows that the merge has not written, so they leave the order between what it sees
and what there is.

The instances are taken to be one writer here (`Fleet.KeepsGuard`). Two merges at once are the
subject of `Kurl.Analytics.TwoMerges`.
-/

namespace Kurl

open Lib

/-- What can be read of a code, and in total, is there again or greater. -/
structure Postgres.GrowsTo (code : String) (pg pg' : Postgres) : Prop where
  totalClicks : pg.totalClicks ≤ pg'.totalClicks
  globalDaily : ∀ d, NullLe (pg.globalDailyClicks.get d) (pg'.globalDailyClicks.get d)
  linkDaily : ∀ d, NullLe (pg.linkDailyClicks.get (code, d)) (pg'.linkDailyClicks.get (code, d))
  link : ∀ row, pg.links.get code = some row → ∃ row', pg'.links.get code = some row' ∧
    row'.target = row.target ∧ row'.expiration = row.expiration ∧
    row.clickCount ≤ row'.clickCount ∧ NullLe row.lastClickedAt row'.lastClickedAt

/-- What the next statement adds is not negative. -/
def MergeStage.Adds : MergeStage → Prop
  | .updateTotal delta => 0 ≤ delta
  | .updateLinks deltas => ∀ e ∈ deltas, 0 ≤ e.2.delta
  | _ => True

namespace Postgres.GrowsTo

variable {code : String} {pg pg' pg'' : Postgres}

theorem refl (code : String) (pg : Postgres) : pg.GrowsTo code pg where
  totalClicks := le_refl _
  globalDaily := fun _ => nullLe_refl _
  linkDaily := fun _ => nullLe_refl _
  link := fun row hrow => ⟨row, hrow, rfl, rfl, le_refl _, nullLe_refl _⟩

theorem trans (h : pg.GrowsTo code pg') (h' : pg'.GrowsTo code pg'') : pg.GrowsTo code pg'' where
  totalClicks := h.totalClicks.trans h'.totalClicks
  globalDaily := fun d => (h.globalDaily d).trans (h'.globalDaily d)
  linkDaily := fun d => (h.linkDaily d).trans (h'.linkDaily d)
  link := by
    intro row hrow
    obtain ⟨row', hrow', htarget, hexpiration, hcount, hlast⟩ := h.link row hrow
    obtain ⟨row'', hrow'', htarget', hexpiration', hcount', hlast'⟩ := h'.link row' hrow'
    exact ⟨row'', hrow'', htarget'.trans htarget, hexpiration'.trans hexpiration,
      hcount.trans hcount', hlast.trans hlast'⟩

/-- A link is created on both sides. -/
theorem set (h : pg.GrowsTo code pg') (c : String) (row : LinkRow) :
    GrowsTo code { pg with links := pg.links.set c row }
      { pg' with links := pg'.links.set c row } where
  totalClicks := h.totalClicks
  globalDaily := h.globalDaily
  linkDaily := h.linkDaily
  link := by
    intro row₁ hrow
    change (pg.links.set c row).get code = some row₁ at hrow
    show ∃ row', (pg'.links.set c row).get code = some row' ∧ _
    rw [Table.get_set] at hrow ⊢
    split at hrow
    · next hc =>
      rw [if_pos hc]
      exact ⟨row₁, hrow, rfl, rfl, le_refl _, nullLe_refl _⟩
    · next hc =>
      rw [if_neg hc]
      exact h.link row₁ hrow

/-- A link is deleted on both sides. -/
theorem withoutLink (h : pg.GrowsTo code pg') (c : String) :
    (pg.withoutLink c).GrowsTo code (pg'.withoutLink c) where
  totalClicks := h.totalClicks
  globalDaily := h.globalDaily
  linkDaily := by
    intro d
    show NullLe ((pg.linkDailyClicks.filter _).get (code, d))
      ((pg'.linkDailyClicks.filter _).get (code, d))
    rw [Table.get_filter, Table.get_filter]
    split
    · exact h.linkDaily d
    · exact nullLe_refl _
  link := by
    intro row hrow
    change (pg.links.erase c).get code = some row at hrow
    show ∃ row', (pg'.links.erase c).get code = some row' ∧ _
    rw [Table.get_erase] at hrow ⊢
    split at hrow
    · cases hrow
    · next hc =>
      rw [if_neg hc]
      exact h.link row hrow

/-- Only a link of another code is deleted. -/
theorem of_withoutLink {c : String} (hc : c ≠ code) : pg.GrowsTo code (pg.withoutLink c) where
  totalClicks := le_refl _
  globalDaily := fun _ => nullLe_refl _
  linkDaily := by
    intro d
    show NullLe _ ((pg.linkDailyClicks.filter _).get (code, d))
    have hne : code ≠ c := fun heq => hc heq.symm
    rw [Table.get_filter, if_pos (decide_eq_true hne)]
    exact nullLe_refl _
  link := by
    intro row hrow
    refine ⟨row, ?_, rfl, rfl, le_refl _, nullLe_refl _⟩
    show (pg.links.erase c).get code = some row
    rw [Table.get_erase, if_neg fun heq : code = c => hc heq.symm]
    exact hrow

end Postgres.GrowsTo

/-! ## A statement of a merge -/

section Statement

variable {s : RedisSnapshot} {pg pg' : Postgres} {o o' : MergeOutcome} {stage stage' : MergeStage}

theorem adds_linksStage (s : RedisSnapshot) : (MergeTx.linksStage s).Adds := by
  unfold MergeTx.linksStage
  split <;> trivial

theorem adds_deltaRows (s : RedisSnapshot) (linkDeltas : HashMap String Int) :
    ∀ e ∈ s.deltaRows linkDeltas, 0 ≤ e.2.delta := by
  intro e he
  rcases List.mem_append.mp he with he | he
  · obtain ⟨e', -, rfl⟩ := List.mem_map.mp he
    exact le_max_right _ _
  · obtain ⟨e', -, rfl⟩ := List.mem_map.mp he
    exact le_refl _

/-- What an element that is not negative does to a row. -/
theorem bumpRow_grows (row : LinkRow) {incoming : Option Postgres.LinkDelta}
    (hadds : ∀ d ∈ incoming, 0 ≤ d.delta) : row.clickCount ≤ (bumpRow row incoming).clickCount ∧
      NullLe row.lastClickedAt (bumpRow row incoming).lastClickedAt := by
  cases incoming with
  | none => exact ⟨le_refl _, nullLe_refl _⟩
  | some d =>
    have hpos := hadds d rfl
    refine ⟨?_, nullLe_greatest_left _ _⟩
    show row.clickCount ≤ row.clickCount + d.delta
    omega

/-- **What a statement of a merge does.** -/
theorem Executed.grows (h : Executed s pg o stage pg' stage' o') (hadds : stage.Adds)
    (code : String) : pg.GrowsTo code pg' ∧ stage'.Adds := by
  have hrefl := Postgres.GrowsTo.refl code pg
  cases h with
  | selectGlobal _ => exact ⟨hrefl, trivial⟩
  | lockGlobal _ => exact ⟨hrefl, trivial⟩
  | upsertGlobal existing hdaily =>
    -- `greatest` keeps the larger count, whatever the merge had read
    refine ⟨⟨hrefl.totalClicks, fun d => ?_, hrefl.linkDaily, hrefl.link⟩, ?_⟩
    · show NullLe _ (Table.get _ d)
      rw [hdaily]
      exact nullLe_greatest_right _ _
    · split
      · next hpos => exact le_of_lt hpos
      · exact adds_linksStage s
  | @updateTotal delta _ =>
    -- an `update` runs with a positive delta only
    refine ⟨⟨?_, hrefl.globalDaily, hrefl.linkDaily, hrefl.link⟩, adds_linksStage s⟩
    have hpos : 0 ≤ delta := hadds
    show pg.totalClicks ≤ pg.totalClicks + delta
    omega
  | selectLinks _ => exact ⟨hrefl, trivial⟩
  | lockLinks _ => exact ⟨hrefl, trivial⟩
  | upsertLinks existing hdaily =>
    refine ⟨⟨hrefl.totalClicks, hrefl.globalDaily, fun d => ?_, hrefl.link⟩, ?_⟩
    · show NullLe _ (Table.get _ (code, d))
      rw [hdaily]
      split
      · exact nullLe_greatest_right _ _
      · exact nullLe_refl _
    · split
      · trivial
      · exact adds_deltaRows s _
  | updateLinks deltas =>
    -- likewise for each link, and the last click is the later one
    refine ⟨⟨hrefl.totalClicks, hrefl.globalDaily, hrefl.linkDaily, fun row hrow => ?_⟩, trivial⟩
    have hassoc : ∀ d ∈ assoc deltas code, 0 ≤ d.delta := fun d hd =>
      hadds (code, d) (mem_of_assoc hd)
    obtain ⟨hcount, hlast⟩ := bumpRow_grows row hassoc
    refine ⟨bumpRow row (assoc deltas code), ?_, target_bumpRow _ _, expiration_bumpRow _ _,
      hcount, hlast⟩
    show (pg.links.mapRows _).get code = _
    rw [Table.get_mapRows, hrow]
    rfl
  | commit => exact ⟨hrefl, trivial⟩

end Statement

/-! ## The writer -/

/-- A running merge sees tables that have grown. -/
def WriterState.GrowInv (st : WriterState) : Prop := ∀ tx, st.phase = .merging tx →
  TxFrame st.pg tx ∧ tx.stage.Adds ∧ ∀ code, st.pg.GrowsTo code (tx.view st.pg)

section Writer

variable {serde : SerdeJson} {st st' : WriterState} {a : WriterAction}

theorem WriterState.GrowInv.of_idle (hphase : ∀ tx, st.phase ≠ .merging tx) : st.GrowInv :=
  fun tx htx => absurd htx (hphase tx)

theorem WriterState.GrowInv.begin {s : RedisSnapshot} (hphase : st.phase =
    if s.globalDaily.isEmpty && s.linkDaily.isEmpty then .reconciling [] []
      else .merging (MergeTx.begin s)) : st.GrowInv := by
  intro tx htx
  rw [hphase] at htx
  obtain rfl := WriterPhase.eq_begin htx
  refine ⟨TxFrame.begin st.pg s, ?_, fun code => ?_⟩
  · rcases MergeTx.stage_begin s with hstage | hstage
    · rw [hstage]
      trivial
    · rw [hstage]
      exact adds_linksStage s
  · rw [MergeTx.view_begin]
    exact .refl code st.pg

/-- **Step lemma**, for a code that is not deleted: the tables grow, or are those that a running
merge has seen grow. -/
theorem WriterState.Step.grows (hstep : st.Step serde a st') (h : st.GrowInv) :
    st'.GrowInv ∧ ∀ code, a ≠ .deleteLink code → st.pg.GrowsTo code st'.pg := by
  have hsame : ∀ code, a ≠ .deleteLink code → st.pg.GrowsTo code st.pg :=
    fun code _ => .refl code st.pg
  cases hstep with
  | append entry _ => exact ⟨h, hsame⟩
  | @createLink c target expiration pg hcreate =>
    obtain ⟨hnone, rfl⟩ := Postgres.createLink_ok hcreate
    refine ⟨fun tx htx => ?_, fun code _ => ⟨le_refl _, fun _ => nullLe_refl _,
      fun _ => nullLe_refl _, fun row hrow => ?_⟩⟩
    · -- the row is new to what the merge sees as well
      obtain ⟨hframe, hadds, hgrows⟩ := h tx htx
      obtain ⟨-, hview, hframe'⟩ := hframe.view_createLink hcreate
      refine ⟨hframe', hadds, fun code => ?_⟩
      rw [hview]
      exact (hgrows code).set c _
    · -- the row that is there is not the one created
      refine ⟨row, ?_, rfl, rfl, le_refl _, nullLe_refl _⟩
      show (st.pg.links.set c _).get code = some row
      rw [Table.get_set, if_neg]
      · exact hrow
      · rintro rfl
        rw [hnone] at hrow
        cases hrow
  | @deleteLink c pg hfree hdelete =>
    obtain rfl : pg = st.pg.withoutLink c := Postgres.deleteLink_ok hdelete
    refine ⟨fun tx htx => ?_, fun code hcode => .of_withoutLink fun heq => hcode (heq ▸ rfl)⟩
    obtain ⟨hframe, hadds, hgrows⟩ := h tx htx
    obtain ⟨hview, hframe'⟩ := hframe.view_deleteLink hdelete (merging_free hfree htx)
    refine ⟨hframe', hadds, fun code => ?_⟩
    show (st.pg.withoutLink c).GrowsTo code (tx.view (st.pg.withoutLink c))
    rw [hview]
    exact (hgrows code).withoutLink c
  | createFails => exact ⟨h, hsame⟩
  | deleteFails => exact ⟨h, hsame⟩
  | loseData => exact ⟨h, hsame⟩
  | assemble _ _ => exact ⟨.begin rfl, hsame⟩
  | @exec tx tx' hphase hexec =>
    -- the tables stay until the commit, and what the merge sees grows
    refine ⟨fun tx₁ htx => ?_, hsame⟩
    obtain rfl := WriterPhase.merging.inj htx
    obtain ⟨hframe, hadds, hgrows⟩ := h tx hphase
    obtain ⟨hexecuted, -, hframe'⟩ := MergeTx.executed_of_exec hframe hexec
    exact ⟨hframe', (hexecuted.grows hadds "").2, fun code =>
      (hgrows code).trans (hexecuted.grows hadds code).1⟩
  | @commit tx outcome connected hphase hstage _ =>
    -- now the tables are what the merge has seen grow
    exact ⟨.of_idle (by simp), fun code _ => (h tx hphase).2.2 code⟩
  | @commitApplied tx hphase hstage =>
    exact ⟨.of_idle (by simp), fun code _ => (h tx hphase).2.2 code⟩
  | readStream cancelled _ _ =>
    refine ⟨.of_idle fun tx => ?_, hsame⟩
    show (if cancelled = true then _ else _) ≠ _
    split <;> simp
  | _ => exact ⟨.of_idle (by simp), hsame⟩

/-- **Run lemma.** The order is transitive, so the first and the last state are in it. -/
theorem writer_grows {code : String} {as : List WriterAction}
    (hrun : (writer serde).run st as = some st') (h : st.GrowInv)
    (hkept : .deleteLink code ∉ as) : st'.GrowInv ∧ st.pg.GrowsTo code st'.pg := by
  have hne : ∀ b ∈ as, b ≠ .deleteLink code := by
    rintro b hb rfl
    exact hkept hb
  refine (writer serde).run_invariant_of_meets (C := fun _ a => a ≠ .deleteLink code)
    (I := fun w => w.GrowInv ∧ st.pg.GrowsTo code w.pg) (fun w a w' hw ha hstep => ?_)
    (Machine.meets_of_forall _ hne st) hrun ⟨h, .refl code st.pg⟩
  obtain ⟨hinv, hgrows⟩ := (WriterState.Step.of_step hstep).grows hw.1
  exact ⟨hinv, hw.2.trans (hgrows code ha)⟩

end Writer

/-! ## The instances -/

section Instances

variable {serde : SerdeJson} {count : Nat} {st st' : Fleet} {as cs : List FleetAction}

/-- **Statistics do not go back.** Whatever the instances, the stores and the other services do, as
long as no session ends whose instance writes: from any state that is reached to any later one,
the total and the count of every day are there again or greater, and so are the counts and the
last click of a link, if it is not deleted on the way. -/
theorem stats_never_decrease (hmeets : (fleet serde count).Meets Fleet.KeepsGuard .init (as ++ cs))
    (hrun : (fleet serde count).run .init as = some st)
    (hlater : (fleet serde count).run st cs = some st') {code : String}
    (hkept : .environment (.deleteLink code) ∉ cs) :
    st.stores.pg.GrowsTo code st'.stores.pg := by
  obtain ⟨hmeets, hmeets'⟩ := ((fleet serde count).meets_append hrun).mp hmeets
  obtain ⟨bs, hbs, -⟩ := Fleet.run_refines_of_keepsGuard hmeets hrun Fleet.Guarded.init
  obtain ⟨ds, hds, hmatch⟩ := Fleet.run_refines_of_keepsGuard hmeets' hlater
    (guarded_of_run hmeets hrun Fleet.Guarded.init)
  have hinv : st.project.GrowInv :=
    (writer serde).run_invariant (fun _ _ _ h hstep => ((WriterState.Step.of_step hstep).grows h).1)
      hbs (.of_idle fun _ htx => by cases htx)
  exact (writer_grows hds hinv fun hmem =>
    hkept (FleetAction.mem_of_filter hmatch hmem rfl)).2

/-- A click is merged, and Redis loses its data. -/
theorem stats_never_decrease_click : ∃ st st',
    (fleet epochSerde 1).run .init (clickStopping.take 1) = some st ∧
      (fleet epochSerde 1).run st (clickStopping.drop 1 ++ [.environment .loseData]) = some st' ∧
      st.stores.pg.totalClicks = 0 ∧ st'.stores.pg.totalClicks = 1 ∧
      st.stores.pg.GrowsTo "a" st'.stores.pg := by
  have hvalues : ((fleet epochSerde 1).run .init (clickStopping.take 1)).bind (fun st =>
      ((fleet epochSerde 1).run st (clickStopping.drop 1 ++ [.environment .loseData])).map
        fun st' => (st.stores.pg.totalClicks, st'.stores.pg.totalClicks)) = some (0, 1) := by
    decide
  obtain ⟨st, hrun, hvalues⟩ := Option.bind_eq_some_iff.mp hvalues
  obtain ⟨st', hlater, hst⟩ := Option.map_eq_some_iff.mp hvalues
  obtain ⟨hbefore, hafter⟩ := Prod.mk.inj hst
  refine ⟨st, st', hrun, hlater, hbefore, hafter, stats_never_decrease (by decide) hrun hlater ?_⟩
  simp [clickStopping, clickMerged, clickFlushed]

end Instances

end Kurl
