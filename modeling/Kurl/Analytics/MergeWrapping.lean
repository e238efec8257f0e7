import Kurl.Analytics.MergeJoin

/-!
# Kurl — the arithmetic of a merge (`analytics/src/db/pg_snapshot_repo.rs`)

`merge_snapshot` adds up its deltas in `i64` and a release build checks no overflow. So a merge is
described here without an assumption on the range of the sums: `mergedWrapping` are the tables it
commits (`mergeSnapshot_ok`), and `MergeAccepted` says when it commits, which is when every counter
has room for its delta *as accumulated* (`mergeSnapshot_accepted_iff`).

An accumulated delta that wrapped is never the sum. So a merge that commits is exact exactly while
no sum leaves the 64-bit range (`merge_exact_or_refused_iff`): the check of Postgres sees the
wrapped delta, and a delta that is not positive it does not see at all.

Each statement has its lemma on when it is accepted (`updateTotal_le`, `updateLinks_le`), each part
of the merge one that puts them together, and the daily rows need none: a maximum fits where both
counts do.
-/

namespace Kurl

open Lib

/-- The tables after a merge, without an assumption on the range of its deltas. -/
def Postgres.mergedWrapping (pg : Postgres) (s : RedisSnapshot) : Postgres where
  links := if s.linkDaily.isEmpty then pg.links else pg.links.mapRows fun c row =>
    bumpRow row (incomingDelta (if s.HasCode c then some (wrapI64 (linkGrowth pg s c)) else none)
      (s.lastClickedAt.get c))
  linkDailyClicks := pg.linkDailyClicks.mergeMax (liveLinkDaily pg s)
  globalDailyClicks := pg.globalDailyClicks.mergeMax s.globalDaily
  totalClicks := pg.totalClicks + max (wrapI64 (globalGrowth pg s)) 0

/-- The counters that a merge adds to are in the range of their `bigint` columns. -/
structure Postgres.InRange (pg : Postgres) : Prop where
  clickCount : ∀ c row, pg.links.get c = some row → row.clickCount ≤ i64Max
  totalClicks : pg.totalClicks ≤ i64Max

/-- Every counter has room for its delta as it was accumulated. -/
structure MergeAccepted (pg : Postgres) (s : RedisSnapshot) : Prop where
  total : pg.totalClicks + max (wrapI64 (globalGrowth pg s)) 0 ≤ i64Max
  clickCount : ∀ c row, pg.links.get c = some row →
    row.clickCount + max (wrapI64 (linkGrowth pg s c)) 0 ≤ i64Max

/-- No sum of deltas leaves the 64-bit range. -/
structure DeltasFit (pg : Postgres) (s : RedisSnapshot) : Prop where
  total : globalGrowth pg s ≤ i64Max
  clickCount : ∀ c, pg.linkExists c = true → linkGrowth pg s c ≤ i64Max

section Merge

variable {pg pg' : Postgres} {s s' : RedisSnapshot} {outcome : MergeOutcome}

/-! ## What a merge that commits did -/

theorem mergeGlobal_ok (hpg : pg.NonNegative) (hs : s.NonNegative)
    (h : mergeGlobal pg s MergeOutcome.default = .ok (pg', outcome)) :
    pg' = { pg with
      globalDailyClicks := (pg.mergedWrapping s).globalDailyClicks
      totalClicks := (pg.mergedWrapping s).totalClicks } ∧
    outcome.committedGlobal = committedMap s.globalDaily (pg.selectGlobal s.globalDaily.keys) ∧
    outcome.committedLinks = HashMap.empty := by
  by_cases hempty : s.globalDaily.isEmpty = true
  · unfold mergeGlobal at h
    rw [if_pos hempty] at h
    obtain ⟨rfl, rfl⟩ := Prod.mk.inj (Except.ok.inj h)
    refine ⟨?_, ?_, rfl⟩
    · simp [Postgres.mergedWrapping, globalGrowth, Table.mergeMax_isEmpty _ hempty]
    · rw [committedMap_isEmpty hempty]
      rfl
  · obtain ⟨rows, hrows, hview⟩ := upsertGlobal_eq hs
      (Postgres.readEarlier_selectGlobal hpg s.globalDaily.keys)
    rw [mergeGlobal_eq_update _ hempty hrows (totalGlobalDelta_selectGlobal hs), hview] at h
    obtain ⟨pg₁, hupdate, hpair⟩ := exceptMap_eq_ok h
    obtain ⟨rfl, rfl⟩ := Prod.mk.inj hpair
    refine ⟨?_, rfl, rfl⟩
    by_cases hpos : wrapI64 (globalGrowth pg s) > 0
    · -- the total is updated
      rw [if_pos hpos] at hupdate
      obtain ⟨rows', hrows', rfl⟩ := exceptMap_eq_ok hupdate
      rw [(updateTotal_ok hrows').1]
      simp [Postgres.mergedWrapping, max_eq_left (le_of_lt hpos)]
    · rw [if_neg hpos] at hupdate
      obtain rfl := Except.ok.inj hupdate
      simp [Postgres.mergedWrapping, max_eq_right (not_lt.mp hpos)]

theorem mergeLinks_ok {outcome₀ : MergeOutcome} (hpg : pg.NonNegative) (hs : s.NonNegative)
    (hcommitted : outcome₀.committedLinks = HashMap.empty)
    (h : mergeLinks pg s outcome₀ = .ok (pg', outcome)) :
    pg' = { pg with
      links := (pg.mergedWrapping s).links
      linkDailyClicks := (pg.mergedWrapping s).linkDailyClicks } ∧
    outcome.committedGlobal = outcome₀.committedGlobal ∧
    outcome.committedLinks = committedMap s.linkDaily (pg.selectLinks s.linkDaily.keys) := by
  by_cases hempty : s.linkDaily.isEmpty = true
  · unfold mergeLinks at h
    rw [if_pos hempty] at h
    obtain ⟨rfl, rfl⟩ := Prod.mk.inj (Except.ok.inj h)
    have hmerge : pg.linkDailyClicks.mergeMax (liveLinkDaily pg s) = pg.linkDailyClicks :=
      Table.mergeMax_isEmpty _ (HashMap.isEmpty_filterKeys hempty _)
    refine ⟨by simp [Postgres.mergedWrapping, hempty, hmerge], rfl, ?_⟩
    rw [committedMap_isEmpty hempty, hcommitted]
  · obtain ⟨rows, hrows, hview⟩ := upsertLinks_eq hs
      (Postgres.readEarlier_selectLinks hpg s.linkDaily.keys)
    generalize hrowsEq : s.deltaRows (s.linkDeltas (pg.selectLinks s.linkDaily.keys)) = deltas
    have hlinks : (pg.mergedWrapping s).links = pg.links.mapRows fun c row =>
        bumpRow row (assoc deltas c) := by
      unfold Postgres.mergedWrapping
      simp only [hempty, Bool.false_eq_true, if_false]
      refine Table.mapRows_congr fun c row hrow => ?_
      rw [← hrowsEq, assoc_deltaRows, get_linkDeltas, linkDeltaSum_eq hs (linkExists_of_get hrow)
        fun e he _ => .of_val (selectLinks_val (HashMap.mem_keys_of_mem he))]
    rw [mergeLinks_eq_update outcome₀ hempty hrows hrowsEq.symm, hview] at h
    obtain ⟨pg₁, hupdate, hpair⟩ := exceptMap_eq_ok h
    obtain ⟨rfl, rfl⟩ := Prod.mk.inj hpair
    refine ⟨?_, rfl, rfl⟩
    by_cases hnone : deltas.isEmpty = true
    · -- nothing is sent, and no row would have changed
      rw [if_pos hnone] at hupdate
      obtain rfl := Except.ok.inj hupdate
      have hid : (pg.mergedWrapping s).links = pg.links := by
        rw [hlinks, List.isEmpty_iff.mp hnone]
        exact Table.mapRows_eq_self fun c row _ => rfl
      rw [hid]
      rfl
    · rw [if_neg hnone] at hupdate
      obtain ⟨rows', hrows', rfl⟩ := exceptMap_eq_ok hupdate
      rw [updateLinks_ok (hrowsEq ▸ nodup_deltaRows s _) hrows', hlinks]
      rfl

/-- **What a merge that succeeded did**, with deltas that may have wrapped. -/
theorem mergeSnapshot_ok (hpg : pg.NonNegative) (hs : s.NonNegative)
    (h : mergeSnapshot pg s = .ok (pg', outcome)) : pg' = pg.mergedWrapping s ∧
      outcome.committedGlobal = committedMap s.globalDaily (pg.selectGlobal s.globalDaily.keys) ∧
      outcome.committedLinks = committedMap s.linkDaily (pg.selectLinks s.linkDaily.keys) := by
  rw [mergeSnapshot_eq_bind] at h
  obtain ⟨⟨pg₁, outcome₁⟩, hglobal, hrest⟩ := exceptBind_eq_ok h
  obtain ⟨rfl, hcommitted, hlinks⟩ := mergeGlobal_ok hpg hs hglobal
  have hpg' : Postgres.NonNegative { pg with
      globalDailyClicks := (pg.mergedWrapping s).globalDailyClicks
      totalClicks := (pg.mergedWrapping s).totalClicks } :=
    { globalDailyClicks := fun d =>
        le_trans (hpg.globalDailyClicks d) (Table.val_le_val_mergeMax _ hs.1 d)
      linkDailyClicks := hpg.linkDailyClicks
      clickCount := hpg.clickCount
      totalClicks := add_nonneg hpg.totalClicks (le_max_right _ 0) }
  obtain ⟨rfl, hcommitted', hlinks'⟩ := mergeLinks_ok hpg' hs hlinks hrest
  exact ⟨rfl, hcommitted'.trans hcommitted, hlinks'⟩

/-- The iteration order inside the snapshot does not show. -/
theorem mergedWrapping_congr (h : s.Same s') : pg.mergedWrapping s = pg.mergedWrapping s' := by
  have hglobal : pg.globalDailyClicks.mergeMax s.globalDaily =
      pg.globalDailyClicks.mergeMax s'.globalDaily := by
    ext1 d
    rw [Table.get_mergeMax, Table.get_mergeMax, h.1 d]
  have hlinks : pg.linkDailyClicks.mergeMax (liveLinkDaily pg s) =
      pg.linkDailyClicks.mergeMax (liveLinkDaily pg s') := by
    ext1 k
    rw [Table.get_mergeMax, Table.get_mergeMax, liveLinkDaily, liveLinkDaily,
      HashMap.get_filterKeys, HashMap.get_filterKeys, h.2.1 k]
  have hcode : ∀ c, s.HasCode c ↔ s'.HasCode c := fun c => by
    unfold RedisSnapshot.HasCode
    simp only [h.2.1.mem_keys]
  unfold Postgres.mergedWrapping globalGrowth linkGrowth
  simp only [hglobal, hlinks, hcode, h.2.1.isEmpty, h.2.2 _]

theorem linkExists_mergedWrapping (pg : Postgres) (s : RedisSnapshot) (c : String) :
    (pg.mergedWrapping s).linkExists c = pg.linkExists c := by
  show ((if s.linkDaily.isEmpty then pg.links else _).get c).isSome = (pg.links.get c).isSome
  split
  · rfl
  · rw [Table.get_mapRows, Option.isSome_map]

theorem nonNegative_mergedWrapping (hpg : pg.NonNegative) (hs : s.NonNegative) :
    (pg.mergedWrapping s).NonNegative where
  globalDailyClicks d := le_trans (hpg.globalDailyClicks d) (Table.val_le_val_mergeMax _ hs.1 d)
  linkDailyClicks k := le_trans (hpg.linkDailyClicks k)
    (Table.val_le_val_mergeMax _ (liveLinkDaily_nonneg pg hs) k)
  clickCount c row hrow := by
    change (if s.linkDaily.isEmpty then pg.links else _).get c = some row at hrow
    split at hrow
    · exact hpg.clickCount c row hrow
    · rw [Table.get_mapRows] at hrow
      obtain ⟨old, hold, rfl⟩ := Option.map_eq_some_iff.mp hrow
      rw [clickCount_bumpRow, delta_incomingDelta]
      exact add_nonneg (hpg.clickCount c old hold) (le_max_right _ 0)
  totalClicks := add_nonneg hpg.totalClicks (le_max_right _ 0)

/-- A merge that adds less than `2^63` clicks to a link adds them to its click count. -/
theorem get_links_mergedWrapping {c : String} (hs : s.NonNegative)
    (hfit : linkGrowth pg s c ≤ i64Max) :
    (pg.mergedWrapping s).links.get c = (pg.merged s).links.get c := by
  have hnonneg := linkGrowth_nonneg pg hs c
  have hwrap : wrapI64 (linkGrowth pg s c) = linkGrowth pg s c :=
    wrapI64_of_mem ⟨by unfold i64Min; omega, hfit⟩
  unfold Postgres.mergedWrapping Postgres.merged
  simp only
  split
  · rfl
  · rw [Table.get_mapRows, Table.get_mapRows, hwrap]

/-- The rows of `links`, each with the delta as it was accumulated. -/
theorem clickCount_mergedWrapping (hs : s.NonNegative) {c : String} {row : LinkRow}
    (hrow : pg.links.get c = some row) : ∃ row', (pg.mergedWrapping s).links.get c = some row' ∧
      row'.clickCount = row.clickCount + max (wrapI64 (linkGrowth pg s c)) 0 := by
  have hcount : ¬ s.HasCode c → max (wrapI64 (linkGrowth pg s c)) 0 = 0 := fun hcode => by
    rw [linkGrowth_eq_zero hs (linkExists_of_get hrow) hcode, wrapI64_zero, max_self]
  by_cases hempty : s.linkDaily.isEmpty = true
  · refine ⟨row, ?_, by rw [hcount (s.not_hasCode hempty c), add_zero]⟩
    show (if s.linkDaily.isEmpty then pg.links else _).get c = _
    rw [if_pos hempty, hrow]
  · refine ⟨bumpRow row (incomingDelta (if s.HasCode c then some (wrapI64 (linkGrowth pg s c))
      else none) (s.lastClickedAt.get c)), ?_, ?_⟩
    · show (if s.linkDaily.isEmpty then pg.links else _).get c = _
      rw [if_neg hempty, Table.get_mapRows, hrow, Option.map_some]
    · rw [clickCount_bumpRow, delta_incomingDelta]
      by_cases hcode : s.HasCode c
      · rw [if_pos hcode, Option.getD_some]
      · rw [if_neg hcode, hcount hcode]
        rfl

/-! ## When a merge commits -/

theorem updateTotal_le {delta : Int} {rows : Writes} (h : pg.updateTotal delta = .ok rows) :
    pg.totalClicks + delta ≤ i64Max := by
  unfold Postgres.updateTotal addChecked at h
  by_cases hfit : i64Min ≤ pg.totalClicks + delta ∧ pg.totalClicks + delta ≤ i64Max
  · exact hfit.2
  · rw [if_neg hfit] at h
    cases h

theorem updateLinks_le {incoming : List (String × Postgres.LinkDelta)} {rows : Writes}
    (h : pg.updateLinks incoming = .ok rows) {e : String × Postgres.LinkDelta}
    (he : e ∈ incoming) {row : LinkRow} (hrow : pg.links.get e.1 = some row) :
    row.clickCount + e.2.delta ≤ i64Max := by
  obtain ⟨w, w', hstep⟩ := foldlM_step_ok h he
  unfold Postgres.updateLink addChecked at hstep
  simp only [hrow] at hstep
  by_cases hfit : i64Min ≤ row.clickCount + e.2.delta ∧ row.clickCount + e.2.delta ≤ i64Max
  · exact hfit.2
  · rw [if_neg hfit] at hstep
    cases hstep

/-- The global part commits if the total has room for the accumulated delta. -/
theorem mergeGlobal_accepted_iff (hpg : pg.NonNegative) (hs : s.NonNegative)
    (hrange : pg.totalClicks ≤ i64Max) :
    (∃ r, mergeGlobal pg s MergeOutcome.default = .ok r) ↔
      pg.totalClicks + max (wrapI64 (globalGrowth pg s)) 0 ≤ i64Max := by
  have htotal := hpg.totalClicks
  by_cases hempty : s.globalDaily.isEmpty = true
  · have hgrow : globalGrowth pg s = 0 := by
      simp [globalGrowth, Table.mergeMax_isEmpty _ hempty]
    rw [hgrow, wrapI64_zero, max_self, add_zero]
    exact ⟨fun _ => hrange, fun _ => ⟨_, if_pos hempty⟩⟩
  · obtain ⟨rows, hrows, hview⟩ := upsertGlobal_eq hs
      (Postgres.readEarlier_selectGlobal hpg s.globalDaily.keys)
    rw [mergeGlobal_eq_update _ hempty hrows (totalGlobalDelta_selectGlobal hs), hview]
    by_cases hpos : wrapI64 (globalGrowth pg s) > 0
    · rw [if_pos hpos, max_eq_left (le_of_lt hpos)]
      constructor
      · rintro ⟨r, hr⟩
        obtain ⟨pg₁, hupdate, -⟩ := exceptMap_eq_ok hr
        obtain ⟨rows', hrows', -⟩ := exceptMap_eq_ok hupdate
        exact updateTotal_le hrows'
      · intro hfit
        obtain ⟨rows', hrows'⟩ : ∃ rows', Postgres.updateTotal
            { pg with globalDailyClicks := pg.globalDailyClicks.mergeMax s.globalDaily }
            (wrapI64 (globalGrowth pg s)) = .ok rows' :=
          updateTotal_of_fits (by simp only; omega) hfit
        rw [hrows']
        exact ⟨_, rfl⟩
    · -- a delta that is not positive is not sent
      rw [if_neg hpos, max_eq_right (not_lt.mp hpos), add_zero]
      exact ⟨fun _ => hrange, fun _ => ⟨_, rfl⟩⟩

/-- The links part commits if every click count has room for its accumulated delta. -/
theorem mergeLinks_accepted_iff (hpg : pg.NonNegative) (hs : s.NonNegative)
    (hrange : ∀ c row, pg.links.get c = some row → row.clickCount ≤ i64Max)
    (outcome : MergeOutcome) : (∃ r, mergeLinks pg s outcome = .ok r) ↔
      ∀ c row, pg.links.get c = some row →
        row.clickCount + max (wrapI64 (linkGrowth pg s c)) 0 ≤ i64Max := by
  by_cases hempty : s.linkDaily.isEmpty = true
  · refine ⟨fun _ c row hrow => ?_, fun _ => ⟨_, if_pos hempty⟩⟩
    rw [linkGrowth_eq_zero hs (linkExists_of_get hrow) (s.not_hasCode hempty c),
      wrapI64_zero, max_self, add_zero]
    exact hrange c row hrow
  · obtain ⟨rows, hrows, hview⟩ := upsertLinks_eq hs
      (Postgres.readEarlier_selectLinks hpg s.linkDaily.keys)
    generalize hrowsEq : s.deltaRows (s.linkDeltas (pg.selectLinks s.linkDaily.keys)) = deltas
    -- what the arrays add to the click count of a link
    have hadds : ∀ c row, pg.links.get c = some row →
        (assoc deltas c).elim 0 Postgres.LinkDelta.delta =
          max (wrapI64 (linkGrowth pg s c)) 0 := by
      intro c row hrow
      rw [← hrowsEq, delta_deltaRows, linkDeltaSum_eq hs (linkExists_of_get hrow)
        fun e he _ => .of_val (selectLinks_val (HashMap.mem_keys_of_mem he))]
    rw [mergeLinks_eq_update outcome hempty hrows hrowsEq.symm, hview]
    constructor
    · rintro ⟨r, hr⟩ c row hrow
      obtain ⟨pg₁, hupdate, -⟩ := exceptMap_eq_ok hr
      rw [← hadds c row hrow]
      cases hassoc : assoc deltas c with
      | none =>
        rw [Option.elim_none, add_zero]
        exact hrange c row hrow
      | some d =>
        have hmem := mem_of_assoc hassoc
        have hsome : ¬ deltas.isEmpty = true := fun hnone => by
          rw [List.isEmpty_iff.mp hnone] at hmem
          cases hmem
        rw [if_neg hsome] at hupdate
        obtain ⟨rows', hrows', -⟩ := exceptMap_eq_ok hupdate
        exact updateLinks_le hrows' hmem hrow
    · intro hfit
      by_cases hnone : deltas.isEmpty = true
      · rw [if_pos hnone]
        exact ⟨_, rfl⟩
      · obtain ⟨rows', hrows'⟩ : ∃ rows', Postgres.updateLinks
            { pg with linkDailyClicks := pg.linkDailyClicks.mergeMax (liveLinkDaily pg s) }
            deltas = .ok rows' := by
          refine updateLinks_of_fits fun e he row hrow => ?_
          have hdelta := hadds e.1 row hrow
          rw [assoc_of_mem (hrowsEq ▸ nodup_deltaRows s _) he, Option.elim_some] at hdelta
          have hcount := hpg.clickCount e.1 row hrow
          have hbound := hfit e.1 row hrow
          rw [hdelta]
          omega
        rw [if_neg hnone, hrows']
        exact ⟨_, rfl⟩

/-- **When a merge commits**: when every counter has room for its delta as accumulated. -/
theorem mergeSnapshot_accepted_iff (hpg : pg.NonNegative) (hrange : pg.InRange)
    (hs : s.NonNegative) :
    (∃ outcome, mergeSnapshot pg s = .ok (pg.mergedWrapping s, outcome)) ↔ MergeAccepted pg s := by
  have hglobal := mergeGlobal_accepted_iff hpg hs hrange.totalClicks
  -- the links part does not look at what the global part wrote
  have hnonneg : Postgres.NonNegative { pg with
      globalDailyClicks := (pg.mergedWrapping s).globalDailyClicks
      totalClicks := (pg.mergedWrapping s).totalClicks } :=
    ⟨(nonNegative_mergedWrapping hpg hs).globalDailyClicks, hpg.linkDailyClicks, hpg.clickCount,
      (nonNegative_mergedWrapping hpg hs).totalClicks⟩
  have hlinks := mergeLinks_accepted_iff hnonneg hs hrange.clickCount
  rw [mergeSnapshot_eq_bind]
  constructor
  · rintro ⟨outcome, h⟩
    obtain ⟨⟨pg₁, o⟩, hfirst, hrest⟩ := exceptBind_eq_ok h
    obtain ⟨rfl, -, -⟩ := mergeGlobal_ok hpg hs hfirst
    exact ⟨hglobal.mp ⟨_, hfirst⟩, (hlinks o).mp ⟨_, hrest⟩⟩
  · rintro ⟨htotal, hcount⟩
    obtain ⟨⟨pg₁, o⟩, hfirst⟩ := hglobal.mpr htotal
    obtain ⟨rfl, -, -⟩ := mergeGlobal_ok hpg hs hfirst
    obtain ⟨⟨pg₂, o'⟩, hrest⟩ := (hlinks o).mpr hcount
    have hmerge : mergeSnapshot pg s = .ok (pg₂, o') := by
      rw [mergeSnapshot_eq_bind, hfirst, MergeTx.ok_bind]
      exact hrest
    obtain ⟨rfl, -, -⟩ := mergeSnapshot_ok hpg hs hmerge
    rw [mergeSnapshot_eq_bind] at hmerge
    exact ⟨o', hmerge⟩

/-! ## Exact or refused -/

/-- The counters moved by exactly what their daily rows moved. -/
structure Postgres.MovedExactly (pg pg' : Postgres) : Prop where
  total : pg'.totalClicks - pg.totalClicks =
    pg'.globalDailyClicks.sum - pg.globalDailyClicks.sum
  clickCount : ∀ c row, pg.links.get c = some row → ∃ row', pg'.links.get c = some row' ∧
    row'.clickCount - row.clickCount = pg'.linkSum c - pg.linkSum c

theorem movedExactly_iff (hs : s.NonNegative) :
    pg.MovedExactly (pg.mergedWrapping s) ↔ DeltasFit pg s := by
  have htotal : (pg.mergedWrapping s).totalClicks - pg.totalClicks =
      max (wrapI64 (globalGrowth pg s)) 0 := add_sub_cancel_left _ _
  constructor
  · rintro ⟨hglobal, hlinks⟩
    rw [htotal] at hglobal
    refine ⟨(max_wrapI64_eq_iff (globalGrowth_nonneg pg hs)).mp hglobal, fun c hexists => ?_⟩
    obtain ⟨row, hrow⟩ := Option.isSome_iff_exists.mp hexists
    obtain ⟨row', hrow', hmoved⟩ := hlinks c row hrow
    obtain ⟨row₁, hrow₁, hcount⟩ := clickCount_mergedWrapping hs hrow
    obtain rfl := Option.some.inj (hrow'.symm.trans hrow₁)
    rw [hcount, add_sub_cancel_left] at hmoved
    exact (max_wrapI64_eq_iff (linkGrowth_nonneg pg hs c)).mp hmoved
  · rintro ⟨hglobal, hlinks⟩
    refine ⟨?_, fun c row hrow => ?_⟩
    · rw [htotal]
      exact (max_wrapI64_eq_iff (globalGrowth_nonneg pg hs)).mpr hglobal
    · obtain ⟨row', hrow', hcount⟩ := clickCount_mergedWrapping hs hrow
      refine ⟨row', hrow', ?_⟩
      rw [hcount, add_sub_cancel_left]
      exact (max_wrapI64_eq_iff (linkGrowth_nonneg pg hs c)).mpr (hlinks c (linkExists_of_get hrow))

/-- **Exact or refused.** A merge fails, and then rolls back, or moves every counter by exactly
the growth of its daily rows: exactly if the sums of the deltas stay in the 64-bit range, or some
counter has no room for its delta as accumulated. -/
theorem merge_exact_or_refused_iff (hpg : pg.NonNegative) (hrange : pg.InRange)
    (hs : s.NonNegative) :
    ((∃ e, mergeSnapshot pg s = .error e) ∨
      ∃ pg' outcome, mergeSnapshot pg s = .ok (pg', outcome) ∧ pg.MovedExactly pg') ↔
      DeltasFit pg s ∨ ¬ MergeAccepted pg s := by
  rw [← mergeSnapshot_accepted_iff hpg hrange hs, ← movedExactly_iff hs]
  cases hmerge : mergeSnapshot pg s with
  | error e => simp
  | ok r =>
    obtain ⟨pg', outcome⟩ := r
    obtain ⟨rfl, -, -⟩ := mergeSnapshot_ok hpg hs hmerge
    simp

end Merge

/-- Two days with `2^62` clicks each. -/
def twoFullDays : RedisSnapshot :=
  ⟨(HashMap.empty.insert 0 (2 ^ 62)).insert 1 (2 ^ 62), HashMap.empty, HashMap.empty, [], []⟩

theorem Postgres.empty_nonNegative : Postgres.empty.NonNegative where
  globalDailyClicks _ := le_refl _
  linkDailyClicks _ := le_refl _
  clickCount _ _ hrow := by cases hrow
  totalClicks := le_refl _

theorem Postgres.empty_inRange : Postgres.empty.InRange where
  clickCount _ _ hrow := by cases hrow
  totalClicks := by decide

theorem twoFullDays_nonNegative : twoFullDays.NonNegative := by decide

/-- The sum wraps to a negative number, which is not sent: the total stays behind. -/
theorem total_misses_twoFullDays : twoFullDays.NonNegative ∧
    ¬ ((∃ e, mergeSnapshot Postgres.empty twoFullDays = .error e) ∨
      ∃ pg' outcome, mergeSnapshot Postgres.empty twoFullDays = .ok (pg', outcome) ∧
        Postgres.empty.MovedExactly pg') := by
  have hmerge : (mergeSnapshot Postgres.empty twoFullDays).map
      (fun r => (r.1.totalClicks, r.1.globalDailyClicks.sum)) = .ok (0, 2 ^ 63) := by decide
  refine ⟨by decide, ?_⟩
  rintro (⟨e, he⟩ | ⟨pg', outcome, hok, hmoved⟩)
  · rw [he] at hmerge
    cases hmerge
  · rw [hok] at hmerge
    obtain ⟨htotal, hsum⟩ := Prod.mk.inj (Except.ok.inj hmerge)
    have heq := hmoved.total
    rw [htotal, hsum] at heq
    exact absurd heq (by decide)

theorem merge_exact_or_refused_iff_twoFullDays :
    ¬ ((∃ e, mergeSnapshot Postgres.empty twoFullDays = .error e) ∨
      ∃ pg' outcome, mergeSnapshot Postgres.empty twoFullDays = .ok (pg', outcome) ∧
        Postgres.empty.MovedExactly pg') := by
  rw [merge_exact_or_refused_iff Postgres.empty_nonNegative Postgres.empty_inRange
    twoFullDays_nonNegative]
  rintro (hfit | hrefused)
  · exact absurd hfit.total (by decide)
  · exact hrefused ⟨by decide, fun c row hrow => by cases hrow⟩

end Kurl
