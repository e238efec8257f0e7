import Kurl.Analytics.MergeWrapping

/-!
# Kurl — what a merge reports (`analytics/src/db/pg_snapshot_repo.rs`)

`merge_snapshot` builds its `MergeOutcome` in Rust before the statements run; the statements then
decide again what is written: the upserts take the `greatest` once more, and the one of
`link_daily_clicks` leaves out the codes without a row in `links`. `Truthful` compares the two.

They agree bucket by bucket on the codes that exist (`get_mergeMax_of_committed`), and only there: a
bucket of any other code is reported as committed and has no row (`mergeOutcome_truthful_iff`).

The outcome is what `reconcile_and_cleanup` raises and removes in Redis, so a bucket that is
reported and has no row is treated there as one that was stored.
-/

namespace Kurl

open Lib

/-- The reference from `link_daily_clicks` to `links`. -/
def Postgres.ForeignKey (pg : Postgres) : Prop :=
  ∀ k, (pg.linkDailyClicks.get k).isSome = true → pg.linkExists k.1 = true

/-- What is reported as committed is a row, and what is reported as a delta is the growth of a
counter. A link that is not reported has not grown. -/
structure MergeOutcome.Truthful (o : MergeOutcome) (pg pg' : Postgres) : Prop where
  committedGlobal : ∀ e ∈ o.committedGlobal.entries, pg'.globalDailyClicks.get e.1 = some e.2
  committedLinks : ∀ e ∈ o.committedLinks.entries, pg'.linkDailyClicks.get e.1 = some e.2
  globalDelta : o.globalDelta = pg'.totalClicks - pg.totalClicks
  linkDeltas : ∀ c row, pg.links.get c = some row → ∃ row', pg'.links.get c = some row' ∧
    (o.linkDeltas.get c).getD 0 = row'.clickCount - row.clickCount

section Committed

variable {κ : Type} [DecidableEq κ] {m : HashMap κ Int} {existing t : Table κ Int}

/-- A committed count is the row that the upsert leaves. -/
theorem get_mergeMax_of_committed (hm : ∀ e ∈ m.entries, 0 ≤ e.2)
    (hread : ∀ k ∈ m.keys, existing.val k = t.val k) {r : κ × Int}
    (hr : r ∈ (committedMap m existing).entries) : (t.mergeMax m).get r.1 = some r.2 := by
  obtain ⟨e, he, rfl⟩ := List.mem_map.mp hr
  have hn : 0 ≤ e.2 := hm e he
  have hval := hread e.1 (HashMap.mem_keys_of_mem he)
  rw [Table.get_mergeMax, m.get_eq_some_iff.mpr he]
  show greatest (some e.2) (t.get e.1) = some (max (existing.val e.1) e.2)
  rw [hval]
  cases hget : t.get e.1 with
  | none => rw [greatest_none_right, Table.val_of_none hget, max_eq_right hn]
  | some v => rw [greatest_some, Table.val_of_get hget, max_comm]

end Committed

section Truthful

variable {pg : Postgres} {s : RedisSnapshot}

/-- If all its codes exist, the whole snapshot is upserted. -/
theorem mergeMax_liveLinkDaily (hlinks : ∀ k ∈ s.linkDaily.keys, pg.linkExists k.1 = true) :
    pg.linkDailyClicks.mergeMax (liveLinkDaily pg s) = pg.linkDailyClicks.mergeMax s.linkDaily := by
  ext1 k
  rw [Table.get_mergeMax, Table.get_mergeMax, liveLinkDaily, HashMap.get_filterKeys]
  by_cases hk : pg.linkExists k.1 = true
  · rw [if_pos hk]
  · have hnone : s.linkDaily.get k = none :=
      s.linkDaily.get_eq_none_iff.mpr fun hmem => hk (hlinks k hmem)
    rw [if_neg hk, hnone]

/-- A bucket of a code without a link is reported, and is no row. -/
theorem not_truthful_of_missing (hkey : pg.ForeignKey) {o : MergeOutcome}
    (ho : o.committedLinks = committedMap s.linkDaily (pg.selectLinks s.linkDaily.keys))
    {k : String × NaiveDate} (hk : k ∈ s.linkDaily.keys) (hmissing : ¬ pg.linkExists k.1 = true) :
    ¬ o.Truthful pg (pg.merged s) := by
  intro htruthful
  -- the entry that the bucket has in the report
  obtain ⟨e, he, rfl⟩ := List.mem_map.mp hk
  have hentry : (e.1, (calculateMergeDelta ((pg.selectLinks s.linkDaily.keys).val e.1) e.2).1) ∈
      o.committedLinks.entries := by
    rw [ho]
    exact List.mem_map_of_mem he
  have hreported := htruthful.committedLinks _ hentry
  -- the upsert leaves it out, and there was no row before
  have hbefore : pg.linkDailyClicks.get e.1 = none := by
    cases hget : pg.linkDailyClicks.get e.1 with
    | none => rfl
    | some v => exact absurd (hkey e.1 (by rw [hget]; rfl)) hmissing
  have hafter : (pg.merged s).linkDailyClicks.get e.1 = none := by
    show (pg.linkDailyClicks.mergeMax (liveLinkDaily pg s)).get e.1 = none
    rw [Table.get_mergeMax, liveLinkDaily, HashMap.get_filterKeys, if_neg hmissing, hbefore]
    rfl
  rw [hafter] at hreported
  cases hreported

/-- **The outcome tells the truth exactly about links that exist.** With room for its sums a merge
commits, and then its outcome is truthful if and only if every code in the snapshot has a row in
`links`. -/
theorem mergeOutcome_truthful_iff (hpg : pg.NonNegative) (hkey : pg.ForeignKey)
    (hs : s.NonNegative) (hfit : MergeFits pg s) :
    ∃ pg' o, mergeSnapshot pg s = .ok (pg', o) ∧
      (o.Truthful pg pg' ↔ ∀ k ∈ s.linkDaily.keys, pg.linkExists k.1 = true) := by
  refine ⟨_, _, mergeSnapshot_eq hpg hs hfit, fun htruthful k hk => ?_, fun hlinks => ?_⟩
  · by_contra hmissing
    exact not_truthful_of_missing hkey rfl hk hmissing htruthful
  · refine ⟨fun e he => ?_, fun e he => ?_, (add_sub_cancel_left _ _).symm, fun c row hrow => ?_⟩
    · exact get_mergeMax_of_committed hs.1 (fun d hd => selectGlobal_val hd) he
    · show (pg.linkDailyClicks.mergeMax (liveLinkDaily pg s)).get e.1 = some e.2
      rw [mergeMax_liveLinkDaily hlinks]
      exact get_mergeMax_of_committed hs.2 (fun k hk => selectLinks_val hk) he
    · obtain ⟨row', hrow', hcount, -⟩ := get_links_merged hs hrow
      refine ⟨row', hrow', ?_⟩
      rw [hcount, add_sub_cancel_left,
        get_linkDeltas_of_link hpg hs hrow (hfit.clickCount c row hrow)]
      by_cases hcode : s.HasCode c
      · rw [if_pos hcode, Option.getD_some]
      · rw [if_neg hcode, Option.getD_none, linkGrowth_eq_zero hs (linkExists_of_get hrow) hcode]

end Truthful

/-- Five clicks on a code that has no link. -/
def clicksWithoutLink : RedisSnapshot :=
  ⟨HashMap.empty, HashMap.empty.insert ("b", 0) 5, HashMap.empty, [], []⟩

/-- The five clicks are reported as committed, and there is no row. -/
theorem reports_clicksWithoutLink : clicksWithoutLink.NonNegative ∧
    (mergeSnapshot Postgres.empty clicksWithoutLink).map (fun r =>
      (r.2.committedLinks.get ("b", 0), r.1.linkDailyClicks.get ("b", 0))) =
        .ok (some 5, none) ∧
    ∀ pg' o, mergeSnapshot Postgres.empty clicksWithoutLink = .ok (pg', o) →
      ¬ o.Truthful Postgres.empty pg' := by
  have hmerge : (mergeSnapshot Postgres.empty clicksWithoutLink).map (fun r =>
      (r.2.committedLinks.get ("b", 0), r.1.linkDailyClicks.get ("b", 0))) =
        .ok (some 5, none) := by decide
  refine ⟨by decide, hmerge, fun pg' o hok htruthful => ?_⟩
  rw [hok] at hmerge
  obtain ⟨hreported, hrow⟩ := Prod.mk.inj (Except.ok.inj hmerge)
  have hmem := o.committedLinks.get_eq_some_iff.mp hreported
  rw [htruthful.committedLinks _ hmem] at hrow
  cases hrow

/-- Two clicks on the link of `onePg`. -/
def clicksOnLink : RedisSnapshot :=
  ⟨HashMap.empty.insert 0 2, HashMap.empty.insert ("a", 0) 2, HashMap.empty, [], []⟩

/-- Clicks on a link that exists are reported as they were committed. -/
theorem mergeOutcome_truthful_iff_clicksOnLink : ∃ pg' o,
    mergeSnapshot onePg clicksOnLink = .ok (pg', o) ∧ o.Truthful onePg pg' := by
  have hkey : onePg.ForeignKey := fun k hk => by
    have hall : ∀ k ∈ onePg.linkDailyClicks.keys, onePg.linkExists k.1 = true := by decide
    exact hall k ((onePg.linkDailyClicks.mem_keys k).mpr hk)
  have hfit : MergeFits onePg clicksOnLink := by
    refine ⟨by decide, fun c row hrow => ?_⟩
    have hall : ∀ k ∈ onePg.links.keys, (onePg.links.get k).all (fun r =>
        decide (r.clickCount + linkGrowth onePg clicksOnLink k ≤ i64Max)) = true := by decide
    simpa using Table.forall_rows
      (p := fun k r => decide (r.clickCount + linkGrowth onePg clicksOnLink k ≤ i64Max)) hall hrow
  obtain ⟨pg', o, hmerge, hiff⟩ :=
    mergeOutcome_truthful_iff onePg_nonNegative hkey (by decide) hfit
  exact ⟨pg', o, hmerge, hiff.mpr (by decide)⟩

end Kurl
