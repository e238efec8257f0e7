import Kurl.Analytics.MergeWrapping

/-!
# Kurl — last clicks through a merge (`analytics/src/db/pg_snapshot_repo.rs`)

A timestamp reaches `links.last_clicked_at` on one of two ways: with the delta of a code that has
buckets, or, for a code that has none, alone. On the first way a missing timestamp is replaced by
`UNIX_EPOCH` as soon as the delta is positive, and `greatest` does not ignore it; on the second way
a link is written although no bucket in the snapshot is its own.

`get_links_mergeSnapshot` has both ways in one row; `merge_keeps_lastClick_iff` is about every table
and every snapshot, whatever its counts are.

`LastClicksMerged` is what a reader expects of the column: the later of what was there and what was
captured, and no change for a link without buckets. It holds exactly if every link with a positive
delta has a timestamp, or a last click already that is not before the epoch, and no link without
buckets has a newer one (`LastClicksKnown`).
-/

namespace Kurl

open Lib

/-- After the merge the last click of each link is the greatest of its old one and the one in the
snapshot, and a link without buckets in the snapshot is what it was. -/
structure LastClicksMerged (pg pg' : Postgres) (s : RedisSnapshot) : Prop where
  greatest : ∀ c row, pg.links.get c = some row → ∃ row', pg'.links.get c = some row' ∧
    row'.lastClickedAt = greatest row.lastClickedAt (s.lastClickedAt.get c)
  unchanged : ∀ c row, pg.links.get c = some row → ¬ s.HasCode c → pg'.links.get c = some row

/-- The sum of the deltas of a code, as the merge accumulates it. -/
def accumulatedDelta (pg : Postgres) (s : RedisSnapshot) (code : String) : Int :=
  wrapI64 (linkDeltaSum s pg.linkDailyClicks code)

/-- A link with buckets that come to a positive delta has a timestamp in the snapshot, or a last
click that is not before the epoch. A link without buckets has no newer timestamp in the
snapshot. -/
def LastClicksKnown (pg : Postgres) (s : RedisSnapshot) : Prop :=
  ∀ c row, pg.links.get c = some row →
    if s.HasCode c then
      s.lastClickedAt.get c = none → 0 < accumulatedDelta pg s c →
        NullLe (some DateTime.unixEpoch) row.lastClickedAt
    else NullLe (s.lastClickedAt.get c) row.lastClickedAt

section Merge

variable {pg pg' : Postgres} {s : RedisSnapshot} {outcome outcome' : MergeOutcome}

/-- The deltas are taken from the rows themselves: the select has read all that count. -/
theorem linkDeltaSum_selectLinks (pg : Postgres) (s : RedisSnapshot) (code : String) :
    linkDeltaSum s (pg.selectLinks s.linkDaily.keys) code =
      linkDeltaSum s pg.linkDailyClicks code := by
  have hdeltas : mergeDeltas s.linkDaily (pg.selectLinks s.linkDaily.keys) =
      mergeDeltas s.linkDaily pg.linkDailyClicks :=
    List.map_congr_left fun e he => by rw [selectLinks_val (HashMap.mem_keys_of_mem he)]
  unfold linkDeltaSum
  rw [hdeltas]

/-- The global part leaves `links` and their daily rows alone. -/
theorem mergeGlobal_frame (h : mergeGlobal pg s outcome = .ok (pg', outcome')) :
    pg'.links = pg.links ∧ pg'.linkDailyClicks = pg.linkDailyClicks := by
  by_cases hempty : s.globalDaily.isEmpty = true
  · unfold mergeGlobal at h
    rw [if_pos hempty] at h
    obtain ⟨rfl, -⟩ := Prod.mk.inj (Except.ok.inj h)
    exact ⟨rfl, rfl⟩
  · -- the upsert has succeeded, since the merge has
    obtain ⟨rows, hrows⟩ : ∃ rows, pg.upsertGlobal
        (committedRows s.globalDaily (pg.selectGlobal s.globalDaily.keys)) = .ok rows := by
      unfold mergeGlobal at h
      rw [if_neg hempty] at h
      obtain ⟨rows, hrows, -⟩ := exceptBind_eq_ok h
      exact ⟨rows, hrows⟩
    obtain ⟨daily, hview⟩ := upsertGlobal_frame hrows
    rw [mergeGlobal_eq_update outcome hempty hrows rfl, hview] at h
    obtain ⟨pg₁, hupdate, hpair⟩ := exceptMap_eq_ok h
    obtain ⟨rfl, -⟩ := Prod.mk.inj hpair
    split at hupdate
    · obtain ⟨rows', hrows', rfl⟩ := exceptMap_eq_ok hupdate
      rw [(updateTotal_ok hrows').1]
      exact ⟨rfl, rfl⟩
    · obtain rfl := Except.ok.inj hupdate
      exact ⟨rfl, rfl⟩

/-- The upsert of the daily rows leaves `links` alone. -/
theorem upsertLinks_frame {incoming : List ((String × NaiveDate) × Int)} {rows : Writes}
    (h : pg.upsertLinks incoming = .ok rows) : (pg.overlay rows).links = pg.links := by
  unfold Postgres.upsertLinks at h
  simp only at h
  split at h
  · cases h
  · obtain rfl := Except.ok.inj h
    exact Table.overlay_empty _

/-- **The row of a link after a merge**, whatever the snapshot holds. -/
theorem get_links_mergeSnapshot (h : mergeSnapshot pg s = .ok (pg', outcome)) {c : String}
    {row : LinkRow} (hrow : pg.links.get c = some row) :
    pg'.links.get c = some (if s.linkDaily.isEmpty then row else bumpRow row
      (incomingDelta (if s.HasCode c then some (accumulatedDelta pg s c) else none)
        (s.lastClickedAt.get c))) := by
  rw [mergeSnapshot_eq_bind] at h
  obtain ⟨⟨pg₁, outcome₁⟩, hglobal, hrest⟩ := exceptBind_eq_ok h
  change mergeLinks pg₁ s outcome₁ = _ at hrest
  obtain ⟨hlinks, hdaily⟩ := mergeGlobal_frame hglobal
  rw [← hlinks] at hrow
  by_cases hempty : s.linkDaily.isEmpty = true
  · unfold mergeLinks at hrest
    rw [if_pos hempty] at hrest
    obtain ⟨rfl, -⟩ := Prod.mk.inj (Except.ok.inj hrest)
    rw [if_pos hempty, hrow]
  · have hassoc : assoc (s.deltaRows (s.linkDeltas (pg₁.selectLinks s.linkDaily.keys))) c =
        incomingDelta (if s.HasCode c then some (accumulatedDelta pg s c) else none)
          (s.lastClickedAt.get c) := by
      rw [assoc_deltaRows, get_linkDeltas, linkDeltaSum_selectLinks, hdaily]
      rfl
    rw [if_neg hempty, ← hassoc]
    -- the upsert has succeeded, since the merge has
    obtain ⟨rows, hrows⟩ : ∃ rows, pg₁.upsertLinks
        (committedRows s.linkDaily (pg₁.selectLinks s.linkDaily.keys)) = .ok rows := by
      unfold mergeLinks at hrest
      rw [if_neg hempty] at hrest
      obtain ⟨rows, hrows, -⟩ := exceptBind_eq_ok hrest
      exact ⟨rows, hrows⟩
    rw [mergeLinks_eq_update outcome₁ hempty hrows rfl] at hrest
    obtain ⟨pg₂, hupdate, hpair⟩ := exceptMap_eq_ok hrest
    obtain ⟨rfl, -⟩ := Prod.mk.inj hpair
    split at hupdate
    · next hnone =>
      obtain rfl := Except.ok.inj hupdate
      rw [upsertLinks_frame hrows, hrow, List.isEmpty_iff.mp hnone]
      rfl
    · obtain ⟨rows', hrows', rfl⟩ := exceptMap_eq_ok hupdate
      rw [updateLinks_ok (nodup_deltaRows s _) hrows']
      show (Table.mapRows (pg₁.overlay rows).links _).get c = _
      rw [Table.get_mapRows, upsertLinks_frame hrows, hrow, Option.map_some]

end Merge

/-! ## One row -/

section Row

variable {row : LinkRow} {clickedAt : Option DateTime}

/-- A row with a delta: only a positive delta without a timestamp goes wrong. -/
theorem lastClickedAt_bumpRow_iff (delta : Int) :
    (bumpRow row (incomingDelta (some delta) clickedAt)).lastClickedAt =
        greatest row.lastClickedAt clickedAt ↔
      (clickedAt = none → 0 < delta → NullLe (some DateTime.unixEpoch) row.lastClickedAt) := by
  cases clickedAt with
  | some ts =>
    -- the timestamp is sent with the delta
    exact ⟨fun _ hnone => (by cases hnone), fun _ => rfl⟩
  | none =>
    rw [greatest_none_right]
    by_cases hpos : 0 < delta
    · have hrow : (bumpRow row (incomingDelta (some delta) none)).lastClickedAt =
          greatest row.lastClickedAt (some DateTime.unixEpoch) := by
        simp [incomingDelta, hpos, bumpRow]
      rw [hrow, greatest_eq_left_iff]
      exact ⟨fun h _ _ => h, fun h => h rfl hpos⟩
    · have hrow : bumpRow row (incomingDelta (some delta) none) = row := by
        simp [incomingDelta, hpos, bumpRow]
      rw [hrow]
      exact ⟨fun _ _ hdelta => absurd hdelta hpos, fun _ => rfl⟩

/-- A row without a delta takes the greatest, and stays if that is its own. -/
theorem bumpRow_none_iff :
    bumpRow row (incomingDelta none clickedAt) = row ↔ NullLe clickedAt row.lastClickedAt := by
  cases clickedAt with
  | none => exact ⟨fun _ x hx => (by cases hx), fun _ => rfl⟩
  | some ts =>
    rw [← greatest_eq_left_iff]
    constructor
    · intro heq
      exact congrArg LinkRow.lastClickedAt heq
    · intro heq
      show ({ row with
        clickCount := row.clickCount + 0
        lastClickedAt := greatest row.lastClickedAt (some ts) } : LinkRow) = row
      rw [heq, add_zero]

theorem lastClickedAt_bumpRow_none : (bumpRow row (incomingDelta none clickedAt)).lastClickedAt =
    greatest row.lastClickedAt clickedAt := by
  cases clickedAt with
  | none => exact (greatest_none_right _).symm
  | some ts => rfl

end Row

/-- **When a merge invents no last click.** A merge that commits leaves every link with the
greatest of its own last click and the one in the snapshot, and a link without buckets as it was,
exactly if the last clicks are known. -/
theorem merge_keeps_lastClick_iff {pg pg' : Postgres} {s : RedisSnapshot} {outcome : MergeOutcome}
    (h : mergeSnapshot pg s = .ok (pg', outcome)) :
    LastClicksMerged pg pg' s ↔ LastClicksKnown pg s := by
  constructor
  · intro hmerged c row hrow
    have hafter := get_links_mergeSnapshot h hrow
    by_cases hcode : s.HasCode c
    · have hsome : ¬ s.linkDaily.isEmpty = true := fun hempty => s.not_hasCode hempty c hcode
      obtain ⟨row', hrow', hgreatest⟩ := hmerged.greatest c row hrow
      obtain rfl := Option.some.inj (hrow'.symm.trans hafter)
      rw [if_neg hsome, if_pos hcode] at hgreatest
      rw [if_pos hcode]
      exact (lastClickedAt_bumpRow_iff _).mp hgreatest
    · rw [if_neg hcode]
      -- the row is as before, and its last click is the greatest
      obtain ⟨row', hrow', hgreatest⟩ := hmerged.greatest c row hrow
      obtain rfl := Option.some.inj (hrow'.symm.trans (hmerged.unchanged c row hrow hcode))
      exact greatest_eq_left_iff.mp hgreatest.symm
  · intro hknown
    refine ⟨fun c row hrow => ⟨_, get_links_mergeSnapshot h hrow, ?_⟩, fun c row hrow hcode => ?_⟩
    · have hrowKnown := hknown c row hrow
      by_cases hcode : s.HasCode c
      · have hsome : ¬ s.linkDaily.isEmpty = true := fun hempty => s.not_hasCode hempty c hcode
        rw [if_pos hcode] at hrowKnown
        rw [if_neg hsome, if_pos hcode]
        exact (lastClickedAt_bumpRow_iff _).mpr hrowKnown
      · rw [if_neg hcode] at hrowKnown
        rw [if_neg hcode]
        split
        · exact (greatest_eq_left_iff.mpr hrowKnown).symm
        · exact lastClickedAt_bumpRow_none
    · have hrowKnown := hknown c row hrow
      rw [if_neg hcode] at hrowKnown
      rw [get_links_mergeSnapshot h hrow, if_neg hcode, bumpRow_none_iff.mpr hrowKnown, ite_self]

/-- Two more clicks on the link of `onePg`, and no timestamp. -/
def clicksWithoutTimestamp : RedisSnapshot :=
  ⟨HashMap.empty, HashMap.empty.insert ("a", 0) 3, HashMap.empty, [], []⟩

/-- The link had no last click and the snapshot has none; after the merge it has one in 1970. -/
theorem merge_invents_epoch : ∃ pg' outcome,
    mergeSnapshot onePg clicksWithoutTimestamp = .ok (pg', outcome) ∧
      (onePg.links.get "a").map LinkRow.lastClickedAt = some none ∧
      clicksWithoutTimestamp.lastClickedAt.get "a" = none ∧
      (pg'.links.get "a").map LinkRow.lastClickedAt = some (some DateTime.unixEpoch) ∧
      ¬ LastClicksMerged onePg pg' clicksWithoutTimestamp := by
  have hmerge : (mergeSnapshot onePg clicksWithoutTimestamp).map
      (fun r => (r.1.links.get "a").map LinkRow.lastClickedAt) =
        .ok (some (some DateTime.unixEpoch)) := by decide
  obtain ⟨⟨pg', outcome⟩, hok, hlast⟩ := exceptMap_eq_ok hmerge
  refine ⟨pg', outcome, hok, by decide, by decide, hlast, fun hmerged => ?_⟩
  obtain ⟨row', hrow', hgreatest⟩ := hmerged.greatest "a" _ rfl
  simp only [hrow', Option.map_some, Option.some.injEq] at hlast
  rw [hlast] at hgreatest
  cases hgreatest

theorem merge_keeps_lastClick_iff_withoutTimestamp : ∃ pg' outcome,
    mergeSnapshot onePg clicksWithoutTimestamp = .ok (pg', outcome) ∧
      ¬ LastClicksMerged onePg pg' clicksWithoutTimestamp := by
  have hcommits : (mergeSnapshot onePg clicksWithoutTimestamp).toOption.isSome = true := by decide
  cases hmerge : mergeSnapshot onePg clicksWithoutTimestamp with
  | error e =>
    rw [hmerge] at hcommits
    cases hcommits
  | ok r =>
    obtain ⟨pg', outcome⟩ := r
    refine ⟨pg', outcome, rfl, ?_⟩
    rw [merge_keeps_lastClick_iff hmerge]
    intro hknown
    have hrow := hknown "a" _ rfl
    rw [if_pos (by decide)] at hrow
    obtain ⟨t, ht, -⟩ := hrow (by decide) (by decide) _ rfl
    cases ht

end Kurl
