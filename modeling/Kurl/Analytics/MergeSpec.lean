import Kurl.Analytics.MergeSnapshot

/-!
# Kurl — what the statements of a merge do (`analytics/src/db/db.rs`)

One lemma per writing statement of `merge_snapshot`, in two directions: what a statement that
succeeded wrote, and when it succeeds. A merge reads the existing counts before it writes, so the
lemmas are about counts that were read earlier and may have grown since (`ReadEarlier`); the upsert
then still leaves the maximum (`upsertGlobal_eq`, `upsertLinks_eq`), while the deltas are exact only
for counts that did not move (`totalGlobalDelta_eq`, `linkDeltaSum_eq`).

A merge that nothing interrupts is the special case in which nothing has moved. Its closed form is
`Postgres.merged`: every row at the greatest of the old and the new count, and each total moved by
the growth of its rows. `mergeGlobal_eq` and `mergeLinks_eq` are the two halves and
`mergeSnapshot_eq` the whole, for merges whose sums fit in 64 bits (`MergeFits`);
`Kurl.Analytics.MergeWrapping` has the others.
-/

namespace Kurl

open Lib

section Rows

variable {κ : Type} [DecidableEq κ]

/-- Counts read from a table that has not shrunk since. -/
def ReadEarlier (existing t : Table κ Int) : Prop :=
  ∀ k, 0 ≤ existing.val k ∧ existing.val k ≤ t.val k

theorem assoc_committedRows (m : HashMap κ Int) (existing : Table κ Int) (k : κ) :
    assoc (committedRows m existing) k = (m.get k).map fun n => max (existing.val k) n := by
  cases hget : m.get k with
  | none =>
    rw [Option.map_none, assoc_eq_none_iff, keys_committedRows]
    exact m.get_eq_none_iff.mp hget
  | some n =>
    refine assoc_of_mem (nodup_committedRows m existing) ?_
    exact List.mem_map.mpr ⟨(k, n), m.get_eq_some_iff.mp hget, rfl⟩

/-- The committed count of a bucket. -/
theorem mem_committedRows {m : HashMap κ Int} {existing : Table κ Int}
    {k : κ} {value : Int} : (k, value) ∈ committedRows m existing ↔
      ∃ n, m.get k = some n ∧ value = max (existing.val k) n := by
  rw [committedRows, List.mem_map]
  constructor
  · rintro ⟨e, he, heq⟩
    obtain ⟨rfl, rfl⟩ := Prod.mk.inj heq
    exact ⟨e.2, m.get_eq_some_iff.mpr he, rfl⟩
  · rintro ⟨n, hn, rfl⟩
    exact ⟨(k, n), m.get_eq_some_iff.mp hn, rfl⟩

/-- An upsert of the committed counts leaves the maximum of old and incoming. -/
theorem greatest_committed {m : HashMap κ Int} (hm : ∀ e ∈ m.entries, 0 ≤ e.2)
    {existing t : Table κ Int} (hex : ReadEarlier existing t) (k : κ) :
    greatest (assoc (committedRows m existing) k) (t.get k) = greatest (m.get k) (t.get k) := by
  rw [assoc_committedRows]
  obtain ⟨hlow, hhigh⟩ := hex k
  cases hget : m.get k with
  | none => rfl
  | some n =>
    have hn : 0 ≤ n := hm _ (m.get_eq_some_iff.mp hget)
    cases hv : t.get k with
    | none =>
      rw [Table.val_of_none hv] at hhigh
      rw [Option.map_some, greatest_none_right, greatest_none_right]
      congr 1
      omega
    | some v =>
      rw [Table.val_of_get hv] at hhigh
      rw [Option.map_some, greatest_some, greatest_some]
      congr 1
      omega

omit [DecidableEq κ] in
theorem committedRows_nonneg {m : HashMap κ Int} {existing t : Table κ Int}
    (hex : ReadEarlier existing t) : ∀ r ∈ committedRows m existing, 0 ≤ r.2 := by
  intro r hr
  obtain ⟨e, -, rfl⟩ := List.mem_map.mp hr
  exact le_trans (hex e.1).1 (le_max_left _ _)

end Rows

/-! ## The global part -/

namespace Postgres

/-- A row as the check constraints allow it. -/
structure NonNegative (pg : Postgres) : Prop where
  globalDailyClicks : ∀ d, 0 ≤ pg.globalDailyClicks.val d
  linkDailyClicks : ∀ k, 0 ≤ pg.linkDailyClicks.val k
  clickCount : ∀ c row, pg.links.get c = some row → 0 ≤ row.clickCount
  totalClicks : 0 ≤ pg.totalClicks

theorem readEarlier_selectGlobal {pg : Postgres} (h : pg.NonNegative) (dates : List NaiveDate) :
    ReadEarlier (pg.selectGlobal dates) pg.globalDailyClicks := by
  intro d
  have hd := h.globalDailyClicks d
  unfold Table.val selectGlobal
  rw [Table.get_filter]
  split
  · exact ⟨hd, le_refl _⟩
  · exact ⟨le_refl _, hd⟩

theorem readEarlier_selectLinks {pg : Postgres} (h : pg.NonNegative)
    (keys : List (String × NaiveDate)) :
    ReadEarlier (pg.selectLinks keys) pg.linkDailyClicks := by
  intro k
  have hk := h.linkDailyClicks k
  unfold Table.val selectLinks
  rw [Table.get_filter]
  split
  · exact ⟨hk, le_refl _⟩
  · exact ⟨le_refl _, hk⟩

end Postgres

section Global

variable {pg : Postgres} {s : RedisSnapshot}

/-- The upsert of `global_daily_clicks` succeeds and leaves the maxima. -/
theorem upsertGlobal_eq (hs : s.NonNegative) {existing : Table NaiveDate Int}
    (hex : ReadEarlier existing pg.globalDailyClicks) :
    ∃ rows, pg.upsertGlobal (committedRows s.globalDaily existing) = .ok rows ∧
      pg.overlay rows =
        { pg with globalDailyClicks := pg.globalDailyClicks.mergeMax s.globalDaily } := by
  have hcheck : ¬ (committedRows s.globalDaily existing).any (fun r => r.2 < 0) = true := by
    simp only [List.any_eq_true, decide_eq_true_eq, not_exists, not_and, not_lt]
    exact committedRows_nonneg hex
  refine ⟨_, if_neg hcheck, ?_⟩
  have hdaily : pg.globalDailyClicks.overlay (pg.globalDailyClicks.upsertRows
      (committedRows s.globalDaily existing)) = pg.globalDailyClicks.mergeMax s.globalDaily := by
    ext1 d
    rw [Table.get_overlay_upsertRows _ (nodup_committedRows _ _), Table.get_mergeMax,
      greatest_committed hs.1 hex]
  simp [Postgres.overlay, Writes.empty, hdaily]

/-- The upsert of `global_daily_clicks` writes no other table, whatever was read. -/
theorem upsertGlobal_frame {incoming : List (NaiveDate × Int)} {rows : Writes}
    (h : pg.upsertGlobal incoming = .ok rows) : ∃ daily,
      pg.overlay rows = { pg with globalDailyClicks := daily } := by
  unfold Postgres.upsertGlobal at h
  split at h
  · simp at h
  · obtain rfl := Except.ok.inj h
    exact ⟨_, by simp [Postgres.overlay, Writes.empty]; rfl⟩

/-- The delta computed from the count that was read is that of the count that is there. -/
def DeltaExact {κ : Type} (existing t : Table κ Int) (e : κ × Int) : Prop :=
  max (existing.val e.1) e.2 - existing.val e.1 = max (t.val e.1) e.2 - t.val e.1

/-- It is for a count that did not move. -/
theorem DeltaExact.of_val {κ : Type} {existing t : Table κ Int} {e : κ × Int}
    (h : existing.val e.1 = t.val e.1) : DeltaExact existing t e := by
  unfold DeltaExact
  rw [h]

/-- The sum of the global deltas. -/
def globalDeltaSum (s : RedisSnapshot) (existing : Table NaiveDate Int) : Int :=
  ((mergeDeltas s.globalDaily existing).map Prod.snd).sum

/-- By how much a merge of the snapshot makes the sum of the global rows grow. -/
def globalGrowth (pg : Postgres) (s : RedisSnapshot) : Int :=
  (pg.globalDailyClicks.mergeMax s.globalDaily).sum - pg.globalDailyClicks.sum

/-- The accumulated delta is the sum, up to wrapping. -/
theorem totalGlobalDelta_eq (s : RedisSnapshot) (existing : Table NaiveDate Int) :
    s.totalGlobalDelta existing = wrapI64 (globalDeltaSum s existing) := by
  have hfold := foldl_addWrapping ((mergeDeltas s.globalDaily existing).map Prod.snd) 0
  rw [wrapI64_of_mem (by decide), zero_add] at hfold
  exact hfold

/-- Exact deltas add up to the growth of the table. -/
theorem globalDeltaSum_eq (hs : s.NonNegative) {existing : Table NaiveDate Int}
    (hread : ∀ e ∈ s.globalDaily.entries, DeltaExact existing pg.globalDailyClicks e) :
    globalDeltaSum s existing = globalGrowth pg s := by
  have hgrow := pg.globalDailyClicks.sumWhere_mergeMax hs.1 (fun _ => True)
    (pg.globalDailyClicks.mergeMax s.globalDaily) fun _ _ => rfl
  unfold globalGrowth globalDeltaSum Table.sum
  rw [hgrow, add_sub_cancel_left]
  simp only [mergeDeltas, calculateMergeDelta, List.map_map, decide_true, List.filter_true]
  congr 1
  exact List.map_congr_left fun e he => hread e he

/-- What a successful update of `analytics_global` wrote. -/
theorem updateTotal_ok {delta : Int} {rows : Writes} (h : pg.updateTotal delta = .ok rows) :
    pg.overlay rows = { pg with totalClicks := pg.totalClicks + delta } ∧
      0 ≤ pg.totalClicks + delta := by
  unfold Postgres.updateTotal addChecked at h
  by_cases hfit : i64Min ≤ pg.totalClicks + delta ∧ pg.totalClicks + delta ≤ i64Max
  · rw [if_pos hfit] at h
    by_cases hneg : pg.totalClicks + delta < 0
    · simp [hneg] at h
    · simp only [hneg, if_false, Except.ok.injEq] at h
      subst h
      exact ⟨by simp [Postgres.overlay, Writes.empty], by omega⟩
  · rw [if_neg hfit] at h
    simp at h

theorem updateTotal_of_fits {delta : Int} (hlow : 0 ≤ pg.totalClicks + delta)
    (hhigh : pg.totalClicks + delta ≤ i64Max) : ∃ rows, pg.updateTotal delta = .ok rows := by
  have hfit : i64Min ≤ pg.totalClicks + delta ∧ pg.totalClicks + delta ≤ i64Max :=
    ⟨by unfold i64Min; omega, hhigh⟩
  unfold Postgres.updateTotal addChecked
  rw [if_pos hfit]
  exact ⟨_, if_neg (by omega)⟩

theorem globalGrowth_nonneg (pg : Postgres) {s : RedisSnapshot} (hs : s.NonNegative) :
    0 ≤ globalGrowth pg s := by
  have hle : pg.globalDailyClicks.sum ≤ (pg.globalDailyClicks.mergeMax s.globalDaily).sum :=
    Table.sumWhere_le_sumWhere fun d _ => Table.val_le_val_mergeMax _ hs.1 d
  unfold globalGrowth
  omega

theorem selectGlobal_val {pg : Postgres} {dates : List NaiveDate} {d : NaiveDate}
    (hd : d ∈ dates) : (pg.selectGlobal dates).val d = pg.globalDailyClicks.val d := by
  simp [Table.val, Postgres.selectGlobal, Table.get_filter, hd]

/-- The delta of the rows that are there is their growth, up to wrapping. -/
theorem totalGlobalDelta_selectGlobal (hs : s.NonNegative) :
    s.totalGlobalDelta (pg.selectGlobal s.globalDaily.keys) = wrapI64 (globalGrowth pg s) := by
  rw [totalGlobalDelta_eq, globalDeltaSum_eq hs fun e he =>
    .of_val (selectGlobal_val (HashMap.mem_keys_of_mem he))]

/-- The global part once its upsert is done: what is left is the update of the total. -/
theorem mergeGlobal_eq_update (outcome : MergeOutcome) (hempty : ¬ s.globalDaily.isEmpty = true)
    {rows : Writes} (hrows : pg.upsertGlobal
      (committedRows s.globalDaily (pg.selectGlobal s.globalDaily.keys)) = .ok rows)
    {delta : Int} (hdelta : s.totalGlobalDelta (pg.selectGlobal s.globalDaily.keys) = delta) :
    mergeGlobal pg s outcome =
      (if delta > 0 then (pg.overlay rows).overlay <$> (pg.overlay rows).updateTotal delta
      else .ok (pg.overlay rows)).map fun pg' => (pg', { outcome with
        committedGlobal := committedMap s.globalDaily (pg.selectGlobal s.globalDaily.keys)
        globalDelta := delta }) := by
  unfold mergeGlobal
  rw [if_neg hempty]
  simp only [hrows, MergeTx.ok_bind, hdelta]
  by_cases hpos : delta > 0
  · rw [if_pos hpos, if_pos hpos]
    cases (pg.overlay rows).updateTotal delta <;> rfl
  · rw [if_neg hpos, if_neg hpos]
    rfl

/-- **The global part.** With room for the total, it succeeds, leaves the daily maxima and
moves the total by their growth. -/
theorem mergeGlobal_eq (hpg : pg.NonNegative) (hs : s.NonNegative)
    (hfit : pg.totalClicks + globalGrowth pg s ≤ i64Max) :
    mergeGlobal pg s MergeOutcome.default = .ok
      ({ pg with
        globalDailyClicks := pg.globalDailyClicks.mergeMax s.globalDaily
        totalClicks := pg.totalClicks + globalGrowth pg s },
      { MergeOutcome.default with
        committedGlobal := committedMap s.globalDaily (pg.selectGlobal s.globalDaily.keys)
        globalDelta := globalGrowth pg s }) := by
  have hgrow := globalGrowth_nonneg pg hs
  have htotal := hpg.totalClicks
  by_cases hempty : s.globalDaily.isEmpty = true
  · unfold mergeGlobal
    rw [if_pos hempty]
    simp [globalGrowth, Table.mergeMax_isEmpty _ hempty, committedMap_isEmpty hempty,
      MergeOutcome.default]
  · obtain ⟨rows, hrows, hview⟩ := upsertGlobal_eq hs
      (Postgres.readEarlier_selectGlobal hpg s.globalDaily.keys)
    have hwrap : wrapI64 (globalGrowth pg s) = globalGrowth pg s :=
      wrapI64_of_mem ⟨by unfold i64Min; omega, by omega⟩
    rw [mergeGlobal_eq_update _ hempty hrows (totalGlobalDelta_selectGlobal hs), hview, hwrap]
    by_cases hpos : globalGrowth pg s > 0
    · obtain ⟨rows', hrows'⟩ : ∃ rows', Postgres.updateTotal
          { pg with globalDailyClicks := pg.globalDailyClicks.mergeMax s.globalDaily }
          (globalGrowth pg s) = .ok rows' := updateTotal_of_fits (by simp only; omega) hfit
      rw [if_pos hpos, hrows', MergeTx.map_ok, (updateTotal_ok hrows').1]
      rfl
    · have hzero : globalGrowth pg s = 0 := by omega
      simp [hzero, Except.map]

end Global

/-! ## The links part -/

section Links

variable {pg : Postgres} {s : RedisSnapshot}

/-- The incoming counts of codes that have a row in `links`. -/
def liveLinkDaily (pg : Postgres) (s : RedisSnapshot) : HashMap (String × NaiveDate) Int :=
  s.linkDaily.filterKeys fun k => pg.linkExists k.1

/-- The upsert of `link_daily_clicks` succeeds and leaves the maxima, for existing links. -/
theorem upsertLinks_eq (hs : s.NonNegative) {existing : Table (String × NaiveDate) Int}
    (hex : ReadEarlier existing pg.linkDailyClicks) :
    ∃ rows, pg.upsertLinks (committedRows s.linkDaily existing) = .ok rows ∧
      pg.overlay rows =
        { pg with linkDailyClicks := pg.linkDailyClicks.mergeMax (liveLinkDaily pg s) } := by
  have hcheck : ¬ ((committedRows s.linkDaily existing).filter
      (fun r => pg.linkExists r.1.1)).any (fun r => r.2 < 0) = true := by
    simp only [List.any_eq_true, decide_eq_true_eq, not_exists, not_and, not_lt]
    exact fun r hr => committedRows_nonneg hex r (List.mem_filter.mp hr).1
  refine ⟨_, if_neg hcheck, ?_⟩
  have hnodup : (((committedRows s.linkDaily existing).filter
      (fun r => pg.linkExists r.1.1)).map Prod.fst).Nodup :=
    (nodup_committedRows _ _).sublist (List.filter_sublist.map _)
  have hdaily : pg.linkDailyClicks.overlay (pg.linkDailyClicks.upsertRows
      ((committedRows s.linkDaily existing).filter (fun r => pg.linkExists r.1.1))) =
        pg.linkDailyClicks.mergeMax (liveLinkDaily pg s) := by
    ext1 k
    rw [Table.get_overlay_upsertRows _ hnodup, Table.get_mergeMax, liveLinkDaily,
      HashMap.get_filterKeys]
    by_cases hk : pg.linkExists k.1 = true
    · rw [if_pos hk, assoc_filter_of_pos fun e he => by rw [he]; exact hk]
      exact greatest_committed hs.2 hex k
    · rw [if_neg hk, assoc_filter_of_not fun e he => by rw [he]; simpa using hk]
  simp [Postgres.overlay, Writes.empty, hdaily]

/-- A row of `links` after an update by an incoming element. -/
def bumpRow (row : LinkRow) (incoming : Option Postgres.LinkDelta) : LinkRow :=
  incoming.elim row fun d => { row with
    clickCount := row.clickCount + d.delta
    lastClickedAt := greatest row.lastClickedAt (some d.ts) }

@[simp] theorem target_bumpRow (row : LinkRow) (incoming : Option Postgres.LinkDelta) :
    (bumpRow row incoming).target = row.target := by
  cases incoming <;> rfl

@[simp] theorem expiration_bumpRow (row : LinkRow) (incoming : Option Postgres.LinkDelta) :
    (bumpRow row incoming).expiration = row.expiration := by
  cases incoming <;> rfl

@[simp] theorem clickCount_bumpRow (row : LinkRow) (incoming : Option Postgres.LinkDelta) :
    (bumpRow row incoming).clickCount =
      row.clickCount + incoming.elim 0 Postgres.LinkDelta.delta := by
  cases incoming with
  | none => exact (add_zero _).symm
  | some d => rfl

/-- What one incoming element wrote. -/
theorem updateLink_cases {w w' : Writes} {e : String × Postgres.LinkDelta}
    (h : pg.updateLink w e = .ok w') :
    (pg.links.get e.1 = none ∧ w' = w) ∨ ∃ row, pg.links.get e.1 = some row ∧
      w' = { w with links := w.links.set e.1 (bumpRow row (some e.2)) } := by
  unfold Postgres.updateLink at h
  cases hrow : pg.links.get e.1 with
  | none =>
    simp only [hrow, Except.ok.injEq] at h
    exact Or.inl ⟨rfl, h.symm⟩
  | some row =>
    simp only [hrow] at h
    cases hadd : addChecked row.clickCount e.2.delta with
    | none => simp [hadd] at h
    | some n =>
      have hn : n = row.clickCount + e.2.delta := by
        unfold addChecked at hadd
        split at hadd
        · exact (Option.some.inj hadd).symm
        · simp at hadd
      simp only [hadd] at h
      split at h
      · simp at h
      · obtain rfl := Except.ok.inj h
        exact Or.inr ⟨row, rfl, by rw [hn]; rfl⟩

/-- What a successful update of `links` wrote. -/
theorem updateLinks_ok {incoming : List (String × Postgres.LinkDelta)}
    (hnodup : (incoming.map Prod.fst).Nodup) {rows : Writes}
    (h : pg.updateLinks incoming = .ok rows) :
    pg.overlay rows = { pg with
      links := pg.links.mapRows fun c row => bumpRow row (assoc incoming c) } := by
  -- the loop generalised over the rows already written
  have hfold : ∀ w w' : Writes, incoming.foldlM pg.updateLink w = .ok w' →
      w'.linkDailyClicks = w.linkDailyClicks ∧ w'.globalDailyClicks = w.globalDailyClicks ∧
      w'.totalClicks = w.totalClicks ∧ ∀ c, w'.links.get c =
        ((assoc incoming c).bind fun d =>
          (pg.links.get c).map fun row => bumpRow row (some d)).or (w.links.get c) := by
    clear h rows
    induction incoming with
    | nil =>
      intro w w' h
      obtain rfl := Except.ok.inj h
      simp
    | cons e incoming ih =>
      intro w w' h
      rw [List.map_cons, List.nodup_cons] at hnodup
      rw [List.foldlM_cons] at h
      obtain ⟨w₁, hstep, hrest⟩ := exceptBind_eq_ok h
      obtain ⟨hlink, hglobal, htotal, hlinks⟩ := ih hnodup.2 w₁ w' hrest
      rcases updateLink_cases hstep with ⟨hrow, rfl⟩ | ⟨row, hrow, rfl⟩
      · refine ⟨hlink, hglobal, htotal, fun c => ?_⟩
        rw [hlinks c, assoc_cons]
        by_cases hc : e.1 = c
        · subst hc
          simp [assoc_eq_none_iff.mpr hnodup.1, hrow]
        · rw [if_neg hc]
      · refine ⟨hlink, hglobal, htotal, fun c => ?_⟩
        rw [hlinks c, assoc_cons]
        by_cases hc : e.1 = c
        · subst hc
          simp [assoc_eq_none_iff.mpr hnodup.1, hrow]
        · have hne : c ≠ e.1 := fun h => hc h.symm
          rw [if_neg hc, Table.get_set_of_ne _ _ hne]
  -- from no rows on, with the rows of the tables under them
  obtain ⟨hlink, hglobal, htotal, hlinks⟩ := hfold Writes.empty rows h
  have hmap : pg.links.overlay rows.links =
      pg.links.mapRows fun c row => bumpRow row (assoc incoming c) := by
    ext1 c
    rw [Table.get_overlay, hlinks c, Table.get_mapRows]
    cases assoc incoming c with
    | none => cases pg.links.get c <;> simp [Writes.empty, bumpRow]
    | some d => cases pg.links.get c <;> simp [Writes.empty]
  unfold Postgres.overlay
  rw [hmap, hlink, hglobal, htotal]
  simp [Writes.empty]

/-- The update of `links` succeeds while every count it changes stays in range. -/
theorem updateLinks_of_fits {incoming : List (String × Postgres.LinkDelta)}
    (hfit : ∀ e ∈ incoming, ∀ row, pg.links.get e.1 = some row →
      0 ≤ row.clickCount + e.2.delta ∧ row.clickCount + e.2.delta ≤ i64Max) :
    ∃ rows, pg.updateLinks incoming = .ok rows := by
  have hfold : ∀ w : Writes, ∃ rows, incoming.foldlM pg.updateLink w = .ok rows := by
    induction incoming with
    | nil => exact fun w => ⟨w, rfl⟩
    | cons e incoming ih =>
      intro w
      have hrest := ih fun x hx => hfit x (List.mem_cons_of_mem _ hx)
      have hstep : ∃ w₁, pg.updateLink w e = .ok w₁ := by
        unfold Postgres.updateLink
        cases hrow : pg.links.get e.1 with
        | none => exact ⟨w, rfl⟩
        | some row =>
          obtain ⟨hlow, hhigh⟩ := hfit e List.mem_cons_self row hrow
          have hadd : addChecked row.clickCount e.2.delta = some (row.clickCount + e.2.delta) :=
            if_pos ⟨by unfold i64Min; omega, hhigh⟩
          simp only [hadd]
          rw [if_neg (by omega)]
          exact ⟨_, rfl⟩
      obtain ⟨w₁, hw₁⟩ := hstep
      obtain ⟨rows, hrows⟩ := hrest w₁
      exact ⟨rows, by rw [List.foldlM_cons, hw₁]; exact hrows⟩
  exact hfold Writes.empty

/-- The sum of the deltas of a code. -/
def linkDeltaSum (s : RedisSnapshot) (existing : Table (String × NaiveDate) Int) (code : String) :
    Int :=
  HashMap.sumFor ((mergeDeltas s.linkDaily existing).map fun e => (e.1.1, e.2)) code

/-- A code occurs among the incoming daily counts. -/
def RedisSnapshot.HasCode (s : RedisSnapshot) (code : String) : Prop :=
  ∃ k ∈ s.linkDaily.keys, k.1 = code

instance (s : RedisSnapshot) (code : String) : Decidable (s.HasCode code) :=
  inferInstanceAs (Decidable (∃ k ∈ s.linkDaily.keys, k.1 = code))

theorem RedisSnapshot.not_hasCode (h : s.linkDaily.isEmpty = true) (code : String) :
    ¬ s.HasCode code := by
  rintro ⟨k, hk, -⟩
  rw [HashMap.eq_empty h] at hk
  cases hk

theorem get_linkDeltas (s : RedisSnapshot) (existing : Table (String × NaiveDate) Int)
    (code : String) : (s.linkDeltas existing).get code =
      if s.HasCode code then some (wrapI64 (linkDeltaSum s existing code)) else none := by
  have hmem : code ∈ ((mergeDeltas s.linkDaily existing).map fun e => (e.1.1, e.2)).map Prod.fst ↔
      s.HasCode code := by
    simp [mergeDeltas, RedisSnapshot.HasCode, HashMap.keys]
  unfold RedisSnapshot.linkDeltas linkDeltaSum
  rw [HashMap.get_accumulate]
  simp only [hmem]

theorem linkDeltaSum_eq_zero {existing : Table (String × NaiveDate) Int} {code : String}
    (h : ¬ s.HasCode code) : linkDeltaSum s existing code = 0 := by
  refine HashMap.sumFor_eq_zero fun hmem => h ?_
  simpa [mergeDeltas, RedisSnapshot.HasCode, HashMap.keys] using hmem

/-- The element of the arrays that is about a code. -/
def incomingDelta (delta : Option Int) (clickedAt : Option DateTime) :
    Option Postgres.LinkDelta :=
  match delta, clickedAt with
  | some n, some ts => some ⟨max n 0, ts⟩
  | some n, none => if 0 < n then some ⟨max n 0, DateTime.unixEpoch⟩ else none
  | none, some ts => some ⟨0, ts⟩
  | none, none => none

/-- What it adds to the click count. -/
theorem delta_incomingDelta (delta : Option Int) (clickedAt : Option DateTime) :
    (incomingDelta delta clickedAt).elim 0 Postgres.LinkDelta.delta = max (delta.getD 0) 0 := by
  unfold incomingDelta
  cases delta with
  | none => cases clickedAt <;> rfl
  | some n =>
    cases clickedAt with
    | some ts => rfl
    | none =>
      -- a delta that is not positive is sent only with a timestamp
      by_cases hn : 0 < n
      · simp [hn]
      · simp [hn, max_eq_right (not_lt.mp hn)]

theorem nodup_deltaRows (s : RedisSnapshot) (deltas : HashMap String Int) :
    ((s.deltaRows deltas).map Prod.fst).Nodup := by
  unfold RedisSnapshot.deltaRows
  rw [List.map_append, List.nodup_append]
  refine ⟨?_, ?_, ?_⟩
  · rw [List.map_map]
    exact deltas.nodup.sublist (List.filter_sublist.map _)
  · rw [List.map_map]
    exact s.lastClickedAt.nodup.sublist (List.filter_sublist.map _)
  · -- the second loop skips the codes of the first
    rintro a ha b hb rfl
    simp only [List.map_map, List.mem_map, List.mem_filter, Function.comp_apply] at ha hb
    obtain ⟨e, ⟨he, -⟩, rfl⟩ := ha
    obtain ⟨e', ⟨-, hnot⟩, heq⟩ := hb
    have hkey : (deltas.get e.1).isSome = true :=
      deltas.isSome_get_iff.mpr (List.mem_map_of_mem he)
    rw [heq, HashMap.containsKey, hkey] at hnot
    simp at hnot

/-- **The arrays of the update**, code by code. -/
theorem assoc_deltaRows (s : RedisSnapshot) (deltas : HashMap String Int) (code : String) :
    assoc (s.deltaRows deltas) code =
      incomingDelta (deltas.get code) (s.lastClickedAt.get code) := by
  unfold RedisSnapshot.deltaRows
  rw [assoc_append, assoc_map, assoc_map, assoc_filter deltas.nodup,
    assoc_filter s.lastClickedAt.nodup]
  show ((deltas.get code).filter _ |>.map _).or ((s.lastClickedAt.get code).filter _ |>.map _) = _
  unfold HashMap.containsKey
  cases hdelta : deltas.get code with
  | none =>
    cases hts : s.lastClickedAt.get code with
    | none => rfl
    | some ts => simp [incomingDelta, Option.filter, hdelta]
  | some n =>
    cases hts : s.lastClickedAt.get code with
    | none =>
      by_cases hn : 0 < n
      · simp [incomingDelta, hn, Option.filter, hts]
      · simp [incomingDelta, hn, Option.filter, hts]
    | some ts => simp [incomingDelta, Option.filter, hts]

/-- What the arrays of the update add to a click count. -/
theorem delta_deltaRows (s : RedisSnapshot) (existing : Table (String × NaiveDate) Int)
    (code : String) :
    (assoc (s.deltaRows (s.linkDeltas existing)) code).elim 0 Postgres.LinkDelta.delta =
      max (wrapI64 (linkDeltaSum s existing code)) 0 := by
  rw [assoc_deltaRows, delta_incomingDelta, get_linkDeltas]
  by_cases hcode : s.HasCode code
  · rw [if_pos hcode, Option.getD_some]
  · rw [if_neg hcode, linkDeltaSum_eq_zero hcode]
    rfl

/-- By how much a merge of the snapshot makes the daily rows of a code grow. -/
def linkGrowth (pg : Postgres) (s : RedisSnapshot) (code : String) : Int :=
  (pg.linkDailyClicks.mergeMax (liveLinkDaily pg s)).sumWhere (fun k => k.1 = code) -
    pg.linkDailyClicks.sumWhere (fun k => k.1 = code)

theorem liveLinkDaily_nonneg (pg : Postgres) (hs : s.NonNegative) :
    ∀ e ∈ (liveLinkDaily pg s).entries, 0 ≤ e.2 := fun e he =>
  hs.2 e (List.mem_filter.mp he).1

theorem linkGrowth_nonneg (pg : Postgres) (hs : s.NonNegative) (code : String) :
    0 ≤ linkGrowth pg s code := by
  have hle : pg.linkDailyClicks.sumWhere (fun k => k.1 = code) ≤
      (pg.linkDailyClicks.mergeMax (liveLinkDaily pg s)).sumWhere (fun k => k.1 = code) :=
    Table.sumWhere_le_sumWhere fun k _ =>
      Table.val_le_val_mergeMax _ (liveLinkDaily_nonneg pg hs) k
  unfold linkGrowth
  omega

/-- The deltas of an existing link add up to its growth. -/
theorem linkDeltaSum_eq (hs : s.NonNegative) {existing : Table (String × NaiveDate) Int}
    {code : String} (hlink : pg.linkExists code = true)
    (hread : ∀ e ∈ s.linkDaily.entries, e.1.1 = code → DeltaExact existing pg.linkDailyClicks e) :
    linkDeltaSum s existing code = linkGrowth pg s code := by
  have hgrow := pg.linkDailyClicks.sumWhere_mergeMax hs.2 (fun k => k.1 = code)
    (pg.linkDailyClicks.mergeMax (liveLinkDaily pg s)) fun k hk => by
      rw [Table.get_mergeMax, Table.get_mergeMax, liveLinkDaily, HashMap.get_filterKeys, hk,
        if_pos hlink]
  unfold linkGrowth linkDeltaSum HashMap.sumFor
  rw [hgrow, add_sub_cancel_left]
  simp only [mergeDeltas, calculateMergeDelta, List.map_map, List.filter_map]
  congr 1
  refine List.map_congr_left fun e he => ?_
  obtain ⟨hmem, hcode⟩ := List.mem_filter.mp he
  exact hread e hmem (by simpa using hcode)

theorem selectLinks_val {pg : Postgres} {keys : List (String × NaiveDate)} {k : String × NaiveDate}
    (hk : k ∈ keys) : (pg.selectLinks keys).val k = pg.linkDailyClicks.val k := by
  simp [Table.val, Postgres.selectLinks, Table.get_filter, hk]

/-- The tables after a merge of the snapshot. -/
def Postgres.merged (pg : Postgres) (s : RedisSnapshot) : Postgres where
  links := if s.linkDaily.isEmpty then pg.links else pg.links.mapRows fun c row =>
    bumpRow row (incomingDelta (if s.HasCode c then some (linkGrowth pg s c) else none)
      (s.lastClickedAt.get c))
  linkDailyClicks := pg.linkDailyClicks.mergeMax (liveLinkDaily pg s)
  globalDailyClicks := pg.globalDailyClicks.mergeMax s.globalDaily
  totalClicks := pg.totalClicks + globalGrowth pg s

/-- All the sums a merge computes fit in 64 bits. -/
structure MergeFits (pg : Postgres) (s : RedisSnapshot) : Prop where
  total : pg.totalClicks + globalGrowth pg s ≤ i64Max
  clickCount : ∀ c row, pg.links.get c = some row →
    row.clickCount + linkGrowth pg s c ≤ i64Max

theorem linkExists_of_get {c : String} {row : LinkRow} (h : pg.links.get c = some row) :
    pg.linkExists c = true := by
  simp [Postgres.linkExists, h]

/-- The accumulated delta of an existing link is its growth. -/
theorem get_linkDeltas_of_link (hpg : pg.NonNegative) (hs : s.NonNegative) {c : String}
    {row : LinkRow} (hrow : pg.links.get c = some row)
    (hfit : row.clickCount + linkGrowth pg s c ≤ i64Max) :
    (s.linkDeltas (pg.selectLinks s.linkDaily.keys)).get c =
      if s.HasCode c then some (linkGrowth pg s c) else none := by
  have hcount := hpg.clickCount c row hrow
  have hgrow := linkGrowth_nonneg pg hs c
  rw [get_linkDeltas, linkDeltaSum_eq hs (linkExists_of_get hrow)
    fun e he _ => .of_val (selectLinks_val (HashMap.mem_keys_of_mem he))]
  rw [wrapI64_of_mem ⟨by unfold i64Min; omega, by omega⟩]

/-- The links part once its upsert is done: what is left is the update of `links`. -/
theorem mergeLinks_eq_update (outcome : MergeOutcome) (hempty : ¬ s.linkDaily.isEmpty = true)
    {rows : Writes} (hrows : pg.upsertLinks
      (committedRows s.linkDaily (pg.selectLinks s.linkDaily.keys)) = .ok rows)
    {deltas : List (String × Postgres.LinkDelta)}
    (hdeltas : deltas = s.deltaRows (s.linkDeltas (pg.selectLinks s.linkDaily.keys))) :
    mergeLinks pg s outcome =
      (if deltas.isEmpty then .ok (pg.overlay rows)
      else (pg.overlay rows).overlay <$> (pg.overlay rows).updateLinks deltas).map fun pg' =>
        (pg', { outcome with
          committedLinks := committedMap s.linkDaily (pg.selectLinks s.linkDaily.keys)
          linkDeltas := s.linkDeltas (pg.selectLinks s.linkDaily.keys) }) := by
  unfold mergeLinks
  rw [if_neg hempty]
  simp only [hrows, MergeTx.ok_bind, ← hdeltas]
  by_cases hnone : deltas.isEmpty = true
  · rw [if_pos hnone, if_pos hnone]
    rfl
  · rw [if_neg hnone, if_neg hnone]
    cases (pg.overlay rows).updateLinks deltas <;> rfl

/-- **The links part.** With room for every click count it succeeds, leaves the daily maxima
of the existing links and moves each click count by the growth of its rows. -/
theorem mergeLinks_eq (hpg : pg.NonNegative) (hs : s.NonNegative)
    (hfit : ∀ c row, pg.links.get c = some row →
      row.clickCount + linkGrowth pg s c ≤ i64Max) {outcome : MergeOutcome}
    (hcommitted : outcome.committedLinks = HashMap.empty)
    (hdeltas : outcome.linkDeltas = HashMap.empty) :
    mergeLinks pg s outcome = .ok
      ({ pg with links := (pg.merged s).links, linkDailyClicks := (pg.merged s).linkDailyClicks },
      { outcome with
        committedLinks := committedMap s.linkDaily (pg.selectLinks s.linkDaily.keys)
        linkDeltas := s.linkDeltas (pg.selectLinks s.linkDaily.keys) }) := by
  -- no days of links: no statement runs, and the maxima with nothing are the rows
  by_cases hempty : s.linkDaily.isEmpty = true
  · have hmerge : pg.linkDailyClicks.mergeMax (liveLinkDaily pg s) = pg.linkDailyClicks :=
      Table.mergeMax_isEmpty _ (HashMap.isEmpty_filterKeys hempty _)
    have hacc : s.linkDeltas (pg.selectLinks s.linkDaily.keys) = HashMap.empty := by
      unfold RedisSnapshot.linkDeltas
      rw [HashMap.eq_empty hempty]
      rfl
    unfold mergeLinks
    rw [if_pos hempty]
    simp only [Postgres.merged, if_pos hempty, hmerge, committedMap_isEmpty hempty, hacc]
    rw [← hcommitted, ← hdeltas]
  · obtain ⟨rows, hrows, hview⟩ := upsertLinks_eq hs
      (Postgres.readEarlier_selectLinks hpg s.linkDaily.keys)
    generalize hrowsEq : s.deltaRows (s.linkDeltas (pg.selectLinks s.linkDaily.keys)) = deltas
    have hget : ∀ c row, pg.links.get c = some row → assoc deltas c =
        incomingDelta (if s.HasCode c then some (linkGrowth pg s c) else none)
          (s.lastClickedAt.get c) := by
      intro c row hrow
      rw [← hrowsEq, assoc_deltaRows, get_linkDeltas_of_link hpg hs hrow (hfit c row hrow)]
    have hlinks : (pg.merged s).links = pg.links.mapRows fun c row =>
        bumpRow row (assoc deltas c) := by
      unfold Postgres.merged
      simp only [hempty, Bool.false_eq_true, if_false]
      exact Table.mapRows_congr fun c row hrow => by rw [hget c row hrow]
    rw [mergeLinks_eq_update outcome hempty hrows hrowsEq.symm, hview]
    -- the upsert raised no row, so there is nothing to pay in; else each count has room for its
    -- delta
    by_cases hnone : deltas.isEmpty = true
    · have hid : (pg.merged s).links = pg.links := by
        rw [hlinks, List.isEmpty_iff.mp hnone]
        exact Table.mapRows_eq_self fun c row _ => rfl
      rw [if_pos hnone, hid]
      rfl
    · have hroom : ∀ e ∈ deltas, ∀ row, pg.links.get e.1 = some row →
          0 ≤ row.clickCount + e.2.delta ∧ row.clickCount + e.2.delta ≤ i64Max := by
        intro e he row hrow
        have hassoc := assoc_of_mem (hrowsEq ▸ nodup_deltaRows s _) he
        rw [hget e.1 row hrow] at hassoc
        have hcount := hpg.clickCount e.1 row hrow
        have hgrow := linkGrowth_nonneg pg hs e.1
        have hbound := hfit e.1 row hrow
        have hdelta := delta_incomingDelta
          (if s.HasCode e.1 then some (linkGrowth pg s e.1) else none) (s.lastClickedAt.get e.1)
        rw [hassoc] at hdelta
        change e.2.delta = _ at hdelta
        rw [hdelta]
        split
        · rw [Option.getD_some, max_eq_left hgrow]
          omega
        · rw [Option.getD_none, max_self]
          omega
      obtain ⟨rows', hrows'⟩ : ∃ rows', Postgres.updateLinks
          { pg with linkDailyClicks := pg.linkDailyClicks.mergeMax (liveLinkDaily pg s) }
          deltas = .ok rows' := updateLinks_of_fits hroom
      rw [if_neg hnone, hrows', MergeTx.map_ok,
        updateLinks_ok (hrowsEq ▸ nodup_deltaRows s _) hrows', hlinks]
      rfl

end Links

/-! ## The whole merge -/

theorem mergeSnapshot_eq_bind (pg : Postgres) (s : RedisSnapshot) :
    mergeSnapshot pg s = (do
      let (pg, outcome) ← mergeGlobal pg s MergeOutcome.default
      mergeLinks pg s outcome) := by
  unfold mergeSnapshot
  by_cases hempty : (s.globalDaily.isEmpty && s.linkDaily.isEmpty) = true
  · rw [if_pos hempty]
    obtain ⟨hglobal, hlinks⟩ := Bool.and_eq_true_iff.mp hempty
    unfold mergeGlobal
    rw [if_pos hglobal, MergeTx.ok_bind]
    show _ = mergeLinks pg s MergeOutcome.default
    unfold mergeLinks
    rw [if_pos hlinks]
  · rw [if_neg hempty]

/-- **A merge**, in closed form: with room for its sums it commits `merged`. -/
theorem mergeSnapshot_eq {pg : Postgres} {s : RedisSnapshot} (hpg : pg.NonNegative)
    (hs : s.NonNegative) (hfit : MergeFits pg s) :
    mergeSnapshot pg s = .ok (pg.merged s,
      { committedGlobal := committedMap s.globalDaily (pg.selectGlobal s.globalDaily.keys)
        committedLinks := committedMap s.linkDaily (pg.selectLinks s.linkDaily.keys)
        globalDelta := globalGrowth pg s
        linkDeltas := s.linkDeltas (pg.selectLinks s.linkDaily.keys) }) := by
  have hgrow := globalGrowth_nonneg pg hs
  have htotal := hpg.totalClicks
  rw [mergeSnapshot_eq_bind, mergeGlobal_eq hpg hs hfit.total, MergeTx.ok_bind]
  -- the links part does not look at what the global part wrote
  have hpg' : Postgres.NonNegative { pg with
      globalDailyClicks := pg.globalDailyClicks.mergeMax s.globalDaily
      totalClicks := pg.totalClicks + globalGrowth pg s } :=
    { globalDailyClicks := fun d =>
        le_trans (hpg.globalDailyClicks d) (Table.val_le_val_mergeMax _ hs.1 d)
      linkDailyClicks := hpg.linkDailyClicks
      clickCount := hpg.clickCount
      totalClicks := by simp only; omega }
  exact mergeLinks_eq hpg' hs hfit.clickCount rfl rfl

theorem linkGrowth_eq_zero {pg : Postgres} {s : RedisSnapshot} (hs : s.NonNegative) {c : String}
    (hlink : pg.linkExists c = true) (hcode : ¬ s.HasCode c) : linkGrowth pg s c = 0 := by
  rw [← linkDeltaSum_eq hs hlink fun e _ _ => (rfl : DeltaExact pg.linkDailyClicks _ e)]
  exact linkDeltaSum_eq_zero hcode

/-- **The click counts of a merge.** Every row of `links` stays, and its click count grows by
the growth of its daily rows. -/
theorem get_links_merged {pg : Postgres} {s : RedisSnapshot} (hs : s.NonNegative) {c : String}
    {row : LinkRow} (hrow : pg.links.get c = some row) :
    ∃ row', (pg.merged s).links.get c = some row' ∧
      row'.clickCount = row.clickCount + linkGrowth pg s c ∧
      row'.target = row.target ∧ row'.expiration = row.expiration := by
  have hgrow := linkGrowth_nonneg pg hs c
  have hzero := linkGrowth_eq_zero hs (linkExists_of_get hrow)
  by_cases hempty : s.linkDaily.isEmpty = true
  · refine ⟨row, ?_, by rw [hzero (s.not_hasCode hempty c), add_zero], rfl, rfl⟩
    show (if s.linkDaily.isEmpty then pg.links else _).get c = _
    rw [if_pos hempty, hrow]
  · refine ⟨bumpRow row (incomingDelta (if s.HasCode c then some (linkGrowth pg s c) else none)
      (s.lastClickedAt.get c)), ?_, ?_, ?_, ?_⟩
    · show (if s.linkDaily.isEmpty then pg.links else _).get c = _
      rw [if_neg hempty, Table.get_mapRows, hrow, Option.map_some]
    · rw [clickCount_bumpRow, delta_incomingDelta]
      by_cases hcode : s.HasCode c
      · rw [if_pos hcode, Option.getD_some, max_eq_left hgrow]
      · rw [if_neg hcode, hzero hcode]
        rfl
    · rw [target_bumpRow]
    · rw [expiration_bumpRow]

theorem linkExists_merged (pg : Postgres) (s : RedisSnapshot) (c : String) :
    (pg.merged s).linkExists c = pg.linkExists c := by
  show ((if s.linkDaily.isEmpty then pg.links else _).get c).isSome = (pg.links.get c).isSome
  split
  · rfl
  · rw [Table.get_mapRows, Option.isSome_map]

/-- A merge keeps the check constraints. -/
theorem Postgres.NonNegative.merged {pg : Postgres} {s : RedisSnapshot} (hpg : pg.NonNegative)
    (hs : s.NonNegative) : (pg.merged s).NonNegative where
  globalDailyClicks d := le_trans (hpg.globalDailyClicks d) (Table.val_le_val_mergeMax _ hs.1 d)
  linkDailyClicks k := le_trans (hpg.linkDailyClicks k)
    (Table.val_le_val_mergeMax _ (liveLinkDaily_nonneg pg hs) k)
  clickCount c row hrow := by
    have hexists : pg.linkExists c = true := by
      rw [← linkExists_merged pg s]
      exact linkExists_of_get hrow
    obtain ⟨old, hold⟩ := Option.isSome_iff_exists.mp hexists
    obtain ⟨row', hrow', hcount, -⟩ := get_links_merged hs hold
    obtain rfl := Option.some.inj (hrow.symm.trans hrow')
    have hgrow := linkGrowth_nonneg pg hs c
    have hnonneg := hpg.clickCount c old hold
    omega
  totalClicks := by
    have hgrow := globalGrowth_nonneg pg hs
    have htotal := hpg.totalClicks
    show 0 ≤ pg.totalClicks + globalGrowth pg s
    omega

end Kurl
