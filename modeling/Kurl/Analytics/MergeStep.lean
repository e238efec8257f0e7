import Kurl.Analytics.MergeSpec

/-!
# Kurl — one statement of a running merge

`Executed` lists what the next statement of a merge does to the tables its transaction sees;
`MergeTx.executed_of_exec` is the inversion every invariant of a running merge starts from.

A statement of the source is one constructor: the two reads of the daily rows (in Postgres a
`SELECT` of what is visible and the row locks that follow it), the upserts, the update of the total
and of the links, and the commit. What the statement has read is in the stage, and what it returns
to the caller in the outcome.

`TxFrame` says that the rows of links a merge has written are rows it holds locks on. So a
`create_link` or a `delete_link` that commits meanwhile concerns other rows, and changes what the
transaction sees exactly as it changes the tables (`TxFrame.view_createLink`,
`TxFrame.view_deleteLink`).
-/

namespace Kurl

open Lib

/-- A statement of the merge of `s`, executed where the transaction sees `pg`. -/
inductive Executed (s : RedisSnapshot) (pg : Postgres) (o : MergeOutcome) :
    MergeStage → Postgres → MergeStage → MergeOutcome → Prop
  | selectGlobal {visible : List NaiveDate}
      (hvisible : ∀ d, d ∈ visible ↔ d ∈ s.globalDaily.keys ∧ d ∈ pg.globalDailyClicks.keys) :
      Executed s pg o .selectGlobal pg (.lockGlobal visible) o
  | lockGlobal (visible : List NaiveDate) :
      Executed s pg o (.lockGlobal visible) pg (.upsertGlobal (pg.selectGlobal visible)) o
  | upsertGlobal (existing : Table NaiveDate Int) {daily : Table NaiveDate Int}
      (hdaily : ∀ d, daily.get d =
        greatest (assoc (committedRows s.globalDaily existing) d) (pg.globalDailyClicks.get d)) :
      Executed s pg o (.upsertGlobal existing) { pg with globalDailyClicks := daily }
        (if s.totalGlobalDelta existing > 0 then .updateTotal (s.totalGlobalDelta existing)
          else MergeTx.linksStage s)
        { o with
          committedGlobal := committedMap s.globalDaily existing
          globalDelta := s.totalGlobalDelta existing }
  | updateTotal {delta : Int} (hpos : 0 ≤ pg.totalClicks + delta) :
      Executed s pg o (.updateTotal delta) { pg with totalClicks := pg.totalClicks + delta }
        (MergeTx.linksStage s) o
  | selectLinks {visible : List (String × NaiveDate)}
      (hvisible : ∀ k, k ∈ visible ↔ k ∈ s.linkDaily.keys ∧ k ∈ pg.linkDailyClicks.keys) :
      Executed s pg o .selectLinks pg (.lockLinks visible) o
  | lockLinks (visible : List (String × NaiveDate)) :
      Executed s pg o (.lockLinks visible) pg (.upsertLinks (pg.selectLinks visible)) o
  | upsertLinks (existing : Table (String × NaiveDate) Int)
      {daily : Table (String × NaiveDate) Int}
      (hdaily : ∀ k, daily.get k = if pg.linkExists k.1 then
          greatest (assoc (committedRows s.linkDaily existing) k) (pg.linkDailyClicks.get k)
        else pg.linkDailyClicks.get k) :
      Executed s pg o (.upsertLinks existing) { pg with linkDailyClicks := daily }
        (if (s.deltaRows (s.linkDeltas existing)).isEmpty then .commit
          else .updateLinks (s.deltaRows (s.linkDeltas existing)))
        { o with
          committedLinks := committedMap s.linkDaily existing
          linkDeltas := s.linkDeltas existing }
  | updateLinks (deltas : List (String × Postgres.LinkDelta)) :
      Executed s pg o (.updateLinks deltas)
        { pg with links := pg.links.mapRows fun c row => bumpRow row (assoc deltas c) } .commit o
  | commit : Executed s pg o .commit pg .commit o

/-- The rows a merge has written to `links` and `link_daily_clicks` are rows of links that are
there and that its locks keep there. -/
structure TxFrame (pg : Postgres) (tx : MergeTx) : Prop where
  links : ∀ c, (tx.writes.links.get c).isSome = true →
    c ∈ tx.locks.links ∧ pg.linkExists c = true
  linkDaily : ∀ k, (tx.writes.linkDailyClicks.get k).isSome = true →
    k.1 ∈ tx.locks.keyShare ∧ pg.linkExists k.1 = true
  nodup : ∀ deltas, tx.stage = .updateLinks deltas → (deltas.map Prod.fst).Nodup

section Rows

variable {pg : Postgres}

/-- The rows that the upsert of `link_daily_clicks` writes. -/
theorem upsertLinks_ok {incoming : List ((String × NaiveDate) × Int)}
    (hnodup : (incoming.map Prod.fst).Nodup) {rows : Writes}
    (h : pg.upsertLinks incoming = .ok rows) :
    rows.links = Table.empty ∧
    (∀ k, (rows.linkDailyClicks.get k).isSome = true →
      pg.linkExists k.1 = true ∧ k ∈ incoming.map Prod.fst) ∧
    ∃ daily, pg.overlay rows = { pg with linkDailyClicks := daily } ∧
      ∀ k, daily.get k = if pg.linkExists k.1 then
          greatest (assoc incoming k) (pg.linkDailyClicks.get k)
        else pg.linkDailyClicks.get k := by
  unfold Postgres.upsertLinks at h
  simp only at h
  split at h
  · simp at h
  · obtain rfl := Except.ok.inj h
    have hnodup' : ((incoming.filter fun r => pg.linkExists r.1.1).map Prod.fst).Nodup :=
      hnodup.sublist (List.filter_sublist.map _)
    refine ⟨rfl, fun k hk => ?_, _, by simp [Postgres.overlay, Writes.empty]; rfl, fun k => ?_⟩
    · change ((pg.linkDailyClicks.upsertRows _).get k).isSome = true at hk
      rw [Table.get_upsertRows _ hnodup', Option.isSome_map] at hk
      obtain ⟨n, hn⟩ := Option.isSome_iff_exists.mp hk
      obtain ⟨hmem, hlink⟩ := List.mem_filter.mp (mem_of_assoc hn)
      exact ⟨hlink, List.mem_map_of_mem hmem⟩
    · rw [Table.get_overlay_upsertRows _ hnodup']
      by_cases hk : pg.linkExists k.1 = true
      · rw [if_pos hk, assoc_filter_of_pos fun e he => by rw [he]; exact hk]
      · rw [if_neg hk, assoc_filter_of_not fun e he => by rw [he]; simpa using hk]
        rfl

theorem upsertGlobal_ok {incoming : List (NaiveDate × Int)}
    (hnodup : (incoming.map Prod.fst).Nodup) {rows : Writes}
    (h : pg.upsertGlobal incoming = .ok rows) :
    rows.links = Table.empty ∧ rows.linkDailyClicks = Table.empty ∧
    ∃ daily, pg.overlay rows = { pg with globalDailyClicks := daily } ∧
      ∀ d, daily.get d = greatest (assoc incoming d) (pg.globalDailyClicks.get d) := by
  unfold Postgres.upsertGlobal at h
  split at h
  · simp at h
  · obtain rfl := Except.ok.inj h
    exact ⟨rfl, rfl, _, by simp [Postgres.overlay, Writes.empty],
      fun d => Table.get_overlay_upsertRows _ hnodup d⟩

theorem updateTotal_writes {delta : Int} {rows : Writes} (h : pg.updateTotal delta = .ok rows) :
    rows.links = Table.empty ∧ rows.linkDailyClicks = Table.empty := by
  unfold Postgres.updateTotal at h
  split at h
  · split at h
    · simp at h
    · obtain rfl := Except.ok.inj h
      exact ⟨rfl, rfl⟩
  · simp at h

/-- The rows that the update of `links` writes. -/
theorem updateLinks_writes {incoming : List (String × Postgres.LinkDelta)} {rows : Writes}
    (h : pg.updateLinks incoming = .ok rows) :
    rows = { Writes.empty with links := rows.links } ∧
    ∀ c, (rows.links.get c).isSome = true → c ∈ incoming.map Prod.fst ∧ pg.linkExists c = true := by
  have hfold : ∀ w w' : Writes, incoming.foldlM pg.updateLink w = .ok w' →
      w' = { w with links := w'.links } ∧
      ∀ c, (w'.links.get c).isSome = true → (w.links.get c).isSome = true ∨
        c ∈ incoming.map Prod.fst ∧ pg.linkExists c = true := by
    clear h rows
    induction incoming with
    | nil =>
      intro w w' h
      obtain rfl := Except.ok.inj h
      exact ⟨rfl, fun c hc => Or.inl hc⟩
    | cons e incoming ih =>
      intro w w' h
      rw [List.foldlM_cons] at h
      obtain ⟨w₁, hstep, hrest⟩ := exceptBind_eq_ok h
      obtain ⟨hframe, hlinks⟩ := ih w₁ w' hrest
      have hw₁ : w₁ = { w with links := w₁.links } ∧ ∀ c, (w₁.links.get c).isSome = true →
          (w.links.get c).isSome = true ∨ c = e.1 ∧ pg.linkExists c = true := by
        rcases updateLink_cases hstep with ⟨-, rfl⟩ | ⟨row, hrow, rfl⟩
        · exact ⟨rfl, fun c hc => Or.inl hc⟩
        · refine ⟨rfl, fun c hc => ?_⟩
          by_cases hce : c = e.1
          · exact Or.inr ⟨hce, hce ▸ linkExists_of_get hrow⟩
          · refine Or.inl ?_
            change ((w.links.set e.1 _).get c).isSome = true at hc
            rwa [Table.get_set_of_ne _ _ hce] at hc
      refine ⟨by rw [hframe, hw₁.1], fun c hc => ?_⟩
      rcases hlinks c hc with hc | ⟨hmem, hlink⟩
      · rcases hw₁.2 c hc with hc | ⟨rfl, hlink⟩
        · exact Or.inl hc
        · exact Or.inr ⟨List.mem_cons_self, hlink⟩
      · exact Or.inr ⟨List.mem_cons_of_mem _ hmem, hlink⟩
  obtain ⟨hrest, hlinks⟩ := hfold Writes.empty rows h
  refine ⟨hrest, fun c hc => (hlinks c hc).resolve_left ?_⟩
  simp [Writes.empty]

end Rows

section Transaction

variable {pg : Postgres} {tx tx' : MergeTx}

namespace TxFrame

theorem begin (pg : Postgres) (s : RedisSnapshot) : TxFrame pg (MergeTx.begin s) := by
  refine ⟨fun c hc => ?_, fun k hk => ?_, fun deltas hstage => ?_⟩
  · simp [MergeTx.begin, Writes.empty] at hc
  · simp [MergeTx.begin, Writes.empty] at hk
  · have hne : ∀ s : RedisSnapshot, MergeTx.linksStage s ≠ .updateLinks deltas := fun s => by
      unfold MergeTx.linksStage
      split <;> simp
    change (if s.globalDaily.isEmpty then MergeTx.linksStage s else .selectGlobal) = _ at hstage
    split at hstage
    · exact absurd hstage (hne s)
    · simp at hstage

/-- The transaction sees the links that are there. -/
theorem linkExists (h : TxFrame pg tx) (c : String) : (tx.view pg).linkExists c = pg.linkExists c := by
  show ((tx.writes.links.get c).or (pg.links.get c)).isSome = (pg.links.get c).isSome
  cases hc : tx.writes.links.get c with
  | none => rfl
  | some row =>
    have hlink := (h.links c (by rw [hc]; rfl)).2
    unfold Postgres.linkExists at hlink
    rw [hlink]
    rfl

/-- A statement that writes only rows it locks. -/
theorem advance (h : TxFrame pg tx) {rows : Writes} {stage : MergeStage} {outcome : MergeOutcome}
    (hlinks : ∀ c, (rows.links.get c).isSome = true →
      c ∈ (tx.needs pg).links ∧ pg.linkExists c = true)
    (hdaily : ∀ k, (rows.linkDailyClicks.get k).isSome = true →
      k.1 ∈ (tx.needs pg).keyShare ∧ pg.linkExists k.1 = true)
    (hnodup : ∀ deltas, stage = .updateLinks deltas → (deltas.map Prod.fst).Nodup) :
    TxFrame pg (tx.advance pg rows stage outcome) := by
  refine ⟨fun c hc => ?_, fun k hk => ?_, hnodup⟩
  · change ((rows.links.get c).or (tx.writes.links.get c)).isSome = true at hc
    rw [Option.isSome_or, Bool.or_eq_true] at hc
    rcases hc with hc | hc
    · exact (hlinks c hc).imp_left fun hmem => List.mem_append_right _ hmem
    · exact (h.links c hc).imp_left fun hmem => List.mem_append_left _ hmem
  · change ((rows.linkDailyClicks.get k).or (tx.writes.linkDailyClicks.get k)).isSome = true at hk
    rw [Option.isSome_or, Bool.or_eq_true] at hk
    rcases hk with hk | hk
    · exact (hdaily k hk).imp_left fun hmem => List.mem_append_right _ hmem
    · exact (h.linkDaily k hk).imp_left fun hmem => List.mem_append_left _ hmem

end TxFrame

theorem linksStage_ne_updateLinks (s : RedisSnapshot)
    (deltas : List (String × Postgres.LinkDelta)) : MergeTx.linksStage s ≠ .updateLinks deltas := by
  unfold MergeTx.linksStage
  split <;> simp

/-- **Inversion of a statement.** -/
theorem MergeTx.executed_of_exec (h : TxFrame pg tx) (hexec : tx.exec pg = .ok tx') :
    Executed tx.snapshot (tx.view pg) tx.outcome tx.stage (tx'.view pg) tx'.stage tx'.outcome ∧
      tx'.snapshot = tx.snapshot ∧ TxFrame pg tx' := by
  have hnone : ∀ c, ((Table.empty : Table String LinkRow).get c).isSome = true →
      c ∈ (tx.needs pg).links ∧ pg.linkExists c = true := fun c hc => by simp at hc
  have hnoneDaily : ∀ k, ((Table.empty : Table (String × NaiveDate) Int).get k).isSome = true →
      k.1 ∈ (tx.needs pg).keyShare ∧ pg.linkExists k.1 = true := fun k hk => by simp at hk
  -- each stage has one statement; besides what it did, the rows it wrote have to be rows it
  -- locked
  cases hstage : tx.stage with
  | selectGlobal =>
    simp only [MergeTx.exec, hstage, Except.ok.injEq] at hexec
    subst hexec
    rw [MergeTx.view_advance, Postgres.overlay_empty]
    refine ⟨.selectGlobal fun d => ?_, rfl, h.advance hnone hnoneDaily fun _ he => by simp at he⟩
    simp
  | lockGlobal visible =>
    obtain rfl := Except.ok.inj ((MergeTx.exec_lockGlobal hstage).symm.trans hexec)
    rw [MergeTx.view_advance, Postgres.overlay_empty]
    exact ⟨.lockGlobal visible, rfl, h.advance hnone hnoneDaily fun _ he => by simp at he⟩
  | upsertGlobal existing =>
    rw [MergeTx.exec_upsertGlobal hstage] at hexec
    obtain ⟨rows, hrows, rfl⟩ := exceptMap_eq_ok hexec
    obtain ⟨hlinks, hdaily, daily, hview, hget⟩ :=
      upsertGlobal_ok (nodup_committedRows _ _) hrows
    rw [MergeTx.view_advance, hview]
    refine ⟨.upsertGlobal existing hget, rfl, h.advance (by rw [hlinks]; exact hnone)
      (by rw [hdaily]; exact hnoneDaily) fun deltas he => ?_⟩
    split at he
    · simp at he
    · exact absurd he (linksStage_ne_updateLinks _ _)
  | updateTotal delta =>
    rw [MergeTx.exec_updateTotal hstage] at hexec
    obtain ⟨rows, hrows, rfl⟩ := exceptMap_eq_ok hexec
    obtain ⟨hlinks, hdaily⟩ := updateTotal_writes hrows
    obtain ⟨hview, hpos⟩ := updateTotal_ok hrows
    rw [MergeTx.view_advance, hview]
    exact ⟨.updateTotal hpos, rfl, h.advance (by rw [hlinks]; exact hnone)
      (by rw [hdaily]; exact hnoneDaily) fun deltas he =>
        absurd he (linksStage_ne_updateLinks _ _)⟩
  | selectLinks =>
    simp only [MergeTx.exec, hstage, Except.ok.injEq] at hexec
    subst hexec
    rw [MergeTx.view_advance, Postgres.overlay_empty]
    refine ⟨.selectLinks fun k => ?_, rfl, h.advance hnone hnoneDaily fun _ he => by simp at he⟩
    simp
  | lockLinks visible =>
    obtain rfl := Except.ok.inj ((MergeTx.exec_lockLinks hstage).symm.trans hexec)
    rw [MergeTx.view_advance, Postgres.overlay_empty]
    exact ⟨.lockLinks visible, rfl, h.advance hnone hnoneDaily fun _ he => by simp at he⟩
  | upsertLinks existing =>
    -- the rows written are of links that are there, and their locks are taken with them
    rw [MergeTx.exec_upsertLinks hstage] at hexec
    obtain ⟨rows, hrows, rfl⟩ := exceptMap_eq_ok hexec
    obtain ⟨hlinks, hdaily, daily, hview, hget⟩ := upsertLinks_ok (nodup_committedRows _ _) hrows
    rw [MergeTx.view_advance, hview]
    refine ⟨.upsertLinks existing hget, rfl, h.advance (by rw [hlinks]; exact hnone)
      (fun k hk => ?_) fun deltas he => ?_⟩
    · obtain ⟨hlink, hmem⟩ := hdaily k hk
      rw [keys_committedRows] at hmem
      refine ⟨?_, h.linkExists k.1 ▸ hlink⟩
      simp only [MergeTx.needs, hstage]
      exact List.mem_map_of_mem (List.mem_filter.mpr ⟨hmem, hlink⟩)
    · split at he
      · simp at he
      · exact MergeStage.updateLinks.inj he ▸ nodup_deltaRows _ _
  | updateLinks deltas =>
    -- the `UPDATE` meets the rows of the deltas only, which are keyed once
    rw [MergeTx.exec_updateLinks hstage] at hexec
    obtain ⟨rows, hrows, rfl⟩ := exceptMap_eq_ok hexec
    obtain ⟨hrest, hlinks⟩ := updateLinks_writes hrows
    rw [MergeTx.view_advance, updateLinks_ok (h.nodup deltas hstage) hrows]
    refine ⟨.updateLinks deltas, rfl, h.advance (fun c hc => ?_)
      (by rw [hrest]; exact hnoneDaily) fun _ he => by simp at he⟩
    obtain ⟨hmem, hlink⟩ := hlinks c hc
    refine ⟨?_, h.linkExists c ▸ hlink⟩
    simp only [MergeTx.needs, hstage]
    exact List.mem_filter.mpr ⟨hmem, hlink⟩
  | commit =>
    have heq : tx.exec pg = .ok tx := by simp only [MergeTx.exec, hstage]
    obtain rfl := Except.ok.inj (heq.symm.trans hexec)
    rw [hstage]
    exact ⟨.commit, rfl, h⟩

/-! ## Links that come and go meanwhile -/

/-- The tables without a link and its daily rows. -/
def Postgres.withoutLink (pg : Postgres) (code : String) : Postgres :=
  { pg with
    links := pg.links.erase code
    linkDailyClicks := pg.linkDailyClicks.filter (fun k => k.1 ≠ code) }

namespace TxFrame

/-- A created link is new to the transaction as well. -/
theorem view_createLink (h : TxFrame pg tx) {code target : String} {expiration : Option DateTime}
    {pg' : Postgres} (hcreate : pg.createLink code target expiration = .ok pg') :
    (tx.view pg).links.get code = none ∧ tx.view pg' = { tx.view pg with
      links := (tx.view pg).links.set code (Postgres.newLink target expiration) } ∧
      TxFrame pg' tx := by
  obtain ⟨hnone, rfl⟩ := Postgres.createLink_ok hcreate
  have hwrites : tx.writes.links.get code = none := by
    cases hc : tx.writes.links.get code with
    | none => rfl
    | some row =>
      have hlink := (h.links code (by rw [hc]; rfl)).2
      simp [Postgres.linkExists, hnone] at hlink
  refine ⟨?_, ?_, ?_⟩
  · show (tx.writes.links.get code).or (pg.links.get code) = none
    rw [hwrites, hnone]
    rfl
  · unfold MergeTx.view Postgres.overlay
    simp only [Table.set_overlay hwrites]
  · have hkeep : ∀ c, pg.linkExists c = true → Postgres.linkExists
        { pg with links := pg.links.set code (Postgres.newLink target expiration) } c = true := by
      intro c hc
      unfold Postgres.linkExists at hc ⊢
      rw [Table.get_set]
      split
      · rfl
      · exact hc
    exact ⟨fun c hc => (h.links c hc).imp_right (hkeep c),
      fun k hk => (h.linkDaily k hk).imp_right (hkeep k.1), h.nodup⟩

/-- A link that no lock of the merge keeps is deleted from what the transaction sees. -/
theorem view_deleteLink (h : TxFrame pg tx) {code : String} {pg' : Postgres}
    (hdelete : pg.deleteLink code = .ok pg') (hfree : tx.locks.blocksDelete code = false) :
    tx.view pg' = (tx.view pg).withoutLink code ∧ TxFrame pg' tx := by
  obtain rfl : pg' = pg.withoutLink code := Postgres.deleteLink_ok hdelete
  simp only [Locks.blocksDelete, Bool.or_eq_false_iff, decide_eq_false_iff_not] at hfree
  obtain ⟨⟨hlocked, hshared⟩, -⟩ := hfree
  have hwrites : tx.writes.links.get code = none := by
    cases hc : tx.writes.links.get code with
    | none => rfl
    | some row => exact absurd (h.links code (by rw [hc]; rfl)).1 hlocked
  have hdaily : ∀ k, k.1 = code → tx.writes.linkDailyClicks.get k = none := by
    intro k hk
    cases hc : tx.writes.linkDailyClicks.get k with
    | none => rfl
    | some n => exact absurd (hk ▸ (h.linkDaily k (by rw [hc]; rfl)).1) hshared
  refine ⟨?_, ?_⟩
  · have hrows : (pg.linkDailyClicks.filter fun k => k.1 ≠ code).overlay tx.writes.linkDailyClicks =
        (pg.linkDailyClicks.overlay tx.writes.linkDailyClicks).filter fun k => k.1 ≠ code :=
      Table.filter_overlay fun k hk => hdaily k (by simpa using hk)
    unfold MergeTx.view Postgres.overlay Postgres.withoutLink
    simp only [Table.erase_overlay hwrites, hrows]
  · have hkeep : ∀ c, c ≠ code → pg.linkExists c = true →
        (pg.withoutLink code).linkExists c = true := by
      intro c hne hc
      show ((pg.links.erase code).get c).isSome = true
      rw [Table.get_erase, if_neg hne]
      exact hc
    refine ⟨fun c hc => ?_, fun k hk => ?_, h.nodup⟩
    · obtain ⟨hmem, hlink⟩ := h.links c hc
      exact ⟨hmem, hkeep c (fun heq => hlocked (heq ▸ hmem)) hlink⟩
    · obtain ⟨hmem, hlink⟩ := h.linkDaily k hk
      exact ⟨hmem, hkeep k.1 (fun heq => hshared (heq ▸ hmem)) hlink⟩

end TxFrame

end Transaction

end Kurl
