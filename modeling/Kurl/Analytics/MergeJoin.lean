import Kurl.Analytics.MergeSpec

/-!
# Kurl — a snapshot merge is a join

Merging a list of snapshots, one transaction after the other. In closed form (`joined`) every daily
row ends at the greatest of its initial value and all incoming counts, and the two families of
totals move by exactly the growth of the rows they total. `greatest` over a list depends only on the
set of its members, so order, repetition and the iteration order inside a snapshot are all
immaterial (`mergeAll_join`).

The proof has three parts: the rows of `joined` by induction on the list, the totals as sums of the
growth of these rows, and `mergeAll_eq`, which says that the transactions run and leave `joined`.
The last needs room for the sums (`SumsFit`), and the same room is enough for every prefix of the
list and for every other order of it (`SumsFit.of_sameCounters`).
-/

namespace Kurl

open Lib

/-- One `merge_snapshot` transaction after the other. -/
def mergeAll (pg : Postgres) : List RedisSnapshot → Except DbError Postgres
  | [] => .ok pg
  | s :: ss => do
    let (pg, _) ← mergeSnapshot pg s
    mergeAll pg ss

namespace Postgres

/-- The tables after merging every snapshot of a list. -/
def joined (pg : Postgres) (ss : List RedisSnapshot) : Postgres := ss.foldl merged pg

@[simp] theorem joined_nil (pg : Postgres) : pg.joined [] = pg := rfl

@[simp] theorem joined_cons (pg : Postgres) (s : RedisSnapshot) (ss : List RedisSnapshot) :
    pg.joined (s :: ss) = (pg.merged s).joined ss := rfl

theorem joined_append (pg : Postgres) (ss ss' : List RedisSnapshot) :
    pg.joined (ss ++ ss') = (pg.joined ss).joined ss' := List.foldl_append

/-- The sum of the daily rows of a code. -/
def linkSum (pg : Postgres) (code : String) : Int :=
  pg.linkDailyClicks.sumWhere fun k => k.1 = code

/-- No counter of `pg` exceeds the one of `pg'`. -/
structure CountersLe (pg pg' : Postgres) : Prop where
  globalDailyClicks : ∀ d, pg.globalDailyClicks.val d ≤ pg'.globalDailyClicks.val d
  linkDailyClicks : ∀ k, pg.linkDailyClicks.val k ≤ pg'.linkDailyClicks.val k
  totalClicks : pg.totalClicks ≤ pg'.totalClicks
  clickCount : ∀ c row, pg.links.get c = some row →
    ∃ row', pg'.links.get c = some row' ∧ row.clickCount ≤ row'.clickCount

/-- The same counters. -/
structure SameCounters (pg pg' : Postgres) : Prop where
  globalDailyClicks : pg.globalDailyClicks = pg'.globalDailyClicks
  linkDailyClicks : pg.linkDailyClicks = pg'.linkDailyClicks
  totalClicks : pg.totalClicks = pg'.totalClicks
  clickCount : ∀ c, (pg.links.get c).map LinkRow.clickCount =
    (pg'.links.get c).map LinkRow.clickCount

end Postgres

/-- No total leaves the 64-bit range. -/
structure SumsFit (pg : Postgres) (ss : List RedisSnapshot) : Prop where
  total : (pg.joined ss).totalClicks ≤ i64Max
  clickCount : ∀ c row, (pg.joined ss).links.get c = some row → row.clickCount ≤ i64Max

section Joined

variable {pg : Postgres}

/-! ## Rows -/

theorem get_globalDailyClicks_joined (pg : Postgres) (ss : List RedisSnapshot) (d : NaiveDate) :
    (pg.joined ss).globalDailyClicks.get d =
      greatestOf (pg.globalDailyClicks.get d) (ss.map fun s => s.globalDaily.get d) := by
  induction ss generalizing pg with
  | nil => rfl
  | cons s ss ih =>
    rw [Postgres.joined_cons, ih, List.map_cons, greatestOf_cons]
    congr 1
    exact (Table.get_mergeMax ..).trans (greatest_comm _ _)

theorem linkExists_joined (pg : Postgres) (ss : List RedisSnapshot) (c : String) :
    (pg.joined ss).linkExists c = pg.linkExists c := by
  induction ss generalizing pg with
  | nil => rfl
  | cons s ss ih => rw [Postgres.joined_cons, ih, linkExists_merged]

theorem get_linkDailyClicks_joined (pg : Postgres) (ss : List RedisSnapshot)
    (k : String × NaiveDate) : (pg.joined ss).linkDailyClicks.get k =
      if pg.linkExists k.1 then
        greatestOf (pg.linkDailyClicks.get k) (ss.map fun s => s.linkDaily.get k)
      else pg.linkDailyClicks.get k := by
  induction ss generalizing pg with
  | nil => simp
  | cons s ss ih =>
    have hstep : (pg.merged s).linkDailyClicks.get k =
        greatest (if pg.linkExists k.1 then s.linkDaily.get k else none)
          (pg.linkDailyClicks.get k) := by
      show (pg.linkDailyClicks.mergeMax (liveLinkDaily pg s)).get k = _
      rw [Table.get_mergeMax, liveLinkDaily, HashMap.get_filterKeys]
    rw [Postgres.joined_cons, ih, linkExists_merged, hstep, List.map_cons, greatestOf_cons]
    by_cases hk : pg.linkExists k.1 = true
    · rw [if_pos hk, if_pos hk, if_pos hk, greatest_comm]
    · rw [if_neg hk, if_neg hk, if_neg hk, greatest_none_left]

/-! ## Totals -/

theorem totalClicks_joined (pg : Postgres) (ss : List RedisSnapshot) :
    (pg.joined ss).totalClicks =
      pg.totalClicks + ((pg.joined ss).globalDailyClicks.sum - pg.globalDailyClicks.sum) := by
  induction ss generalizing pg with
  | nil => simp
  | cons s ss ih =>
    have hstep : (pg.merged s).totalClicks = pg.totalClicks +
        ((pg.merged s).globalDailyClicks.sum - pg.globalDailyClicks.sum) := rfl
    rw [Postgres.joined_cons, ih, hstep]
    omega

theorem clickCount_joined {ss : List RedisSnapshot} (hss : ∀ s ∈ ss, s.NonNegative) {c : String}
    {row : LinkRow} (hrow : pg.links.get c = some row) :
    ∃ row', (pg.joined ss).links.get c = some row' ∧
      row'.clickCount = row.clickCount + ((pg.joined ss).linkSum c - pg.linkSum c) := by
  induction ss generalizing pg row with
  | nil => exact ⟨row, hrow, by simp⟩
  | cons s ss ih =>
    obtain ⟨row₁, hrow₁, hcount₁, -⟩ := get_links_merged (hss s List.mem_cons_self) hrow
    obtain ⟨row', hrow', hcount'⟩ := ih (fun x hx => hss x (List.mem_cons_of_mem _ hx)) hrow₁
    refine ⟨row', hrow', ?_⟩
    have hgrow : linkGrowth pg s c = (pg.merged s).linkSum c - pg.linkSum c := rfl
    rw [hcount', hcount₁, hgrow, Postgres.joined_cons]
    omega

/-! ## Monotonicity -/

namespace Postgres.CountersLe

theorem refl (pg : Postgres) : pg.CountersLe pg where
  globalDailyClicks _ := le_refl _
  linkDailyClicks _ := le_refl _
  totalClicks := le_refl _
  clickCount _ row hrow := ⟨row, hrow, le_refl _⟩

theorem trans {p q r : Postgres} (hpq : p.CountersLe q) (hqr : q.CountersLe r) :
    p.CountersLe r where
  globalDailyClicks d := le_trans (hpq.globalDailyClicks d) (hqr.globalDailyClicks d)
  linkDailyClicks k := le_trans (hpq.linkDailyClicks k) (hqr.linkDailyClicks k)
  totalClicks := le_trans hpq.totalClicks hqr.totalClicks
  clickCount c row hrow := by
    obtain ⟨row', hrow', hle⟩ := hpq.clickCount c row hrow
    obtain ⟨row'', hrow'', hle'⟩ := hqr.clickCount c row' hrow'
    exact ⟨row'', hrow'', le_trans hle hle'⟩

end Postgres.CountersLe

/-- A merge decreases no counter. -/
theorem countersLe_merged (pg : Postgres) {s : RedisSnapshot} (hs : s.NonNegative) :
    pg.CountersLe (pg.merged s) where
  globalDailyClicks d := Table.val_le_val_mergeMax _ hs.1 d
  linkDailyClicks k := Table.val_le_val_mergeMax _ (liveLinkDaily_nonneg pg hs) k
  totalClicks := by
    have hgrow := globalGrowth_nonneg pg hs
    show pg.totalClicks ≤ pg.totalClicks + globalGrowth pg s
    omega
  clickCount c row hrow := by
    obtain ⟨row', hrow', hcount, -⟩ := get_links_merged hs hrow
    have hgrow := linkGrowth_nonneg pg hs c
    exact ⟨row', hrow', by omega⟩

theorem countersLe_joined (pg : Postgres) {ss : List RedisSnapshot}
    (hss : ∀ s ∈ ss, s.NonNegative) :
    pg.CountersLe (pg.joined ss) := by
  induction ss generalizing pg with
  | nil => exact Postgres.CountersLe.refl pg
  | cons s ss ih =>
    exact (countersLe_merged pg (hss s List.mem_cons_self)).trans
      (ih _ fun x hx => hss x (List.mem_cons_of_mem _ hx))

/-! ## Running the transactions -/

/-- The first merge has room for its sums if all of them together have. -/
theorem SumsFit.mergeFits {s : RedisSnapshot} {ss : List RedisSnapshot}
    (hss : ∀ x ∈ s :: ss, x.NonNegative) (h : SumsFit pg (s :: ss)) : MergeFits pg s := by
  have hle := countersLe_joined (pg.merged s)
    (fun x hx => hss x (List.mem_cons_of_mem s hx))
  refine ⟨le_trans hle.totalClicks h.total, fun c row hrow => ?_⟩
  obtain ⟨row₁, hrow₁, hcount₁, -⟩ := get_links_merged (hss s List.mem_cons_self) hrow
  obtain ⟨row', hrow', hle'⟩ := hle.clickCount c row₁ hrow₁
  have hbound := h.clickCount c row' hrow'
  omega

theorem SumsFit.of_append {ss ss' : List RedisSnapshot} (hss : ∀ s ∈ ss ++ ss', s.NonNegative)
    (h : SumsFit pg (ss ++ ss')) : SumsFit pg ss ∧ SumsFit (pg.joined ss) ss' := by
  have hle := countersLe_joined (pg.joined ss)
    (fun x hx => hss x (List.mem_append_right ss hx))
  rw [← Postgres.joined_append] at hle
  refine ⟨⟨le_trans hle.totalClicks h.total, fun c row hrow => ?_⟩, ?_⟩
  · obtain ⟨row', hrow', hcount⟩ := hle.clickCount c row hrow
    exact le_trans hcount (h.clickCount c row' hrow')
  · obtain ⟨htotal, hcount⟩ := h
    rw [Postgres.joined_append] at htotal hcount
    exact ⟨htotal, hcount⟩

theorem Postgres.NonNegative.joined {ss : List RedisSnapshot} (hpg : pg.NonNegative)
    (hss : ∀ s ∈ ss, s.NonNegative) : (pg.joined ss).NonNegative := by
  induction ss generalizing pg with
  | nil => exact hpg
  | cons s ss ih =>
    exact ih (hpg.merged (hss s List.mem_cons_self)) fun x hx =>
      hss x (List.mem_cons_of_mem _ hx)

/-- With room for every sum no transaction fails, and together they leave `joined`. -/
theorem mergeAll_eq {ss : List RedisSnapshot} (hpg : pg.NonNegative)
    (hss : ∀ s ∈ ss, s.NonNegative) (hfit : SumsFit pg ss) :
    mergeAll pg ss = .ok (pg.joined ss) := by
  induction ss generalizing pg with
  | nil => rfl
  | cons s ss ih =>
    unfold mergeAll
    rw [mergeSnapshot_eq hpg (hss s List.mem_cons_self) (hfit.mergeFits hss), MergeTx.ok_bind]
    exact ih (hpg.merged (hss s List.mem_cons_self))
      (fun x hx => hss x (List.mem_cons_of_mem _ hx)) ⟨hfit.total, hfit.clickCount⟩

/-! ## Order, repetition, iteration order -/

/-- Two lists of snapshots with the same contents up to order, repetition and the iteration
order inside the snapshots. -/
def SameContents (ss ss' : List RedisSnapshot) : Prop :=
  (∀ s ∈ ss, ∃ s' ∈ ss', s.Same s') ∧ ∀ s' ∈ ss', ∃ s ∈ ss, s.Same s'

theorem SameContents.greatestOf_eq {ss ss' : List RedisSnapshot} (h : SameContents ss ss')
    {α : Type} [LinearOrder α] {f : RedisSnapshot → Option α}
    (hf : ∀ s s', s.Same s' → f s = f s') (init : Option α) :
    greatestOf init (ss.map f) = greatestOf init (ss'.map f) := by
  refine greatestOf_congr fun a => ?_
  simp only [List.mem_map]
  constructor
  · rintro ⟨s, hs, rfl⟩
    obtain ⟨s', hs', hsame⟩ := h.1 s hs
    exact ⟨s', hs', (hf s s' hsame).symm⟩
  · rintro ⟨s', hs', rfl⟩
    obtain ⟨s, hs, hsame⟩ := h.2 s' hs'
    exact ⟨s, hs, hf s s' hsame⟩

theorem RedisSnapshot.Same.nonNegative {s s' : RedisSnapshot} (h : s.Same s')
    (hs : s.NonNegative) : s'.NonNegative :=
  ⟨fun e he => hs.1 e ((h.1.mem_entries e).mpr he),
    fun e he => hs.2 e ((h.2.1.mem_entries e).mpr he)⟩

theorem SameContents.nonNegative {ss ss' : List RedisSnapshot} (h : SameContents ss ss')
    (hss : ∀ s ∈ ss, s.NonNegative) : ∀ s' ∈ ss', s'.NonNegative := by
  intro s' hs'
  obtain ⟨s, hs, hsame⟩ := h.2 s' hs'
  exact hsame.nonNegative (hss s hs)

theorem sameCounters_joined (pg : Postgres) {ss ss' : List RedisSnapshot} (h : SameContents ss ss')
    (hss : ∀ s ∈ ss, s.NonNegative) : (pg.joined ss).SameCounters (pg.joined ss') := by
  have hglobal : (pg.joined ss).globalDailyClicks = (pg.joined ss').globalDailyClicks := by
    ext1 d
    rw [get_globalDailyClicks_joined, get_globalDailyClicks_joined]
    exact h.greatestOf_eq (fun s s' hsame => hsame.1 d) _
  have hlinks : (pg.joined ss).linkDailyClicks = (pg.joined ss').linkDailyClicks := by
    ext1 k
    rw [get_linkDailyClicks_joined, get_linkDailyClicks_joined]
    rw [h.greatestOf_eq (f := fun s => s.linkDaily.get k) (fun s s' hsame => hsame.2.1 k)]
  refine ⟨hglobal, hlinks, ?_, fun c => ?_⟩
  · rw [totalClicks_joined, totalClicks_joined pg ss', hglobal]
  · cases hrow : pg.links.get c with
    | none =>
      have hnone : ∀ xs, (pg.joined xs).links.get c = none := fun xs => by
        have hexists := linkExists_joined pg xs c
        simpa [Postgres.linkExists, hrow] using hexists
      rw [hnone, hnone]
    | some row =>
      obtain ⟨row₁, hrow₁, hcount₁⟩ := clickCount_joined hss hrow
      obtain ⟨row₂, hrow₂, hcount₂⟩ := clickCount_joined (h.nonNegative hss) hrow
      rw [hrow₁, hrow₂, Option.map_some, Option.map_some, hcount₁, hcount₂]
      unfold Postgres.linkSum
      rw [hlinks]

theorem SumsFit.of_sameCounters {ss ss' : List RedisSnapshot} (h : SumsFit pg ss)
    (hsame : (pg.joined ss).SameCounters (pg.joined ss')) : SumsFit pg ss' := by
  refine ⟨hsame.totalClicks ▸ h.total, fun c row hrow => ?_⟩
  have hcount := hsame.clickCount c
  rw [hrow, Option.map_some] at hcount
  obtain ⟨row', hrow', heq⟩ := Option.map_eq_some_iff.mp hcount
  exact heq ▸ h.clickCount c row' hrow'

/-- **A snapshot merge is a join.** Started with consistent totals, merging the snapshots of a
list leaves each daily row at the greatest of its old and incoming counts, the totals equal
to the sums they total, and decreases no counter on the way; any list with the same contents
leaves the same counters. -/
theorem mergeAll_join {ss : List RedisSnapshot} (hpg : pg.NonNegative)
    (htotal : pg.totalClicks = pg.globalDailyClicks.sum) (hss : ∀ s ∈ ss, s.NonNegative)
    (hfit : SumsFit pg ss) : ∃ pg', mergeAll pg ss = .ok pg' ∧
      (∀ d, pg'.globalDailyClicks.get d =
        greatestOf (pg.globalDailyClicks.get d) (ss.map fun s => s.globalDaily.get d)) ∧
      (∀ k, pg'.linkDailyClicks.get k = if pg.linkExists k.1 then
          greatestOf (pg.linkDailyClicks.get k) (ss.map fun s => s.linkDaily.get k)
        else pg.linkDailyClicks.get k) ∧
      pg'.totalClicks = pg'.globalDailyClicks.sum ∧
      (∀ c, pg'.linkExists c = pg.linkExists c) ∧
      (∀ c row, pg.links.get c = some row → ∃ row', pg'.links.get c = some row' ∧
        row'.clickCount = row.clickCount + (pg'.linkSum c - pg.linkSum c)) ∧
      (∀ ss₁ s ss₂, ss = ss₁ ++ s :: ss₂ → ∃ p q outcome, mergeAll pg ss₁ = .ok p ∧
        mergeSnapshot p s = .ok (q, outcome) ∧ p.CountersLe q) ∧
      ∀ ss', SameContents ss ss' →
        ∃ pg'', mergeAll pg ss' = .ok pg'' ∧ pg'.SameCounters pg'' := by
  -- the rows, the totals and the links are read off the closed form
  refine ⟨pg.joined ss, mergeAll_eq hpg hss hfit, get_globalDailyClicks_joined pg ss,
    get_linkDailyClicks_joined pg ss, ?_, linkExists_joined pg ss,
    fun c row hrow => clickCount_joined hss hrow, ?_, ?_⟩
  · rw [totalClicks_joined, htotal]
    omega
  · -- every prefix has room for its sums too, so the tables before and after one snapshot are
    -- joins
    rintro ss₁ s ss₂ rfl
    obtain ⟨hfirst, hrest⟩ := hfit.of_append hss
    have hss₁ : ∀ x ∈ ss₁, x.NonNegative := fun x hx => hss x (List.mem_append_left _ hx)
    have htail : ∀ x ∈ s :: ss₂, x.NonNegative := fun x hx => hss x (List.mem_append_right _ hx)
    exact ⟨_, _, _, mergeAll_eq hpg hss₁ hfirst,
      mergeSnapshot_eq (hpg.joined hss₁) (htail s List.mem_cons_self) (hrest.mergeFits htail),
      countersLe_merged _ (htail s List.mem_cons_self)⟩
  · -- another list with the same contents has the same closed form, and so the same room
    intro ss' hsame
    have hcounters := sameCounters_joined pg hsame hss
    exact ⟨_, mergeAll_eq hpg (hsame.nonNegative hss) (hfit.of_sameCounters hcounters), hcounters⟩

end Joined

/-! ## Two overlapping snapshots -/

/-- One link with one click on day zero. -/
def onePg : Postgres where
  links := Table.empty.set "a" ⟨"https://example.org", none, 1, none⟩
  linkDailyClicks := Table.empty.set ("a", 0) 1
  globalDailyClicks := Table.empty.set 0 1
  totalClicks := 1

theorem onePg_nonNegative : onePg.NonNegative where
  globalDailyClicks d := by
    rw [onePg, Table.val_set]
    split <;> simp
  linkDailyClicks k := by
    rw [onePg, Table.val_set]
    split <;> simp
  clickCount c row hrow := by
    have hall : ∀ k ∈ onePg.links.keys,
        (onePg.links.get k).all (fun r => decide (0 ≤ r.clickCount)) = true := by decide
    simpa using Table.forall_rows (p := fun _ r => decide (0 ≤ r.clickCount)) hall hrow
  totalClicks := by decide

/-- Two snapshots with overlapping days, one of them with a code that has no link. -/
def twoSnapshots : List RedisSnapshot :=
  [⟨(HashMap.empty.insert 0 3).insert 1 1, (HashMap.empty.insert ("a", 0) 3).insert ("b", 0) 5,
      HashMap.empty, [], []⟩,
    ⟨HashMap.empty.insert 0 2, HashMap.empty.insert ("a", 1) 4, HashMap.empty, [], []⟩]

theorem mergeAll_join_sample : ∃ pg', mergeAll onePg twoSnapshots = .ok pg' ∧
    pg'.totalClicks = pg'.globalDailyClicks.sum ∧
    ∃ pg'', mergeAll onePg (twoSnapshots.reverse ++ twoSnapshots) = .ok pg'' ∧
      pg'.SameCounters pg'' := by
  have hfit : SumsFit onePg twoSnapshots := by
    refine ⟨by decide, fun c row hrow => ?_⟩
    have hall : ∀ k ∈ (onePg.joined twoSnapshots).links.keys,
        ((onePg.joined twoSnapshots).links.get k).all
          (fun r => decide (r.clickCount ≤ i64Max)) = true := by decide
    simpa using Table.forall_rows (p := fun _ r => decide (r.clickCount ≤ i64Max)) hall hrow
  have hss : ∀ s ∈ twoSnapshots, s.NonNegative := by
    unfold RedisSnapshot.NonNegative
    decide
  have hsame : SameContents twoSnapshots (twoSnapshots.reverse ++ twoSnapshots) := by
    refine ⟨fun s hs => ⟨s, by simp [hs], fun _ => rfl, fun _ => rfl, fun _ => rfl⟩,
      fun s hs => ⟨s, by simpa using hs, fun _ => rfl, fun _ => rfl, fun _ => rfl⟩⟩
  obtain ⟨pg', hmerge, -, -, htotal, -, -, -, hany⟩ :=
    mergeAll_join onePg_nonNegative (by decide) hss hfit
  exact ⟨pg', hmerge, htotal, hany _ hsame⟩

end Kurl
