import Mathlib.Data.Int.Interval
import Kurl.Analytics.LinkStats

/-!
# Kurl — the window of the link statistics (`analytics/src/grpc.rs`, `analytics/src/db/db.rs`)

A request for `k` days (after `clamp_days`) is answered with the rows of `link_daily_clicks` from
`today - k` on. Both ends count, so the window has `k + 1` calendar days. `LastDays` is the window
of `k` days that ends today; the answer is that window exactly if the link has no row on the day `k`
days ago (`dailyClicks_lastDays_iff`), and it is an ascending list of rows in any case
(`pairwise_getLinkStats`).

The answer has an entry for every row and none for a day without clicks. An ascending list of days
from a window of `k` days has at most `k` entries (`length_le_of_window`), so the row of the day
before is the only way to one more.
-/

namespace Kurl

open Lib

/-- The list has exactly the rows of the code on the `k` days that end today, the oldest first. -/
structure LastDays (pg : Postgres) (shortCode : String) (today : NaiveDate) (k : Nat)
    (daily : List DailyClicks) : Prop where
  rows : ∀ day n, (∃ e ∈ daily, e.date = day ∧ (e.clicks : Int) = n) ↔
    pg.linkDailyClicks.get (shortCode, day) = some n ∧ today - k < day ∧ day ≤ today
  ascending : daily.Pairwise fun e e' => e.date < e'.date
  length : daily.length ≤ k

section Window

variable {pg : Postgres} {shortCode : String}

/-- The first day of the window. -/
theorem dayBefore_eq (now : DateTime) (days : Int) : dayBefore now days = now.dateNaive - days := by
  show (now.nanos - days * 86400000000000) / 86400000000000 =
    (now.nanos / 86400000000000 : Int) - days
  omega

/-- The rows that are read. -/
theorem mem_getLinkStats_iff {days : Int} {now : DateTime} {day : NaiveDate} {n : Int} :
    (day, n) ∈ pg.getLinkStats shortCode days now ↔
      pg.linkDailyClicks.get (shortCode, day) = some n ∧ now.dateNaive - days ≤ day := by
  rw [← dayBefore_eq]
  unfold Postgres.getLinkStats
  simp only [List.mem_map, Finset.mem_sort, Finset.mem_image, Prod.mk.injEq]
  constructor
  · rintro ⟨day', ⟨k, hk, rfl⟩, rfl, rfl⟩
    obtain ⟨n, hn⟩ := Option.isSome_iff_exists.mp ((Table.mem_keys _ k).mp hk)
    rw [Table.get_filter] at hn
    split at hn
    · next hboth =>
      -- a row of the filtered table is a row of the code, since the window
      obtain ⟨rfl, hday⟩ := of_decide_eq_true hboth
      refine ⟨?_, hday⟩
      rw [Table.val, Table.get_filter, if_pos (decide_eq_true ⟨rfl, hday⟩)]
      simp [hn]
    · cases hn
  · rintro ⟨hrow, hday⟩
    have hfiltered : (pg.linkDailyClicks.filter fun k =>
        k.1 = shortCode ∧ dayBefore now days ≤ k.2).get (shortCode, day) = some n := by
      rw [Table.get_filter, if_pos (decide_eq_true ⟨rfl, hday⟩), hrow]
    exact ⟨day, ⟨_, Table.mem_keys_of_get hfiltered, rfl⟩, rfl, Table.val_of_get hfiltered⟩

theorem pairwise_getLinkStats (pg : Postgres) (shortCode : String) (days : Int) (now : DateTime) :
    (toDailyClicks (pg.getLinkStats shortCode days now)).Pairwise fun e e' => e.date < e'.date := by
  unfold toDailyClicks Postgres.getLinkStats
  rw [List.pairwise_map, List.pairwise_map]
  exact Finset.sortedLT_sort _ |>.pairwise

/-- The entries of an answer are the rows that were read. -/
theorem mem_toDailyClicks_iff (hpg : pg.NonNegative) {days : Int} {now : DateTime}
    {day : NaiveDate} {n : Int} :
    (∃ e ∈ toDailyClicks (pg.getLinkStats shortCode days now),
        e.date = day ∧ (e.clicks : Int) = n) ↔
      pg.linkDailyClicks.get (shortCode, day) = some n ∧ now.dateNaive - days ≤ day := by
  -- no count of a row is changed by the conversion
  have hcount : ∀ {day n}, pg.linkDailyClicks.get (shortCode, day) = some n →
      (asU64 n : Int) = n := fun {day n} hrow => by
    have hnonneg := hpg.linkDailyClicks (shortCode, day)
    rw [Table.val_of_get hrow] at hnonneg
    exact asU64_of_nonneg hnonneg
  rw [← mem_getLinkStats_iff]
  unfold toDailyClicks
  constructor
  · rintro ⟨e, he, rfl, rfl⟩
    obtain ⟨⟨day, n⟩, hmem, rfl⟩ := List.mem_map.mp he
    show (day, (asU64 n : Int)) ∈ _
    rwa [hcount (mem_getLinkStats_iff.mp hmem).1]
  · intro hmem
    exact ⟨_, List.mem_map_of_mem hmem, rfl, hcount (mem_getLinkStats_iff.mp hmem).1⟩

/-- An ascending list of days of a window is no longer than the window. -/
theorem length_le_of_window {daily : List DailyClicks} {today : NaiveDate} {k : Nat}
    (hascending : daily.Pairwise fun e e' => e.date < e'.date)
    (hdays : ∀ e ∈ daily, today - k < e.date ∧ e.date ≤ today) : daily.length ≤ k := by
  have hnodup : (daily.map DailyClicks.date).Nodup := by
    rw [List.nodup_iff_pairwise_ne, List.pairwise_map]
    exact hascending.imp fun hlt => hlt.ne
  have hsub : (daily.map DailyClicks.date).toFinset ⊆ Finset.Ioc (today - k) today := by
    intro day hday
    obtain ⟨e, he, rfl⟩ := List.mem_map.mp (List.mem_toFinset.mp hday)
    exact Finset.mem_Ioc.mpr (hdays e he)
  calc daily.length = (daily.map DailyClicks.date).toFinset.card := by
        rw [List.toFinset_card_of_nodup hnodup, List.length_map]
    _ ≤ (Finset.Ioc (today - k) today).card := Finset.card_le_card hsub
    _ = k := by
        rw [Int.card_Ioc]
        omega

/-- The window of a query over `k` days, from tables without rows of the future. -/
theorem lastDays_getLinkStats_iff (hpg : pg.NonNegative) {now : DateTime}
    (hpast : ∀ k ∈ pg.linkDailyClicks.keys, k.2 ≤ now.dateNaive) (k : Nat) :
    LastDays pg shortCode now.dateNaive k (toDailyClicks (pg.getLinkStats shortCode k now)) ↔
      pg.linkDailyClicks.get (shortCode, now.dateNaive - k) = none := by
  constructor
  · intro hwindow
    cases hrow : pg.linkDailyClicks.get (shortCode, now.dateNaive - k) with
    | none => rfl
    | some n =>
      -- the day itself is read, and it is not in the window
      have hread := (mem_toDailyClicks_iff hpg).mpr ⟨hrow, le_refl _⟩
      have hday := ((hwindow.rows _ _).mp hread).2.1
      exact absurd hday (lt_irrefl _)
  · intro hnone
    have hrows : ∀ day n, (∃ e ∈ toDailyClicks (pg.getLinkStats shortCode k now),
        e.date = day ∧ (e.clicks : Int) = n) ↔
        pg.linkDailyClicks.get (shortCode, day) = some n ∧
          now.dateNaive - k < day ∧ day ≤ now.dateNaive := by
      intro day n
      rw [mem_toDailyClicks_iff hpg]
      constructor
      · rintro ⟨hrow, hday⟩
        refine ⟨hrow, lt_of_le_of_ne hday ?_, hpast _ (Table.mem_keys_of_get hrow)⟩
        rintro rfl
        rw [hnone] at hrow
        cases hrow
      · rintro ⟨hrow, hday, -⟩
        exact ⟨hrow, le_of_lt hday⟩
    have hascending := pairwise_getLinkStats pg shortCode k now
    exact ⟨hrows, hascending,
      length_le_of_window hascending fun e he => ((hrows _ _).mp ⟨e, he, rfl, rfl⟩).2⟩

end Window

/-- **A window of `n` days has `n + 1`.** When a request reads the daily rows it is answered, from
tables without rows dated after today, and the answer is the window of the last `k` days, where
`k` is the clamped number of days, if and only if the link has no row dated `k` days ago. -/
theorem dailyClicks_lastDays_iff (request : GetLinkStatsRequest) {st : StatsState}
    {totalClicks added : Int} {lastClickedAt : Option DateTime}
    (hstage : st.stage = .getLinkStats totalClicks lastClickedAt added) (hpg : st.pg.NonNegative)
    (now : DateTime) (hpast : ∀ k ∈ st.pg.linkDailyClicks.keys, k.2 ≤ now.dateNaive) :
    ∃ response, (linkStats request).step st (.getLinkStats now) =
        some { st with stage := .done (.ok response) added } ∧
      (LastDays st.pg request.shortCode now.dateNaive (clampDays request.days)
          response.dailyClicks ↔
        st.pg.linkDailyClicks.get
          (request.shortCode, now.dateNaive - clampDays request.days) = none) := by
  refine ⟨⟨request.shortCode, asU64 totalClicks, toDailyClicks
    (st.pg.getLinkStats request.shortCode (clampDays request.days) now), lastClickedAt⟩, ?_,
    lastDays_getLinkStats_iff hpg hpast (clampDays request.days)⟩
  show st.step request (.getLinkStats now) = _
  simp only [StatsState.step, hstage]

/-- One click on a link today and one yesterday. -/
def twoDays : Postgres :=
  { Postgres.empty with
    links := Table.empty.set "a" ⟨"https://example.org", none, 2, none⟩
    linkDailyClicks := (Table.empty.set ("a", 0) 1).set ("a", -1) 1 }

theorem nonNegative_twoDays : twoDays.NonNegative where
  globalDailyClicks _ := le_refl _
  linkDailyClicks k := by
    rw [twoDays, Table.val_set, Table.val_set]
    split
    · decide
    · split
      · decide
      · exact le_refl _
  clickCount c row hrow := by
    simpa using Table.forall_rows (t := twoDays.links)
      (p := fun _ row => decide (0 ≤ row.clickCount)) (by decide) hrow
  totalClicks := le_refl _

/-- The answer to a request for one day has two. -/
theorem oneDay_has_two : ∃ response,
    ((linkStats ⟨"a", some 1⟩).run ⟨twoDays, .getLinkTotals⟩
      [.getLinkTotals, .getLinkStats DateTime.unixEpoch]).map StatsState.stage =
        some (.done (.ok response) 0) ∧
      (∃ e ∈ response.dailyClicks, e.date = -1 ∧ (e.clicks : Int) = 1) ∧
      (∃ e ∈ response.dailyClicks, e.date = 0 ∧ (e.clicks : Int) = 1) ∧
      ¬ LastDays twoDays "a" DateTime.unixEpoch.dateNaive (clampDays (some 1))
        response.dailyClicks := by
  refine ⟨⟨"a", 2, toDailyClicks (twoDays.getLinkStats "a" 1 DateTime.unixEpoch), none⟩, rfl,
    ?_, ?_, fun hwindow => ?_⟩
  · exact (mem_toDailyClicks_iff nonNegative_twoDays).mpr ⟨rfl, by decide⟩
  · exact (mem_toDailyClicks_iff nonNegative_twoDays).mpr ⟨rfl, by decide⟩
  · have hnone := (lastDays_getLinkStats_iff nonNegative_twoDays (by decide) 1).mp hwindow
    exact absurd hnone (by decide)

/-- The answer to a request for two days has two. -/
theorem dailyClicks_lastDays_iff_twoDays : ∃ response,
    (linkStats ⟨"a", some 2⟩).step ⟨twoDays, .getLinkStats 2 none 0⟩
        (.getLinkStats DateTime.unixEpoch) =
      some ⟨twoDays, .done (.ok response) 0⟩ ∧
      LastDays twoDays "a" DateTime.unixEpoch.dateNaive 2 response.dailyClicks := by
  have hstage : (StatsState.mk twoDays (.getLinkStats 2 none 0)).stage =
      .getLinkStats 2 none 0 := rfl
  obtain ⟨response, hstep, hiff⟩ := dailyClicks_lastDays_iff ⟨"a", some 2⟩ hstage
    nonNegative_twoDays DateTime.unixEpoch (by decide)
  exact ⟨response, hstep, hiff.mpr (by decide)⟩

end Kurl
