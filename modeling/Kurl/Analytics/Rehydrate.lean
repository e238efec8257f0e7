import Kurl.Analytics.FlushRetry

/-!
# Kurl — rehydration (`analytics/src/redis_persistence.rs`)

`rehydrate` reads the daily rows of the rolling window and raises the bucket of each with one `HMAX`
call. It returns an error when a query or the connection fails; a failing call is logged and
skipped. So a rehydration that returns `Ok` covers every row whose call ran (`bucket_of_rehydrate`),
and the whole window exactly if the buckets of the other rows were high enough before
(`covers_iff_of_rehydrate`); `rehydrate_covers` is both.

What the calls do to a bucket is `get_rehydrate`: the buckets of the rows are distinct
(`nodup_targets_rehydrateCalls`), so each is raised by one call at most, and the rest are left
alone. Buckets that have no row are never lowered or removed here.
-/

namespace Kurl

open Lib

/-- `RehydrationData`: the rows in the order in which the queries return them. -/
structure RehydrationData where
  globalDaily : HashMap NaiveDate Int
  linkDaily : HashMap (String × NaiveDate) Int
  deriving DecidableEq

namespace Postgres

/-- `get_global_daily_clicks_since`. -/
def globalDailyClicksSince (pg : Postgres) (date : NaiveDate) : Table NaiveDate Int :=
  pg.globalDailyClicks.filter fun day => date ≤ day

/-- `get_link_daily_clicks_since`. -/
def linkDailyClicksSince (pg : Postgres) (date : NaiveDate) : Table (String × NaiveDate) Int :=
  pg.linkDailyClicks.filter fun k => date ≤ k.2

end Postgres

/-- `get_daily_clicks_since` returns this data. -/
def RehydrationData.Reads (data : RehydrationData) (pg : Postgres) (since : NaiveDate) : Prop :=
  data.globalDaily.toTable = pg.globalDailyClicksSince since ∧
    data.linkDaily.toTable = pg.linkDailyClicksSince since

instance (data : RehydrationData) (pg : Postgres) (since : NaiveDate) :
    Decidable (data.Reads pg since) :=
  inferInstanceAs (Decidable (_ ∧ _))

/-- What happens to a rehydration. -/
inductive RehydrateEnd where
  | queryFailed
  | noConnection
  /-- The data, and how the call for each bucket ends. -/
  | called (data : RehydrationData) (results : Bucket → CallResult)

/-- A call and its end. -/
def RedisCall.ending (results : Bucket → CallResult) (call : RedisCall) : RedisCall × CallResult :=
  (call, call.target.elim .answered results)

/-- `Persistence::rehydrate`: Redis when it returns `Ok`. -/
def rehydrate (pg : Postgres) (now : DateTime) (r : Redis) : RehydrateEnd → Option Redis
  | .queryFailed => none
  | .noConnection => none
  | .called data results =>
    if data.Reads pg (rollingWindowStart now) then
      some (runCalls (r, []) ((rehydrateCalls data.globalDaily data.linkDaily).map
        (RedisCall.ending results))).1
    else none

section Rehydrate

variable {pg : Postgres} {data : RehydrationData} {since : NaiveDate}

/-- **The calls of a rehydration**: one for every row of the window. -/
theorem RehydrationData.Reads.mem_rehydrateCalls (h : data.Reads pg since) (b : Bucket) (n : Int) :
    .hmax b n ∈ rehydrateCalls data.globalDaily data.linkDaily ↔
      pg.row b = some n ∧ since ≤ b.day := by
  have hglobal : ∀ day, (day, n) ∈ data.globalDaily.entries ↔
      pg.globalDailyClicks.get day = some n ∧ since ≤ day := by
    intro day
    rw [← data.globalDaily.get_eq_some_iff, ← HashMap.get_toTable, h.1,
      Postgres.globalDailyClicksSince, Table.get_filter]
    by_cases hday : since ≤ day <;> simp [hday]
  have hlinks : ∀ k, (k, n) ∈ data.linkDaily.entries ↔
      pg.linkDailyClicks.get k = some n ∧ since ≤ k.2 := by
    intro k
    rw [← data.linkDaily.get_eq_some_iff, ← HashMap.get_toTable, h.2,
      Postgres.linkDailyClicksSince, Table.get_filter]
    by_cases hday : since ≤ k.2 <;> simp [hday]
  unfold rehydrateCalls
  cases b with
  | global day => simpa [Postgres.row, Bucket.day] using hglobal day
  | link code day => simpa [Postgres.row, Bucket.day] using hlinks (code, day)

/-- No two calls raise the same bucket. -/
theorem nodup_targets_rehydrateCalls (globalDaily : HashMap NaiveDate Int)
    (linkDaily : HashMap (String × NaiveDate) Int) :
    ((rehydrateCalls globalDaily linkDaily).filterMap RedisCall.target).Nodup := by
  have heq : (rehydrateCalls globalDaily linkDaily).filterMap RedisCall.target =
      globalDaily.keys.map Bucket.global ++ linkDaily.keys.map fun k => Bucket.link k.1 k.2 := by
    simp [rehydrateCalls, HashMap.keys, List.filterMap_append, List.filterMap_map,
      Function.comp_def, RedisCall.target]
  rw [heq]
  exact nodup_buckets globalDaily linkDaily

/-- **A rehydration, bucket by bucket.** A row of the window meets its bucket in `HMAX`, unless
its call is lost; every other bucket is left alone. -/
theorem get_rehydrate {now : DateTime} {r r' : Redis} {results : Bucket → CallResult}
    (h : rehydrate pg now r (.called data results) = some r') (b : Bucket) :
    r'.buckets.get b = if rollingWindowStart now ≤ b.day ∧ results b ≠ .lost then
      (pg.row b).elim (r.buckets.get b) fun n => some (hmaxValue (r.buckets.get b) n)
    else r.buckets.get b := by
  simp only [rehydrate] at h
  split at h
  · next hreads =>
    obtain rfl := Option.some.inj h
    have hfst : ((rehydrateCalls data.globalDaily data.linkDaily).map
        (RedisCall.ending results)).map Prod.fst =
        rehydrateCalls data.globalDaily data.linkDaily := by
      simp [RedisCall.ending, Function.comp_def]
    have hnodup := nodup_targets_rehydrateCalls data.globalDaily data.linkDaily
    rw [← hfst] at hnodup
    -- without a row in the window there is no call
    have hnone : (∀ n, ¬ (pg.row b = some n ∧ rollingWindowStart now ≤ b.day)) →
        b ∉ (((rehydrateCalls data.globalDaily data.linkDaily).map
          (RedisCall.ending results)).map Prod.fst).filterMap RedisCall.target := by
      intro hrow hmem
      rw [hfst] at hmem
      obtain ⟨call, hcall, htarget⟩ := List.mem_filterMap.mp hmem
      cases call with
      | compareAndDelete b' value => simp [RedisCall.target] at htarget
      | hmax b' value =>
        obtain rfl := Option.some.inj htarget
        exact hrow value ((hreads.mem_rehydrateCalls b' value).mp hcall)
    by_cases hday : rollingWindowStart now ≤ b.day
    · cases hrow : pg.row b with
      | none =>
        rw [get_runCalls_of_notMem (hnone fun n hn => by simp [hrow] at hn)]
        simp
      | some n =>
        have hcall := List.mem_map_of_mem (f := RedisCall.ending results)
          ((hreads.mem_rehydrateCalls b n).mpr ⟨hrow, hday⟩)
        rw [get_runCalls_of_mem hnodup hcall]
        show (if results b = .lost then _ else _) = _
        by_cases hlost : results b = .lost <;> simp [hlost, hday]
    · rw [get_runCalls_of_notMem (hnone fun n hn => hday hn.2), if_neg fun hboth => hday hboth.1]
  · simp at h

/-- `HMAX` with a row leaves at least its count. -/
theorem hmaxValue_ge {current : Option Int} {n : Int} (hn : 0 ≤ n ∧ n < 2 ^ 53)
    (hcurrent : ∀ v ∈ current, 0 ≤ v ∧ v < 2 ^ 53) : n ≤ hmaxValue current n := by
  cases current with
  | none => exact le_refl n
  | some v =>
    obtain ⟨hlow, hhigh⟩ := hcurrent v rfl
    rw [hmaxValue_eq_max ⟨by omega, hhigh⟩ ⟨by omega, hn.2⟩]
    exact le_max_right v n

end Rehydrate

/-- The counts of the tables are counts, and a double holds them exactly. -/
def Postgres.Countable (pg : Postgres) : Prop := ∀ b n, pg.row b = some n → 0 ≤ n ∧ n < 2 ^ 53

/-- Every row of the window has a bucket that is at least its count. -/
def Covers (r : Redis) (pg : Postgres) (since : NaiveDate) : Prop :=
  ∀ b n, pg.row b = some n → since ≤ b.day → ∃ v, r.buckets.get b = some v ∧ n ≤ v

/-- Every row of the window whose call ran has a bucket of at least its count; a bucket whose call did
not run is as it was. -/
theorem bucket_of_rehydrate {pg : Postgres} {now : DateTime} {r r' : Redis} (hr : r.WellFormed)
    (hpg : pg.Countable) {data : RehydrationData} {results : Bucket → CallResult}
    (h : rehydrate pg now r (.called data results) = some r') (b : Bucket) :
    (results b ≠ .lost → ∀ n, pg.row b = some n → rollingWindowStart now ≤ b.day →
      ∃ v, r'.buckets.get b = some v ∧ n ≤ v) ∧
      (results b = .lost → r'.buckets.get b = r.buckets.get b) := by
  refine ⟨fun hran n hrow hday => ?_, fun hlost => ?_⟩
  · refine ⟨hmaxValue (r.buckets.get b) n, ?_, hmaxValue_ge (hpg b n hrow) fun v hv => hr b v hv⟩
    rw [get_rehydrate h, if_pos ⟨hday, hran⟩, hrow]
    rfl
  · rw [get_rehydrate h, if_neg fun hboth => hboth.2 hlost]

/-- The whole window is covered exactly if the buckets of the failed calls were high enough. -/
theorem covers_iff_of_rehydrate {pg : Postgres} {now : DateTime} {r r' : Redis} (hr : r.WellFormed)
    (hpg : pg.Countable) {data : RehydrationData} {results : Bucket → CallResult}
    (h : rehydrate pg now r (.called data results) = some r') :
    Covers r' pg (rollingWindowStart now) ↔ ∀ b n, pg.row b = some n →
      rollingWindowStart now ≤ b.day → results b = .lost →
      ∃ v, r.buckets.get b = some v ∧ n ≤ v := by
  constructor
  · intro hcovers b n hrow hday hlost
    obtain ⟨v, hv, hle⟩ := hcovers b n hrow hday
    rw [get_rehydrate h, if_neg fun hboth => hboth.2 hlost] at hv
    exact ⟨v, hv, hle⟩
  · intro hlost b n hrow hday
    by_cases hb : results b = .lost
    · obtain ⟨v, hv, hle⟩ := hlost b n hrow hday hb
      refine ⟨v, ?_, hle⟩
      rw [get_rehydrate h, if_neg fun hboth => hboth.2 hb, hv]
    · exact (bucket_of_rehydrate hr hpg h b).1 hb n hrow hday

/-- **What a rehydration covers.** When it returns `Ok`, every row of the window whose call ran
has a bucket of at least its count, and a bucket whose call did not run is as it was; so the whole
window is covered exactly if the buckets of the calls that failed were high enough before. -/
theorem rehydrate_covers {pg : Postgres} {now : DateTime} {r r' : Redis} (hr : r.WellFormed)
    (hpg : pg.Countable) {data : RehydrationData} {results : Bucket → CallResult}
    (h : rehydrate pg now r (.called data results) = some r') :
    (∀ b, (results b ≠ .lost → ∀ n, pg.row b = some n → rollingWindowStart now ≤ b.day →
        ∃ v, r'.buckets.get b = some v ∧ n ≤ v) ∧
      (results b = .lost → r'.buckets.get b = r.buckets.get b)) ∧
      (Covers r' pg (rollingWindowStart now) ↔ ∀ b n, pg.row b = some n →
        rollingWindowStart now ≤ b.day → results b = .lost →
        ∃ v, r.buckets.get b = some v ∧ n ≤ v) :=
  ⟨fun b => bucket_of_rehydrate hr hpg h b, covers_iff_of_rehydrate hr hpg h⟩

/-- Two rows of the day after the epoch. -/
def twoRows : Postgres where
  links := Table.empty.set "a" ⟨"https://example.org", none, 2, none⟩
  linkDailyClicks := Table.empty.set ("a", 1) 2
  globalDailyClicks := Table.empty.set 1 5
  totalClicks := 5

def twoRowsData : RehydrationData :=
  ⟨HashMap.empty.insert 1 5, HashMap.empty.insert ("a", 1) 2⟩

/-- The call for the day fails, the one for the link does not. -/
def dayFails (b : Bucket) : CallResult := if b = .global 1 then .lost else .answered

theorem rehydrate_covers_twoRows : ∃ r',
    rehydrate twoRows DateTime.unixEpoch Redis.empty (.called twoRowsData dayFails) = some r' ∧
      ∃ v, r'.buckets.get (.link "a" 1) = some v ∧ 2 ≤ v := by
  have hsome : (rehydrate twoRows DateTime.unixEpoch Redis.empty
      (.called twoRowsData dayFails)).isSome = true := by decide
  obtain ⟨r', hr'⟩ := Option.isSome_iff_exists.mp hsome
  have hpg : twoRows.Countable := by
    intro b n hn
    cases b with
    | global day =>
      change (Table.empty.set (1 : NaiveDate) (5 : Int)).get day = some n at hn
      rw [Table.get_set] at hn
      split at hn
      · obtain rfl := Option.some.inj hn
        decide
      · simp at hn
    | link code day =>
      change (Table.empty.set ("a", (1 : NaiveDate)) (2 : Int)).get (code, day) = some n at hn
      rw [Table.get_set] at hn
      split at hn
      · obtain rfl := Option.some.inj hn
        decide
      · simp at hn
  have hempty : Redis.empty.WellFormed := fun b v hv => by simp [Redis.empty] at hv
  exact ⟨r', hr', ((rehydrate_covers hempty hpg hr').1 (.link "a" 1)).1 (by decide) 2 (by decide)
    (by decide)⟩

/-- The failed call leaves its row without a bucket, and the rehydration returns `Ok`. -/
theorem rehydrate_ok_without_bucket : ∃ r',
    rehydrate twoRows DateTime.unixEpoch Redis.empty (.called twoRowsData dayFails) = some r' ∧
      twoRows.row (.global 1) = some 5 ∧ rollingWindowStart DateTime.unixEpoch ≤ 1 ∧
      r'.buckets.get (.global 1) = none := by
  have hrun : ((rehydrate twoRows DateTime.unixEpoch Redis.empty
      (.called twoRowsData dayFails)).map fun r => r.buckets.get (.global 1)) = some none := by decide
  obtain ⟨r', hr', hnone⟩ := Option.map_eq_some_iff.mp hrun
  exact ⟨r', hr', by decide, by decide, hnone⟩

end Kurl
