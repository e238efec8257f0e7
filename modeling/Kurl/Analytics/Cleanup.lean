import Kurl.Analytics.FlushRetry

/-!
# Kurl — the cleanup of stale buckets (`analytics/src/redis_persistence.rs`)

After a merge, `reconcile_and_cleanup` raises every captured bucket to its committed count and then
calls `compare_and_delete` on the stale ones. That script reads `argv`, a global Redis does not
define, so it always fails and no bucket is ever removed: a flush cleans up exactly if there was
nothing stale to remove (`cleanedUp_iff`). The other half of the condition is `HMAX`, which compares
counts as doubles and does not raise a bucket to a count that rounds to its own.

`get_flush` is what a whole flush leaves in a bucket, call by call; `CleanedUp` is what the comment
of the source promises, and `CleanAlready` the condition on the state before the flush under which
nothing was left to do.
-/

namespace Kurl

open Lib

/-- The committed count of a bucket. -/
def MergeOutcome.committed (outcome : MergeOutcome) : Bucket → Option Int
  | .global day => outcome.committedGlobal.get day
  | .link code day => outcome.committedLinks.get (code, day)

/-- What a flush with this outcome is to leave of the captured buckets. -/
structure CleanedUp (captured : Table Bucket Int) (cutoff : NaiveDate) (outcome : MergeOutcome)
    (r : Redis) : Prop where
  /-- No stale bucket is left. -/
  stale : ∀ b n, captured.get b = some n → b.day < cutoff → r.buckets.get b = none
  /-- A removed bucket held the committed count. -/
  removed : ∀ b n, captured.get b = some n → r.buckets.get b = none → outcome.committed b = some n
  /-- Every other bucket holds its committed count. -/
  kept : ∀ b n, captured.get b = some n → cutoff ≤ b.day → r.buckets.get b = outcome.committed b

/-- Nothing stale was captured, and `HMAX` tells every captured count from a larger one in the
tables. -/
def CleanAlready (captured : Table Bucket Int) (cutoff : NaiveDate) (pg : Postgres) : Prop :=
  ∀ b n, captured.get b = some n →
    cutoff ≤ b.day ∧ (pg.count b ≤ n ∨ toDouble n < toDouble (pg.count b))

section Cleanup

variable {r : Redis} {pg pg' : Postgres} {s : RedisSnapshot} {outcome outcome' : MergeOutcome}

/-- No two `HMAX` calls of a reconciliation raise the same bucket. -/
theorem nodup_targets_reconcileCalls (s : RedisSnapshot) (outcome : MergeOutcome) :
    ((reconcileCalls s outcome).filterMap RedisCall.target).Nodup := by
  have heq : (reconcileCalls s outcome).filterMap RedisCall.target =
      outcome.committedGlobal.keys.map Bucket.global ++
        outcome.committedLinks.keys.map fun k => Bucket.link k.1 k.2 := by
    simp [reconcileCalls, HashMap.keys, List.filterMap_append, List.filterMap_map,
      Function.comp_def, RedisCall.target]
  rw [heq]
  exact nodup_buckets outcome.committedGlobal outcome.committedLinks

/-- A call for a committed count is a call of the reconciliation. -/
theorem mem_reconcileCalls_committed {b : Bucket} {value : Int} :
    .hmax b value ∈ reconcileCalls s outcome ↔ outcome.committed b = some value := by
  unfold reconcileCalls
  cases b with
  | global day => simp [MergeOutcome.committed, outcome.committedGlobal.get_eq_some_iff]
  | link code day => simp [MergeOutcome.committed, outcome.committedLinks.get_eq_some_iff]

/-- **A whole flush, bucket by bucket.** Every captured bucket meets in `HMAX` the larger of its
count and the one in the tables, which is its committed count. -/
theorem get_flush (hpg : pg.NonNegative) {scanned : List String} {cutoff : NaiveDate}
    {results : List CallResult} (hclean : ∀ result ∈ results, result = .answered)
    {st : Redis × Postgres} (h : flush (r, pg)
      (.captured scanned cutoff s (.reconciled outcome' results)) = some st) {b : Bucket} {n : Int}
    (hn : (parseDailyCounts r.buckets).get b = some n) :
    outcome'.committed b = some (max (pg.count b) n) ∧
      st.1.buckets.get b = some (hmaxValue (some n) (max (pg.count b) n)) := by
  rcases flush_cases h with ⟨hfail, -⟩ |
    ⟨scanned', cutoff', s', rest, pg₁, outcome, heq, hscan, hs, hmerge, hrest⟩
  · exact absurd hclean hfail
  obtain ⟨rfl, rfl, rfl, rfl⟩ := FlushAttempt.captured.inj heq
  rcases hrest with ⟨hfail, -⟩ | ⟨outcome₁, results₁, heq, horder, hlength, rfl⟩
  · exact absurd hclean hfail
  obtain ⟨rfl, rfl⟩ := FlushEnd.reconciled.inj heq
  obtain ⟨-, hglobal, hlinks⟩ := mergeSnapshot_ok hpg (nonNegative_of_capture hscan hs) hmerge
  -- the one call on this bucket
  have hcall : .hmax b (max (pg.count b) n) ∈ reconcileCalls s outcome' :=
    (mem_reconcileCalls hglobal hlinks horder b _).mpr
      ⟨n, (get_counts_of_scan hscan hs b).trans hn, rfl⟩
  have hfst : ((reconcileCalls s outcome').zip results).map Prod.fst =
      reconcileCalls s outcome' := List.map_fst_zip (by omega)
  have hnodup := nodup_targets_reconcileCalls s outcome'
  rw [← hfst] at hnodup hcall
  obtain ⟨⟨call, result⟩, hmem, rfl⟩ := List.mem_map.mp hcall
  obtain rfl := hclean result (List.of_mem_zip hmem).2
  have hget : r.buckets.get b = some n := by
    rw [get_parseDailyCounts] at hn
    split at hn
    · exact hn
    · simp at hn
  refine ⟨mem_reconcileCalls_committed.mp (hfst ▸ hcall), ?_⟩
  show (runCalls (r, []) _).1.buckets.get b = _
  rw [get_runCalls_of_mem hnodup hmem, if_neg (by simp), hget]

/-- When `HMAX` with the larger of two counts leaves it. -/
theorem hmaxValue_max_iff (n count : Int) :
    hmaxValue (some n) (max count n) = max count n ↔ count ≤ n ∨ toDouble n < toDouble count := by
  show (if toDouble n < toDouble (max count n) then max count n else n) = max count n ↔ _
  rcases le_total count n with hle | hle
  · rw [max_eq_right hle, if_neg (lt_irrefl _)]
    exact ⟨fun _ => Or.inl hle, fun _ => rfl⟩
  · rw [max_eq_left hle]
    by_cases hlt : toDouble n < toDouble count
    · simp [hlt]
    · rw [if_neg hlt]
      refine ⟨fun heq => Or.inl (by omega), fun hor => ?_⟩
      have hge := hor.resolve_right hlt
      omega

end Cleanup

/-- **A flush cleans up exactly if it is clean already.** -/
theorem cleanedUp_iff {r : Redis} {pg : Postgres} (hpg : pg.NonNegative) {scanned : List String}
    {cutoff : NaiveDate} {s : RedisSnapshot} {outcome : MergeOutcome} {results : List CallResult}
    (hclean : ∀ result ∈ results, result = .answered) {st : Redis × Postgres}
    (h : flush (r, pg) (.captured scanned cutoff s (.reconciled outcome results)) = some st) :
    CleanedUp (parseDailyCounts r.buckets) cutoff outcome st.1 ↔
      CleanAlready (parseDailyCounts r.buckets) cutoff pg := by
  constructor
  · intro hdone b n hn
    obtain ⟨hcommitted, hget⟩ := get_flush hpg hclean h hn
    -- whatever was captured is still there, so it is not stale
    have hday : cutoff ≤ b.day := by
      by_contra hstale
      rw [hdone.stale b n hn (not_le.mp hstale)] at hget
      simp at hget
    refine ⟨hday, (hmaxValue_max_iff n (pg.count b)).mp ?_⟩
    have hkept := hdone.kept b n hn hday
    rw [hget, hcommitted] at hkept
    exact Option.some.inj hkept
  · intro hready
    refine ⟨fun b n hn hstale => ?_, fun b n hn hnone => ?_, fun b n hn _ => ?_⟩
    · exact absurd (hready b n hn).1 (not_le.mpr hstale)
    · rw [(get_flush hpg hclean h hn).2] at hnone
      simp at hnone
    · obtain ⟨hcommitted, hget⟩ := get_flush hpg hclean h hn
      rw [hcommitted, hget, (hmaxValue_max_iff n (pg.count b)).mpr (hready b n hn).2]

/-- A snapshot of `aheadRedis` in which nothing is stale. -/
def freshSnapshot : RedisSnapshot := { aheadSnapshot 3 with staleGlobal := [], staleLinks := [] }

theorem cleanedUp_iff_fresh : ∃ st, flush (aheadRedis, aheadPg)
      (.captured ["a"] 0 freshSnapshot (.reconciled aheadOutcome [.answered, .answered])) = some st ∧
    CleanedUp (parseDailyCounts aheadRedis.buckets) 0 aheadOutcome st.1 := by
  have hsome : (flush (aheadRedis, aheadPg) (.captured ["a"] 0 freshSnapshot
      (.reconciled aheadOutcome [.answered, .answered]))).isSome = true := by decide
  obtain ⟨st, hst⟩ := Option.isSome_iff_exists.mp hsome
  have hall : ∀ b ∈ (parseDailyCounts aheadRedis.buckets).keys,
      ((parseDailyCounts aheadRedis.buckets).get b).all (fun n => decide (0 ≤ b.day ∧
        (aheadPg.count b ≤ n ∨ toDouble n < toDouble (aheadPg.count b)))) = true := by decide
  exact ⟨st, hst, (cleanedUp_iff nonNegative_aheadPg (by decide) hst).mpr fun b n hn => by
    simpa using Table.forall_rows (p := fun b n => decide (0 ≤ b.day ∧
      (aheadPg.count b ≤ n ∨ toDouble n < toDouble (aheadPg.count b)))) hall hn⟩

/-- Two stale buckets, captured and merged, are left where they were. -/
theorem stale_bucket_left : ∃ st, flush (aheadRedis, aheadPg)
      (aheadFlush 3 (.reconciled aheadOutcome (List.replicate 4 .answered))) = some st ∧
    (aheadSnapshot 3).staleGlobal = [0] ∧ st.1.buckets.get (.global 0) = some 4 ∧
    (aheadSnapshot 3).staleLinks = [("a", 0)] ∧ st.1.buckets.get (.link "a" 0) = some 2 := by
  have hrun : ((flush (aheadRedis, aheadPg) (aheadFlush 3 (.reconciled aheadOutcome
      (List.replicate 4 .answered)))).map fun st =>
        (st.1.buckets.get (.global 0), st.1.buckets.get (.link "a" 0))) = some (some 4, some 2) := by
    decide
  obtain ⟨st, hst, hvalues⟩ := Option.map_eq_some_iff.mp hrun
  obtain ⟨hglobal, hlink⟩ := Prod.mk.inj hvalues
  exact ⟨st, hst, rfl, hglobal, rfl, hlink⟩

end Kurl
