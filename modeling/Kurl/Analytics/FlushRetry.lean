import Kurl.Analytics.MergeWrapping
import Kurl.Analytics.Persistence
import Kurl.Lib.Machine

/-!
# Kurl — a flush is crash-safe and retryable

`flush` as one step over Redis and Postgres, with every way it can end: a capture that fails, a
transaction that is rolled back, a commit whose answer is lost, a reconciliation any of whose calls
is lost or unanswered.

The argument is that a merge leaves tables that absorb its snapshot (`Absorbs`): merging it again,
or any snapshot raised to the tables, changes nothing. Everything an interrupted flush leaves in
Redis is such a snapshot (`PartlyRaised`), so the state after any number of attempts is either the initial
one or one that the next flush completes (`Interrupted`).

* **`merge_eq`** — from an interrupted state a flush commits the tables of the first whole flush:
  either they are there already and absorb the new snapshot, or the new snapshot is the first one in
  another order.
* **`reconcile_eq`** — its calls raise buckets to those tables, and all of them if none fails.
* **`flush_cases`** — what else a flush can do: nothing at all, or the merge without its calls.

The steps of one flush interleave with nothing here. Clicks and links that come meanwhile are the
subject of the modules on the running writer, where a flush is many steps.
-/

namespace Kurl

open Lib

/-! ## One flush -/

/-- What happens after the capture. -/
inductive FlushEnd where
  /-- A statement fails: the transaction is rolled back. -/
  | rolledBack
  /-- The answer to the commit is lost, and the commit was applied or not. -/
  | commitUnknown (applied : Bool)
  /-- No Redis connection for the reconciliation. -/
  | noConnection
  /-- The outcome as its maps iterate, and the calls of the reconciliation as they end. -/
  | reconciled (outcome : MergeOutcome) (results : List CallResult)

/-- One call of `flush`, with everything that happens to it: the answers of `SCAN`, the clock, the
snapshot that came out, and how it goes on. -/
inductive FlushAttempt where
  | captureFailed
  | captured (scanned : List String) (cutoff : NaiveDate) (s : RedisSnapshot) (rest : FlushEnd)

/-- The calls, one after the other. -/
def runCalls : Redis × List Bucket → List (RedisCall × CallResult) → Redis × List Bucket
  | st, [] => st
  | st, e :: calls => runCalls (e.1.exec st.1 st.2 e.2) calls

/-- `Persistence::flush`. Its early return is the one of `mergeSnapshot`: an empty snapshot is
merged without effect and leaves no calls. -/
def flush (st : Redis × Postgres) : FlushAttempt → Option (Redis × Postgres)
  | .captureFailed => some st
  | .captured scanned cutoff s rest =>
    if st.1.Scanned scanned ∧ s.Assembles (captureCounts st.1 scanned) st.1 cutoff then
      match mergeSnapshot st.2 s, rest with
      | _, .rolledBack => some st
      | .ok (pg, _), .commitUnknown applied => some (st.1, if applied then pg else st.2)
      | .ok (pg, _), .noConnection => some (st.1, pg)
      | .ok (pg, outcome), .reconciled outcome' results =>
        if outcome.Reordered outcome' ∧ results.length = (reconcileCalls s outcome').length then
          some ((runCalls (st.1, []) ((reconcileCalls s outcome').zip results)).1, pg)
        else none
      | .error _, _ => none
    else none

def flushes : Machine (Redis × Postgres) FlushAttempt where
  step := flush

/-- No call fails, except those the text of a script makes fail. -/
def FlushAttempt.Clean : FlushAttempt → Prop
  | .captured _ _ _ (.reconciled _ results) => ∀ result ∈ results, result = .answered
  | _ => False

instance : DecidablePred FlushAttempt.Clean
  | .captureFailed => inferInstanceAs (Decidable False)
  | .captured _ _ _ .rolledBack => inferInstanceAs (Decidable False)
  | .captured _ _ _ (.commitUnknown _) => inferInstanceAs (Decidable False)
  | .captured _ _ _ .noConnection => inferInstanceAs (Decidable False)
  | .captured _ _ _ (.reconciled _ results) =>
    inferInstanceAs (Decidable (∀ result ∈ results, result = .answered))

/-! ## Tables that absorb a snapshot -/

/-- Nothing in the snapshot exceeds what the tables hold. -/
structure Postgres.Absorbs (pg : Postgres) (s : RedisSnapshot) : Prop where
  globalDaily : ∀ d, NullLe (s.globalDaily.get d) (pg.globalDailyClicks.get d)
  linkDaily : ∀ k, pg.linkExists k.1 = true →
    NullLe (s.linkDaily.get k) (pg.linkDailyClicks.get k)
  lastClickedAt : ∀ c row, s.linkDaily.isEmpty = false → pg.links.get c = some row →
    NullLe (s.lastClickedAt.get c) row.lastClickedAt

section Absorbs

variable {pg : Postgres} {s s' : RedisSnapshot}

theorem mergeMax_of_nullLe {κ : Type} [DecidableEq κ] {t : Table κ Int} {m : HashMap κ Int}
    (h : ∀ k, NullLe (m.get k) (t.get k)) : t.mergeMax m = t := by
  ext1 k
  rw [Table.get_mergeMax, greatest_comm, greatest_eq_left (h k)]

theorem bumpRow_absorbed {row : LinkRow} {delta : Option Int} {clickedAt : Option DateTime}
    (hdelta : ∀ n ∈ delta, n = 0) (hclicked : NullLe clickedAt row.lastClickedAt) :
    bumpRow row (incomingDelta delta clickedAt) = row := by
  cases clickedAt with
  | none =>
    cases delta with
    | none => rfl
    | some n =>
      obtain rfl := hdelta n rfl
      rfl
  | some ts =>
    have hgreatest := greatest_eq_left hclicked
    cases delta with
    | none =>
      show ({ row with
        clickCount := row.clickCount + 0
        lastClickedAt := greatest row.lastClickedAt (some ts) } : LinkRow) = row
      rw [hgreatest, add_zero]
    | some n =>
      obtain rfl := hdelta n rfl
      show ({ row with
        clickCount := row.clickCount + max 0 0
        lastClickedAt := greatest row.lastClickedAt (some ts) } : LinkRow) = row
      rw [hgreatest, max_self, add_zero]

/-- **Merging what is absorbed changes nothing.** -/
theorem Postgres.Absorbs.mergedWrapping_eq (h : pg.Absorbs s) : pg.mergedWrapping s = pg := by
  have hglobal := mergeMax_of_nullLe h.globalDaily
  have hlinks : pg.linkDailyClicks.mergeMax (liveLinkDaily pg s) = pg.linkDailyClicks := by
    refine mergeMax_of_nullLe fun k => ?_
    rw [liveLinkDaily, HashMap.get_filterKeys]
    split
    · next hk => exact h.linkDaily k hk
    · simp [NullLe]
  unfold Postgres.mergedWrapping globalGrowth linkGrowth
  simp only [hglobal, hlinks, sub_self, wrapI64_zero, max_self, add_zero]
  by_cases hempty : s.linkDaily.isEmpty = true
  · rw [if_pos hempty]
  · rw [if_neg hempty, Table.mapRows_eq_self fun c row hrow => ?_]
    refine bumpRow_absorbed (fun n hn => ?_)
      (h.lastClickedAt c row (by simpa using hempty) hrow)
    split at hn
    · exact (Option.some.inj hn).symm
    · simp at hn

/-- **A merge leaves tables that absorb its snapshot.** -/
theorem absorbs_mergedWrapping (pg : Postgres) (s : RedisSnapshot) :
    (pg.mergedWrapping s).Absorbs s where
  globalDaily d := by
    show NullLe _ ((pg.globalDailyClicks.mergeMax s.globalDaily).get d)
    rw [Table.get_mergeMax]
    exact nullLe_greatest_left _ _
  linkDaily k hk := by
    rw [linkExists_mergedWrapping] at hk
    show NullLe _ ((pg.linkDailyClicks.mergeMax (liveLinkDaily pg s)).get k)
    rw [Table.get_mergeMax, liveLinkDaily, HashMap.get_filterKeys, if_pos hk]
    exact nullLe_greatest_left _ _
  lastClickedAt c row hempty hrow := by
    change (if s.linkDaily.isEmpty then pg.links else _).get c = some row at hrow
    rw [hempty, if_neg (by simp), Table.get_mapRows] at hrow
    obtain ⟨old, -, rfl⟩ := Option.map_eq_some_iff.mp hrow
    cases hts : s.lastClickedAt.get c with
    | none => simp [NullLe]
    | some ts =>
      by_cases hcode : s.HasCode c
      · rw [if_pos hcode]
        exact nullLe_greatest_right _ _
      · rw [if_neg hcode]
        exact nullLe_greatest_right _ _

end Absorbs

/-! ## Buckets raised to the tables -/

/-- The row of a bucket. -/
def Postgres.row (pg : Postgres) : Bucket → Option Int
  | .global d => pg.globalDailyClicks.get d
  | .link code d => pg.linkDailyClicks.get (code, d)

/-- The count of a bucket, zero without a row. -/
def Postgres.count (pg : Postgres) (b : Bucket) : Int := (pg.row b).getD 0

/-- The counts that a double holds exactly and `parse_daily_counts` admits. -/
def Redis.WellFormed (r : Redis) : Prop := ∀ b v, r.buckets.get b = some v → 0 ≤ v ∧ v < 2 ^ 53

/-- Every bucket at the larger of its own count and the one in the tables. -/
def raiseTo (buckets : Table Bucket Int) (pg : Postgres) : Table Bucket Int :=
  buckets.mapRows fun b v => max v (pg.count b)

/-- Some of the buckets are raised. -/
def PartlyRaised (pg : Postgres) (t u : Table Bucket Int) : Prop :=
  ∀ b, u.get b = t.get b ∨ u.get b = (raiseTo t pg).get b

/-- A call that raises its bucket to the tables. -/
def RedisCall.Raises (pg : Postgres) (t : Table Bucket Int) : RedisCall → Prop
  | .hmax b value => ∃ v, t.get b = some v ∧ max v value = max v (pg.count b) ∧
    0 ≤ value ∧ value < 2 ^ 53
  | .compareAndDelete _ _ => True

section Raise

variable {pg : Postgres} {t u : Table Bucket Int} {r : Redis}

theorem get_raiseTo {b : Bucket} {v : Int} (h : t.get b = some v) :
    (raiseTo t pg).get b = some (max v (pg.count b)) := by
  rw [raiseTo, Table.get_mapRows, h, Option.map_some]

theorem PartlyRaised.cases (h : PartlyRaised pg t u) {b : Bucket} {v : Int}
    (hv : t.get b = some v) : u.get b = some v ∨ u.get b = some (max v (pg.count b)) := by
  rcases h b with hu | hu
  · exact Or.inl (hu.trans hv)
  · exact Or.inr (hu.trans (get_raiseTo hv))

/-- **One call of a reconciliation.** It keeps what is raised, and raises its bucket unless it
is lost. -/
theorem exec_raises (ht : ∀ b v, t.get b = some v → 0 ≤ v ∧ v < 2 ^ 53)
    (hpg : ∀ b, 0 ≤ pg.count b ∧ pg.count b < 2 ^ 53) {call : RedisCall}
    (hcall : call.Raises pg t) (h : PartlyRaised pg t u) (reconciled : List Bucket)
    (result : CallResult) : ∃ u', (call.exec { r with buckets := u } reconciled result).1 =
      { r with buckets := u' } ∧ PartlyRaised pg t u' ∧
      (∀ b, u.get b = (raiseTo t pg).get b → u'.get b = (raiseTo t pg).get b) ∧
      (result ≠ .lost → ∀ b value, call = .hmax b value → u'.get b = (raiseTo t pg).get b) := by
  rw [RedisCall.exec_redis]
  by_cases hlost : result = .lost
  · exact ⟨u, by rw [if_pos hlost], h, fun _ hb => hb, fun hne => absurd hlost hne⟩
  rw [if_neg hlost]
  cases call with
  | compareAndDelete b value => exact ⟨u, rfl, h, fun _ hb => hb, fun _ _ _ heq => by simp at heq⟩
  | hmax b value =>
    obtain ⟨v, hv, hmax, hlow, hhigh⟩ := hcall
    obtain ⟨hvlow, hvhigh⟩ := ht b v hv
    obtain ⟨hclow, hchigh⟩ := hpg b
    -- whether the bucket was raised already or not, the call leaves it raised
    have hnew : hmaxValue (u.get b) value = max v (pg.count b) := by
      rcases h.cases hv with hu | hu
      · rw [hu, hmaxValue_eq_max ⟨by omega, hvhigh⟩ ⟨by omega, hhigh⟩, hmax]
      · rw [hu, hmaxValue_eq_max ⟨by omega, by omega⟩ ⟨by omega, hhigh⟩]
        omega
    have hraised : (u.set b (hmaxValue (u.get b) value)).get b = (raiseTo t pg).get b := by
      rw [Table.get_set_self, hnew, get_raiseTo hv]
    refine ⟨u.set b (hmaxValue (u.get b) value), rfl, fun b' => ?_, fun b' hb' => ?_, ?_⟩
    · by_cases hb : b' = b
      · exact Or.inr (hb ▸ hraised)
      · rw [Table.get_set_of_ne _ _ hb]
        exact h b'
    · by_cases hb : b' = b
      · exact hb ▸ hraised
      · rw [Table.get_set_of_ne _ _ hb]
        exact hb'
    · rintro - b' value' heq
      obtain ⟨rfl, rfl⟩ := RedisCall.hmax.inj heq
      exact hraised

/-- **A reconciliation**, however its calls end. -/
theorem runCalls_raises (ht : ∀ b v, t.get b = some v → 0 ≤ v ∧ v < 2 ^ 53)
    (hpg : ∀ b, 0 ≤ pg.count b ∧ pg.count b < 2 ^ 53) {calls : List (RedisCall × CallResult)}
    (hcalls : ∀ e ∈ calls, e.1.Raises pg t) (h : PartlyRaised pg t u) (reconciled : List Bucket) :
    ∃ u', (runCalls ({ r with buckets := u }, reconciled) calls).1 = { r with buckets := u' } ∧
      PartlyRaised pg t u' ∧
      (∀ b, u.get b = (raiseTo t pg).get b → u'.get b = (raiseTo t pg).get b) ∧
      ∀ b value, (RedisCall.hmax b value, CallResult.answered) ∈ calls →
        u'.get b = (raiseTo t pg).get b := by
  induction calls generalizing u reconciled with
  | nil => exact ⟨u, rfl, h, fun _ hb => hb, fun _ _ hmem => by simp at hmem⟩
  | cons e calls ih =>
    obtain ⟨u₁, hexec, h₁, hkeep₁, hraise₁⟩ := exec_raises (r := r) ht hpg
      (hcalls e List.mem_cons_self) h reconciled e.2
    obtain ⟨u₂, hrun, h₂, hkeep₂, hraise₂⟩ :=
      ih (fun x hx => hcalls x (List.mem_cons_of_mem _ hx)) h₁
        (e.1.exec { r with buckets := u } reconciled e.2).2
    refine ⟨u₂, ?_, h₂, fun b hb => hkeep₂ b (hkeep₁ b hb), fun b value hmem => ?_⟩
    · rw [← hrun, ← hexec]
      rfl
    · rcases List.mem_cons.mp hmem with rfl | hmem
      · exact hkeep₂ b (hraise₁ (by simp) b value rfl)
      · exact hraise₂ b value hmem

end Raise

/-! ## The buckets after the calls -/

/-- The bucket an `HMAX` call raises. -/
def RedisCall.target : RedisCall → Option Bucket
  | .hmax b _ => some b
  | .compareAndDelete _ _ => none

section Targets

variable {calls : List (RedisCall × CallResult)} {b : Bucket}

/-- What one call leaves in a bucket. -/
theorem get_exec_hmax (r : Redis) (reconciled : List Bucket) (b' : Bucket) (value : Int)
    (result : CallResult) (b : Bucket) :
    (RedisCall.exec r reconciled (.hmax b' value) result).1.buckets.get b =
      if b = b' ∧ result ≠ .lost then some (hmaxValue (r.buckets.get b) value)
      else r.buckets.get b := by
  rw [RedisCall.exec_redis]
  by_cases hlost : result = .lost
  · simp [hlost]
  · rw [if_neg hlost]
    show (r.buckets.set b' (hmaxValue (r.buckets.get b') value)).get b = _
    rw [Table.get_set]
    by_cases hb : b = b'
    · simp [hb, hlost]
    · simp [hb]

theorem get_exec_of_target_ne {r : Redis} {reconciled : List Bucket} {call : RedisCall}
    (h : call.target ≠ some b) (result : CallResult) :
    (call.exec r reconciled result).1.buckets.get b = r.buckets.get b := by
  cases call with
  | hmax b' value =>
    have hne : b ≠ b' := fun heq => h (by rw [heq]; rfl)
    rw [get_exec_hmax, if_neg fun hboth => hne hboth.1]
  | compareAndDelete b' value =>
    rw [RedisCall.exec_redis]
    split <;> rfl

/-- A bucket that no call raises is left alone. -/
theorem get_runCalls_of_notMem (h : b ∉ (calls.map Prod.fst).filterMap RedisCall.target) (r : Redis)
    (reconciled : List Bucket) :
    (runCalls (r, reconciled) calls).1.buckets.get b = r.buckets.get b := by
  induction calls generalizing r reconciled with
  | nil => rfl
  | cons e calls ih =>
    have hne : e.1.target ≠ some b := fun htarget => h (by simp [htarget])
    have hrest : b ∉ (calls.map Prod.fst).filterMap RedisCall.target := fun hmem => h (by
      rw [List.map_cons, List.filterMap_cons]
      split
      · exact hmem
      · exact List.mem_cons_of_mem _ hmem)
    show (runCalls (e.1.exec r reconciled e.2) calls).1.buckets.get b = _
    rw [ih hrest, get_exec_of_target_ne hne]

/-- **A bucket that one call raises** holds what that call leaves, or is as it was if the call
was lost. -/
theorem get_runCalls_of_mem (hnodup : ((calls.map Prod.fst).filterMap RedisCall.target).Nodup)
    {value : Int} {result : CallResult} (h : (.hmax b value, result) ∈ calls) (r : Redis)
    (reconciled : List Bucket) :
    (runCalls (r, reconciled) calls).1.buckets.get b =
      if result = .lost then r.buckets.get b else some (hmaxValue (r.buckets.get b) value) := by
  induction calls generalizing r reconciled with
  | nil => simp at h
  | cons e calls ih =>
    rw [List.map_cons, List.filterMap_cons] at hnodup
    show (runCalls (e.1.exec r reconciled e.2) calls).1.buckets.get b = _
    rcases List.mem_cons.mp h with rfl | h
    · -- no later call raises this bucket
      rw [get_runCalls_of_notMem (List.nodup_cons.mp hnodup).1, get_exec_hmax]
      by_cases hlost : result = .lost <;> simp [hlost]
    · have hmem : b ∈ (calls.map Prod.fst).filterMap RedisCall.target :=
        List.mem_filterMap.mpr ⟨_, List.mem_map_of_mem h, rfl⟩
      have hne : e.1.target ≠ some b := fun htarget => by
        rw [htarget] at hnodup
        exact (List.nodup_cons.mp hnodup).1 hmem
      have htail : ((calls.map Prod.fst).filterMap RedisCall.target).Nodup := by
        split at hnodup
        · exact hnodup
        · exact (List.nodup_cons.mp hnodup).2
      rw [ih htail h, get_exec_of_target_ne hne]

end Targets

/-! ## The state between attempts -/

section Flush

variable {pg pg' : Postgres} {s : RedisSnapshot} {outcome outcome' : MergeOutcome}

/-- **The `HMAX` calls of a reconciliation**: one for every captured bucket, with the larger of
its count and the one the merge read. -/
theorem mem_reconcileCalls
    (hglobal : outcome.committedGlobal =
      committedMap s.globalDaily (pg.selectGlobal s.globalDaily.keys))
    (hlinks : outcome.committedLinks =
      committedMap s.linkDaily (pg.selectLinks s.linkDaily.keys))
    (horder : outcome.Reordered outcome') (b : Bucket) (value : Int) :
    RedisCall.hmax b value ∈ reconcileCalls s outcome' ↔
      ∃ n, s.counts.get b = some n ∧ value = max (pg.count b) n := by
  -- the order of the outcome is another one, but its contents are those of the merge
  have hmemGlobal : ∀ d, (d, value) ∈ outcome'.committedGlobal.entries ↔
      ∃ n, s.globalDaily.get d = some n ∧ value = max (pg.count (.global d)) n := by
    intro d
    rw [horder.1.mem_iff, hglobal]
    show (d, value) ∈ committedRows _ _ ↔ _
    rw [mem_committedRows]
    refine exists_congr fun n => and_congr_right fun hn => ?_
    have hkey : d ∈ s.globalDaily.keys := s.globalDaily.isSome_get_iff.mp (by simp [hn])
    rw [selectGlobal_val hkey]
    rfl
  have hmemLinks : ∀ k, (k, value) ∈ outcome'.committedLinks.entries ↔
      ∃ n, s.linkDaily.get k = some n ∧ value = max (pg.count (.link k.1 k.2)) n := by
    intro k
    rw [horder.2.mem_iff, hlinks]
    show (k, value) ∈ committedRows _ _ ↔ _
    rw [mem_committedRows]
    refine exists_congr fun n => and_congr_right fun hn => ?_
    have hkey : k ∈ s.linkDaily.keys := s.linkDaily.isSome_get_iff.mp (by simp [hn])
    rw [selectLinks_val hkey]
    rfl
  unfold reconcileCalls
  cases b with
  | global d => simpa [s.get_counts_global] using hmemGlobal d
  | link code d => simpa [s.get_counts_link] using hmemLinks (code, d)

/-- The counts of the tables after a merge, for a captured bucket. -/
theorem count_mergedWrapping (pg : Postgres) (hs : s.NonNegative) {b : Bucket} {n : Int}
    (hn : s.counts.get b = some n) : (pg.mergedWrapping s).count b = max (pg.count b) n ∨
      (pg.mergedWrapping s).count b = pg.count b := by
  have hgreatest : ∀ old : Option Int, (greatest (some n) old).getD 0 = max (old.getD 0) n ∨
      n < 0 := by
    intro old
    cases old with
    | none => by_cases h : n < 0 <;> simp [h]; omega
    | some v => exact Or.inl (by simp [greatest, max_comm])
  have hnonneg : 0 ≤ n := by
    cases b with
    | global d =>
      rw [s.get_counts_global] at hn
      exact hs.1 _ (s.globalDaily.get_eq_some_iff.mp hn)
    | link code d =>
      rw [s.get_counts_link] at hn
      exact hs.2 _ (s.linkDaily.get_eq_some_iff.mp hn)
  cases b with
  | global d =>
    rw [s.get_counts_global] at hn
    refine Or.inl ?_
    show ((pg.globalDailyClicks.mergeMax s.globalDaily).get d).getD 0 = _
    rw [Table.get_mergeMax, hn]
    exact (hgreatest _).resolve_right (by omega)
  | link code d =>
    rw [s.get_counts_link] at hn
    show ((pg.linkDailyClicks.mergeMax (liveLinkDaily pg s)).get (code, d)).getD 0 = _ ∨
      ((pg.linkDailyClicks.mergeMax (liveLinkDaily pg s)).get (code, d)).getD 0 = _
    rw [Table.get_mergeMax, liveLinkDaily, HashMap.get_filterKeys]
    split
    · rw [hn]
      exact Or.inl ((hgreatest _).resolve_right (by omega))
    · exact Or.inr rfl

/-- A bucket without a captured count keeps its row. -/
theorem count_mergedWrapping_of_none {b : Bucket} (hn : s.counts.get b = none) :
    (pg.mergedWrapping s).count b = pg.count b := by
  cases b with
  | global d =>
    rw [s.get_counts_global] at hn
    show ((pg.globalDailyClicks.mergeMax s.globalDaily).get d).getD 0 = _
    rw [Table.get_mergeMax, hn]
    rfl
  | link code d =>
    rw [s.get_counts_link] at hn
    show ((pg.linkDailyClicks.mergeMax (liveLinkDaily pg s)).get (code, d)).getD 0 = _
    rw [Table.get_mergeMax, liveLinkDaily, HashMap.get_filterKeys, hn, ite_self]
    rfl

theorem Postgres.NonNegative.count (hpg : pg.NonNegative) (b : Bucket) : 0 ≤ pg.count b := by
  cases b with
  | global d => exact hpg.globalDailyClicks d
  | link code d => exact hpg.linkDailyClicks (code, d)

end Flush

section Capture

variable {r : Redis} {scanned : List String} {cutoff : NaiveDate} {s : RedisSnapshot}

/-- A capture of well-formed buckets holds them all. -/
theorem get_counts_of_capture (hr : r.WellFormed) (hscan : r.Scanned scanned)
    (hs : s.Assembles (captureCounts r scanned) r cutoff) (b : Bucket) :
    s.counts.get b = r.buckets.get b := by
  rw [hs.get_counts, captureCounts_eq hscan, get_parseDailyCounts]
  cases hb : r.buckets.get b with
  | none => simp
  | some v =>
    obtain ⟨hlow, hhigh⟩ := hr b v hb
    rw [Table.val_of_get hb, if_pos ⟨hlow, by unfold i64Max; omega⟩]

/-- The counts of a snapshot bucket by bucket. -/
theorem RedisSnapshot.nonNegative_of_counts (h : ∀ b n, s.counts.get b = some n → 0 ≤ n) :
    s.NonNegative := by
  refine ⟨fun e he => h (.global e.1) e.2 ?_, fun e he => h (.link e.1.1 e.1.2) e.2 ?_⟩
  · rw [s.get_counts_global]
    exact s.globalDaily.get_eq_some_iff.mpr he
  · rw [s.get_counts_link]
    exact s.linkDaily.get_eq_some_iff.mpr he

/-- What a capture holds of a bucket: its count, if that is well-formed. -/
theorem get_counts_of_scan (hscan : r.Scanned scanned)
    (hs : s.Assembles (captureCounts r scanned) r cutoff) (b : Bucket) :
    s.counts.get b = (parseDailyCounts r.buckets).get b := by
  rw [hs.get_counts, captureCounts_eq hscan]

theorem nonNegative_of_capture (hscan : r.Scanned scanned)
    (hs : s.Assembles (captureCounts r scanned) r cutoff) : s.NonNegative := by
  refine RedisSnapshot.nonNegative_of_counts fun b n hn => ?_
  rw [get_counts_of_scan hscan hs, get_parseDailyCounts] at hn
  split at hn
  · next hparse => exact Table.val_of_get hn ▸ hparse.1
  · simp at hn

end Capture

/-- What an interrupted flush leaves: the initial state, or the tables of the whole flush with
some of the buckets raised to them. -/
def Interrupted (r₀ : Redis) (pg₀ pg₁ : Postgres) (st : Redis × Postgres) : Prop :=
  ∃ u, st.1 = { r₀ with buckets := u } ∧ PartlyRaised pg₁ r₀.buckets u ∧
    (st.2 = pg₁ ∨ st.2 = pg₀ ∧ u = r₀.buckets)

/-- The state a whole flush leaves. -/
def flushed (r₀ : Redis) (pg₁ : Postgres) : Redis × Postgres :=
  ({ r₀ with buckets := raiseTo r₀.buckets pg₁ }, pg₁)

/-- **Everything a flush can do.** -/
theorem flush_cases {st st' : Redis × Postgres} {a : FlushAttempt} (h : flush st a = some st') :
    ¬ a.Clean ∧ st' = st ∨ ∃ scanned cutoff s rest pg outcome, a = .captured scanned cutoff s rest ∧
      st.1.Scanned scanned ∧ s.Assembles (captureCounts st.1 scanned) st.1 cutoff ∧
      mergeSnapshot st.2 s = .ok (pg, outcome) ∧
      (¬ a.Clean ∧ st' = (st.1, pg) ∨ ∃ outcome' results, rest = .reconciled outcome' results ∧
        outcome.Reordered outcome' ∧ results.length = (reconcileCalls s outcome').length ∧
        st' = ((runCalls (st.1, []) ((reconcileCalls s outcome').zip results)).1, pg)) := by
  cases a with
  | captureFailed => exact Or.inl ⟨id, (Option.some.inj h).symm⟩
  | captured scanned cutoff s rest =>
    simp only [flush] at h
    split at h
    · next hcapture =>
      cases hmerge : mergeSnapshot st.2 s with
      | error e =>
        -- a merge that Postgres refuses is rolled back
        cases rest with
        | rolledBack => exact Or.inl ⟨id, (Option.some.inj h).symm⟩
        | _ => simp [hmerge] at h
      | ok res =>
        obtain ⟨pg, outcome⟩ := res
        cases rest with
        | rolledBack => exact Or.inl ⟨id, (Option.some.inj h).symm⟩
        | commitUnknown applied =>
          simp only [hmerge, Option.some.injEq] at h
          cases applied with
          | false => exact Or.inl ⟨id, h.symm⟩
          | true =>
            -- the commit took place, and no call follows it
            exact Or.inr ⟨scanned, cutoff, s, _, pg, outcome, rfl, hcapture.1, hcapture.2, hmerge,
              Or.inl ⟨id, h.symm⟩⟩
        | noConnection =>
          simp only [hmerge, Option.some.injEq] at h
          exact Or.inr ⟨scanned, cutoff, s, _, pg, outcome, rfl, hcapture.1, hcapture.2, hmerge,
            Or.inl ⟨id, h.symm⟩⟩
        | reconciled outcome' results =>
          simp only [hmerge] at h
          split at h
          · next horder =>
            exact Or.inr ⟨scanned, cutoff, s, _, pg, outcome, rfl, hcapture.1, hcapture.2, hmerge,
              Or.inr ⟨outcome', results, rfl, horder.1, horder.2, (Option.some.inj h).symm⟩⟩
          · simp at h
    · simp at h

section Retry

variable {r₀ : Redis} {pg₀ : Postgres} {s₀ : RedisSnapshot}

/-- The initial state of a flush: well-formed buckets, counts below `2 ^ 53`, and the snapshot
that a capture of it assembles. -/
structure Flushable (r₀ : Redis) (pg₀ : Postgres) (s₀ : RedisSnapshot) : Prop where
  redis : r₀.WellFormed
  postgres : pg₀.NonNegative
  counts : ∀ b, pg₀.count b < 2 ^ 53
  capture : ∃ scanned cutoff, r₀.Scanned scanned ∧
    s₀.Assembles (captureCounts r₀ scanned) r₀ cutoff

namespace Flushable

theorem snapshot (h : Flushable r₀ pg₀ s₀) : s₀.NonNegative := by
  obtain ⟨scanned, cutoff, hscan, hs⟩ := h.capture
  exact nonNegative_of_capture hscan hs

theorem get_counts (h : Flushable r₀ pg₀ s₀) (b : Bucket) :
    s₀.counts.get b = r₀.buckets.get b := by
  obtain ⟨scanned, cutoff, hscan, hs⟩ := h.capture
  exact get_counts_of_capture h.redis hscan hs b

/-- The merged counts still fit a double. -/
theorem merged (h : Flushable r₀ pg₀ s₀) (b : Bucket) :
    0 ≤ (pg₀.mergedWrapping s₀).count b ∧ (pg₀.mergedWrapping s₀).count b < 2 ^ 53 := by
  refine ⟨(nonNegative_mergedWrapping h.postgres h.snapshot).count b, ?_⟩
  have hold := h.counts b
  cases hn : s₀.counts.get b with
  | none =>
    rw [count_mergedWrapping_of_none hn]
    exact hold
  | some n =>
    have hnew := h.redis b n (h.get_counts b ▸ hn)
    rcases count_mergedWrapping pg₀ h.snapshot hn with heq | heq <;> omega

/-- Partly raised buckets are as well-formed as the initial ones. -/
theorem wellFormed (h : Flushable r₀ pg₀ s₀) {u : Table Bucket Int}
    (hu : PartlyRaised (pg₀.mergedWrapping s₀) r₀.buckets u) :
    Redis.WellFormed { r₀ with buckets := u } := by
  intro b v hv
  change u.get b = some v at hv
  cases hr : r₀.buckets.get b with
  | none =>
    rcases hu b with heq | heq
    · simp [heq, hr] at hv
    · simp [heq, raiseTo, Table.get_mapRows, hr] at hv
  | some v₀ =>
    have hold := h.redis b v₀ hr
    have hnew := h.merged b
    rcases hu.cases hr with heq | heq
    · obtain rfl := Option.some.inj (heq.symm.trans hv)
      exact hold
    · obtain rfl := Option.some.inj (heq.symm.trans hv)
      exact ⟨by omega, by omega⟩

/-- The buckets that are there are the same before and after some of them are raised. -/
theorem isSome_iff {pg₁ : Postgres} {t u : Table Bucket Int} (hu : PartlyRaised pg₁ t u)
    (b : Bucket) : (u.get b).isSome = (t.get b).isSome := by
  rcases hu b with heq | heq
  · rw [heq]
  · rw [heq, raiseTo, Table.get_mapRows, Option.isSome_map]

/-- What the tables absorb they absorb after some buckets are raised to them. -/
theorem nullLe_row {pg : Postgres} {t u : Table Bucket Int} (hu : PartlyRaised pg t u) {b : Bucket}
    (hb : NullLe (t.get b) (pg.row b)) : NullLe (u.get b) (pg.row b) := by
  intro v hv
  cases ht : t.get b with
  | none =>
    have hnone := isSome_iff hu b
    rw [ht, hv] at hnone
    simp at hnone
  | some v₀ =>
    obtain ⟨w, hw, hle⟩ := hb v₀ ht
    have hcount : pg.count b = w := by rw [Postgres.count, hw, Option.getD_some]
    refine ⟨w, hw, ?_⟩
    rcases hu.cases ht with heq | heq
    · rw [hv] at heq
      exact Option.some.inj heq ▸ hle
    · rw [hv, hcount] at heq
      exact Option.some.inj heq ▸ max_le hle (le_refl w)

/-- A capture of raised buckets has the buckets of the first capture, if not their values. -/
theorem isSome_linkDaily (h : Flushable r₀ pg₀ s₀) {u : Table Bucket Int} {s : RedisSnapshot}
    (hu : PartlyRaised (pg₀.mergedWrapping s₀) r₀.buckets u)
    (hcounts : ∀ b, s.counts.get b = u.get b) (k : String × NaiveDate) :
    (s.linkDaily.get k).isSome = (s₀.linkDaily.get k).isSome := by
  rw [← s.get_counts_link, ← s₀.get_counts_link, hcounts, h.get_counts, isSome_iff hu]

/-- **The merged tables absorb the capture of raised buckets**: its days, those of the links, and the
last click of each link, which the first capture has as well. -/
theorem absorbs_raised (h : Flushable r₀ pg₀ s₀) {u : Table Bucket Int}
    (hu : PartlyRaised (pg₀.mergedWrapping s₀) r₀.buckets u) {scanned : List String}
    {cutoff : NaiveDate} {s : RedisSnapshot}
    (hs : s.Assembles (captureCounts { r₀ with buckets := u } scanned) { r₀ with buckets := u }
      cutoff) (hcounts : ∀ b, s.counts.get b = u.get b) : (pg₀.mergedWrapping s₀).Absorbs s := by
  have habsorbs := absorbs_mergedWrapping pg₀ s₀
  have hsome := h.isSome_linkDaily hu hcounts
  refine ⟨fun d => ?_, fun k hk => ?_, fun c row hempty hrow => ?_⟩
  · rw [← s.get_counts_global, hcounts]
    refine nullLe_row hu ?_
    rw [← h.get_counts, s₀.get_counts_global]
    exact habsorbs.globalDaily d
  · rw [← s.get_counts_link, hcounts]
    refine nullLe_row hu ?_
    rw [← h.get_counts, s₀.get_counts_link]
    exact habsorbs.linkDaily k hk
  · have hcode : ∀ c, s.HasCode c ↔ s₀.HasCode c := fun c => by
      unfold RedisSnapshot.HasCode
      simp only [← HashMap.isSome_get_iff, hsome]
    obtain ⟨scanned₀, cutoff₀, -, hs₀⟩ := h.capture
    have heq : s.lastClickedAt.get c = s₀.lastClickedAt.get c := by
      rw [hs.get_lastClickedAt, hs₀.get_lastClickedAt]
      simp only [hcode]
    rw [heq]
    refine habsorbs.lastClickedAt c row ?_ hrow
    -- the first snapshot is empty only if this one is
    by_contra hempty₀
    have hall : ∀ k, s.linkDaily.get k = none := fun k => by
      have hnone := hsome k
      rw [HashMap.get_isEmpty (m := s₀.linkDaily) (by simpa using hempty₀)] at hnone
      simpa using hnone
    have hnil : s.linkDaily.isEmpty = true := by
      rw [HashMap.isEmpty, List.isEmpty_iff, List.eq_nil_iff_forall_not_mem]
      intro e he
      have hget := s.linkDaily.get_eq_some_iff.mpr he
      rw [hall] at hget
      simp at hget
    rw [hnil] at hempty
    simp at hempty

/-- **The merge is not repeated.** Whatever interrupted state a flush starts from, the tables it
commits are those of the first whole flush. -/
theorem merge_eq (h : Flushable r₀ pg₀ s₀) {st : Redis × Postgres}
    (hst : Interrupted r₀ pg₀ (pg₀.mergedWrapping s₀) st) {scanned : List String}
    {cutoff : NaiveDate} {s : RedisSnapshot} (hscan : st.1.Scanned scanned)
    (hs : s.Assembles (captureCounts st.1 scanned) st.1 cutoff) {pg : Postgres}
    {outcome : MergeOutcome} (hmerge : mergeSnapshot st.2 s = .ok (pg, outcome)) :
    pg = pg₀.mergedWrapping s₀ := by
  obtain ⟨r, pg'⟩ := st
  obtain ⟨u, hr, hu, hpg⟩ := hst
  dsimp only at hr hpg hscan hs hmerge
  subst hr
  have hwell := h.wellFormed hu
  have hnonneg := nonNegative_of_capture hscan hs
  rcases hpg with rfl | ⟨rfl, rfl⟩
  · -- the tables are merged already, and absorb whatever was raised to them
    have habsorbs := h.absorbs_raised hu hs (get_counts_of_capture hwell hscan hs)
    have hpos := nonNegative_mergedWrapping h.postgres h.snapshot
    rw [(mergeSnapshot_ok hpos hnonneg hmerge).1, habsorbs.mergedWrapping_eq]
  · -- nothing was merged yet: this is the first capture, in another order
    obtain ⟨scanned₀, cutoff₀, hscan₀, hs₀⟩ := h.capture
    rw [captureCounts_eq hscan] at hs
    rw [captureCounts_eq hscan₀] at hs₀
    rw [(mergeSnapshot_ok h.postgres hnonneg hmerge).1, mergedWrapping_congr (hs.same hs₀)]

/-- **The reconciliation completes what the merge left.** Its calls raise buckets, and all of
them if none fails. -/
theorem reconcile_eq (h : Flushable r₀ pg₀ s₀) {st : Redis × Postgres}
    (hst : Interrupted r₀ pg₀ (pg₀.mergedWrapping s₀) st) {scanned : List String}
    {cutoff : NaiveDate} {s : RedisSnapshot} (hscan : st.1.Scanned scanned)
    (hs : s.Assembles (captureCounts st.1 scanned) st.1 cutoff) {pg : Postgres}
    {outcome outcome' : MergeOutcome} (hmerge : mergeSnapshot st.2 s = .ok (pg, outcome))
    (horder : outcome.Reordered outcome') {results : List CallResult}
    (hlength : results.length = (reconcileCalls s outcome').length) :
    ∃ u, (runCalls (st.1, []) ((reconcileCalls s outcome').zip results)).1 =
        { r₀ with buckets := u } ∧ PartlyRaised (pg₀.mergedWrapping s₀) r₀.buckets u ∧
      ((∀ result ∈ results, result = .answered) → u = raiseTo r₀.buckets (pg₀.mergedWrapping s₀)) := by
  obtain ⟨r, pg'⟩ := st
  obtain ⟨u, hr, hu, hpg⟩ := hst
  dsimp only at hr hpg hscan hs hmerge
  subst hr
  have hwell := h.wellFormed hu
  have hnonneg := nonNegative_of_capture hscan hs
  have hcounts : ∀ b, s.counts.get b = u.get b := get_counts_of_capture hwell hscan hs
  have hpos : pg'.NonNegative := by
    rcases hpg with rfl | ⟨rfl, -⟩
    · exact nonNegative_mergedWrapping h.postgres h.snapshot
    · exact h.postgres
  obtain ⟨-, hglobal, hlinks⟩ := mergeSnapshot_ok hpos hnonneg hmerge
  have hmem := mem_reconcileCalls hglobal hlinks horder
  -- a call raises its bucket to the larger of the captured count and the row, which is what
  -- `raiseTo` holds
  have hcalls : ∀ e ∈ (reconcileCalls s outcome').zip results,
      e.1.Raises (pg₀.mergedWrapping s₀) r₀.buckets := by
    intro e he
    have hcall := (List.of_mem_zip he).1
    revert hcall
    cases e.1 with
    | compareAndDelete b value => exact fun _ => trivial
    | hmax b value =>
      intro hcall
      obtain ⟨n, hn, rfl⟩ := (hmem b value).mp hcall
      have hn' := hn
      rw [hcounts] at hn
      obtain ⟨v, hv⟩ := Option.isSome_iff_exists.mp
        ((isSome_iff hu b).symm.trans (Option.isSome_iff_exists.mpr ⟨n, hn⟩))
      have hold := h.redis b v hv
      have hnew := h.merged b
      refine ⟨v, hv, ?_⟩
      rcases hpg with rfl | ⟨rfl, rfl⟩
      · -- the captured count was raised before, or it is still the first one
        rcases hu.cases hv with heq | heq
        · obtain rfl := Option.some.inj (hn.symm.trans heq)
          exact ⟨by omega, by omega, by omega⟩
        · obtain rfl := Option.some.inj (hn.symm.trans heq)
          exact ⟨by omega, by omega, by omega⟩
      · obtain rfl := Option.some.inj (hn.symm.trans hv)
        have hcount := h.counts b
        have hcount' := h.postgres.count b
        rcases count_mergedWrapping pg' h.snapshot ((h.get_counts b).trans hv) with heq | heq
        · exact ⟨by omega, by omega, by omega⟩
        · exact ⟨by omega, by omega, by omega⟩
  obtain ⟨u', hrun, hu', hkeep, hraise⟩ := runCalls_raises (r := r₀) h.redis h.merged hcalls hu []
  refine ⟨u', hrun, hu', fun hclean => ?_⟩
  -- bucket by bucket: one that was captured has its call
  ext1 b
  cases hv : r₀.buckets.get b with
  | none =>
    have hnone := isSome_iff hu' b
    rw [hv] at hnone
    rw [raiseTo, Table.get_mapRows, hv]
    simpa using hnone
  | some v =>
    obtain ⟨n, hn⟩ := Option.isSome_iff_exists.mp
      ((isSome_iff hu b).trans (Option.isSome_iff_exists.mpr ⟨v, hv⟩))
    have hcall := (hmem b _).mpr ⟨n, (hcounts b).trans hn, rfl⟩
    -- every call has its result, and every result is an answer
    have hfst : ((reconcileCalls s outcome').zip results).map Prod.fst =
        reconcileCalls s outcome' := List.map_fst_zip (by omega)
    rw [← hfst] at hcall
    obtain ⟨⟨call, result⟩, he, rfl⟩ := List.mem_map.mp hcall
    obtain rfl := hclean result (List.of_mem_zip he).2
    exact hraise b _ he

/-- **Step lemma.** An attempt leaves an interrupted state, and one without failing calls leaves the
state of a whole flush: the tables by `merge_eq`, the buckets by `reconcile_eq`. -/
theorem step (h : Flushable r₀ pg₀ s₀) {st st' : Redis × Postgres}
    (hst : Interrupted r₀ pg₀ (pg₀.mergedWrapping s₀) st) {a : FlushAttempt}
    (hstep : flush st a = some st') :
    Interrupted r₀ pg₀ (pg₀.mergedWrapping s₀) st' ∧
      (a.Clean → st' = flushed r₀ (pg₀.mergedWrapping s₀)) ∧
      (st.2 = pg₀.mergedWrapping s₀ → st'.2 = pg₀.mergedWrapping s₀) := by
  rcases flush_cases hstep with ⟨hfail, rfl⟩ |
    ⟨scanned, cutoff, s, rest, pg, outcome, rfl, hscan, hs, hmerge, hrest⟩
  · exact ⟨hst, fun hclean => absurd hclean hfail, id⟩
  · obtain rfl := h.merge_eq hst hscan hs hmerge
    rcases hrest with ⟨hfail, rfl⟩ | ⟨outcome', results, rfl, horder, hlength, rfl⟩
    · obtain ⟨u, hr, hu, -⟩ := hst
      exact ⟨⟨u, hr, hu, Or.inl rfl⟩, fun hclean => absurd hclean hfail, fun _ => rfl⟩
    · obtain ⟨u, hrun, hu, hclean⟩ := h.reconcile_eq hst hscan hs hmerge horder hlength
      refine ⟨⟨u, hrun, hu, Or.inl rfl⟩, fun hanswered => ?_, fun _ => rfl⟩
      rw [flushed, hrun, hclean hanswered]

theorem init (r₀ : Redis) (pg₀ pg₁ : Postgres) : Interrupted r₀ pg₀ pg₁ (r₀, pg₀) :=
  ⟨r₀.buckets, rfl, fun _ => Or.inl rfl, Or.inr ⟨rfl, rfl⟩⟩

end Flushable

/-- **A flush is retryable.** After any attempts, however each of them ended, a flush in which
no call fails leaves the very state that such a flush leaves at the start. There Redis and
Postgres agree on every bucket of an existing link and on every global day, and a further
flush, however it ends, changes no table. -/
theorem flush_retry (hredis : r₀.WellFormed) (hpg : pg₀.NonNegative)
    (hcounts : ∀ b, pg₀.count b < 2 ^ 53) {single : FlushAttempt} (hsingle : single.Clean)
    {st₁ : Redis × Postgres} (hst₁ : flush (r₀, pg₀) single = some st₁)
    {attempts : List FlushAttempt} {st : Redis × Postgres}
    (hrun : flushes.run (r₀, pg₀) attempts = some st) {last : FlushAttempt} (hlast : last.Clean)
    {st' : Redis × Postgres} (hst' : flush st last = some st') : st' = st₁ ∧
      (∀ b v, st'.1.buckets.get b = some v → (∀ code ∈ b.shortCode, st'.2.linkExists code = true) →
        st'.2.row b = some v) ∧
      ∀ again st'', flush st' again = some st'' → st''.2 = st'.2 := by
  rcases flush_cases hst₁ with ⟨hfail, -⟩ |
    ⟨scanned, cutoff, s₀, rest, pg₁, outcome, rfl, hscan, hs, hmerge, -⟩
  · exact absurd hsingle hfail
  have h : Flushable r₀ pg₀ s₀ := ⟨hredis, hpg, hcounts, scanned, cutoff, hscan, hs⟩
  have hinit := Flushable.init r₀ pg₀ (pg₀.mergedWrapping s₀)
  obtain rfl := (h.step hinit hst₁).2.1 hsingle
  have hinv := flushes.run_invariant (fun _ _ _ hi hstep => (h.step hi hstep).1) hrun hinit
  obtain ⟨hinv', hwhole, -⟩ := h.step hinv hst'
  obtain rfl := hwhole hlast
  refine ⟨rfl, fun b v hv hlink => ?_, fun again st'' hagain => (h.step hinv' hagain).2.2 rfl⟩
  change (raiseTo r₀.buckets (pg₀.mergedWrapping s₀)).get b = some v at hv
  rw [raiseTo, Table.get_mapRows] at hv
  obtain ⟨v₀, hv₀, rfl⟩ := Option.map_eq_some_iff.mp hv
  -- what was merged is absorbed, so the count of the row is the larger one
  have habsorbs := absorbs_mergedWrapping pg₀ s₀
  have hrow : NullLe (r₀.buckets.get b) ((pg₀.mergedWrapping s₀).row b) := by
    rw [← h.get_counts]
    cases b with
    | global d =>
      rw [s₀.get_counts_global]
      exact habsorbs.globalDaily d
    | link code d =>
      rw [s₀.get_counts_link]
      exact habsorbs.linkDaily (code, d) (hlink code rfl)
  obtain ⟨w, hw, hle⟩ := hrow v₀ hv₀
  show (pg₀.mergedWrapping s₀).row b = some (max v₀ ((pg₀.mergedWrapping s₀).count b))
  rw [Postgres.count, hw, Option.getD_some, max_eq_right hle]

end Retry

/-! ## A flush that takes four attempts -/

/-- Redis is ahead on the link and behind on the day. -/
def aheadRedis : Redis where
  entries := []
  lastId := 0
  group := none
  buckets := (Table.empty.set (.global 0) 3).set (.link "a" 0) 2
  lastClickedAt := Table.empty.set "a" 5

def aheadPg : Postgres where
  links := Table.empty.set "a" ⟨"https://example.org", none, 1, none⟩
  linkDailyClicks := Table.empty.set ("a", 0) 1
  globalDailyClicks := Table.empty.set 0 4
  totalClicks := 4

def aheadSnapshot (globalClicks : Int) : RedisSnapshot where
  globalDaily := HashMap.empty.insert 0 globalClicks
  linkDaily := HashMap.empty.insert ("a", 0) 2
  lastClickedAt := HashMap.empty.insert "a" ⟨5000000, by decide, by decide⟩
  staleGlobal := [0]
  staleLinks := [("a", 0)]

def aheadOutcome : MergeOutcome where
  committedGlobal := HashMap.empty.insert 0 4
  committedLinks := HashMap.empty.insert ("a", 0) 2
  globalDelta := 0
  linkDeltas := HashMap.empty

def aheadFlush (globalClicks : Int) (rest : FlushEnd) : FlushAttempt :=
  .captured ["a"] 1 (aheadSnapshot globalClicks) rest

theorem nonNegative_aheadPg : aheadPg.NonNegative where
  globalDailyClicks d := by
    rw [aheadPg, Table.val_set]
    split <;> simp
  linkDailyClicks k := by
    rw [aheadPg, Table.val_set]
    split <;> simp
  clickCount c row hrow := by
    have hall : ∀ k ∈ aheadPg.links.keys,
        (aheadPg.links.get k).all (fun r => decide (0 ≤ r.clickCount)) = true := by decide
    simpa using Table.forall_rows (p := fun _ r => decide (0 ≤ r.clickCount)) hall hrow
  totalClicks := by decide

theorem flush_retry_ahead : ∃ st₁ st st', flush (aheadRedis, aheadPg)
      (aheadFlush 3 (.reconciled aheadOutcome (List.replicate 4 .answered))) = some st₁ ∧
    flushes.run (aheadRedis, aheadPg) [aheadFlush 3 .rolledBack, aheadFlush 3 (.commitUnknown true),
      aheadFlush 3 (.reconciled aheadOutcome [.unanswered, .lost, .answered, .lost])] = some st ∧
    flush st (aheadFlush 4 (.reconciled aheadOutcome (List.replicate 4 .answered))) = some st' ∧
    st' = st₁ ∧ st'.1.buckets.get (.global 0) = some 4 := by
  have hsome : (((flushes.run (aheadRedis, aheadPg) [aheadFlush 3 .rolledBack,
      aheadFlush 3 (.commitUnknown true),
      aheadFlush 3 (.reconciled aheadOutcome [.unanswered, .lost, .answered, .lost])]).bind fun st =>
      flush st (aheadFlush 4 (.reconciled aheadOutcome (List.replicate 4 .answered)))).map fun st =>
        st.1.buckets.get (.global 0)) = some (some 4) := by decide
  have hsome₁ : (flush (aheadRedis, aheadPg)
      (aheadFlush 3 (.reconciled aheadOutcome (List.replicate 4 .answered)))).isSome = true := by
    decide
  obtain ⟨st₁, hst₁⟩ := Option.isSome_iff_exists.mp hsome₁
  obtain ⟨st', hst', hvalue⟩ := Option.map_eq_some_iff.mp hsome
  obtain ⟨st, hst, hst'⟩ := Option.bind_eq_some_iff.mp hst'
  have hredis : aheadRedis.WellFormed := fun b v hv => by
    have hall : ∀ k ∈ aheadRedis.buckets.keys, (aheadRedis.buckets.get k).all
        (fun v => decide (0 ≤ v ∧ v < 2 ^ 53)) = true := by decide
    simpa using Table.forall_rows (p := fun _ v => decide (0 ≤ v ∧ v < 2 ^ 53)) hall hv
  have hcounts : ∀ b, aheadPg.count b < 2 ^ 53 := fun b => by
    cases b with
    | global d =>
      show (Table.empty.set (0 : NaiveDate) (4 : Int)).val d < 2 ^ 53
      rw [Table.val_set]
      split <;> simp
    | link code d =>
      show (Table.empty.set ("a", (0 : NaiveDate)) (1 : Int)).val (code, d) < 2 ^ 53
      rw [Table.val_set]
      split <;> simp
  obtain ⟨heq, -, -⟩ :=
    flush_retry hredis nonNegative_aheadPg hcounts (by decide) hst₁ hst (by decide) hst'
  exact ⟨st₁, st, st', hst₁, hst, hst', heq, hvalue⟩

end Kurl
