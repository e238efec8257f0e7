import Kurl.Lib.HashMap
import Kurl.Time

/-!
# Kurl — snapshots of Redis (`analytics/src/snapshot.rs`)

What one flush carries from Redis to Postgres and back. The hash maps keep the order in which the
merge happens to iterate them: Rust leaves it open, so theorems speak about snapshots with the same
contents (`RedisSnapshot.Same`) wherever an order could be seen.

`stale_global_fields` and `stale_link_fields` are the fields that a flush may remove from Redis once
they are in Postgres. They are chosen when the snapshot is taken, with its clock.
-/

namespace Kurl

open Lib

/-- `RedisSnapshot`: the counts by day and by link and day, the last clicks, and the fields to be
cleaned up. -/
structure RedisSnapshot where
  globalDaily : HashMap NaiveDate Int
  linkDaily : HashMap (String × NaiveDate) Int
  lastClickedAt : HashMap String DateTime
  staleGlobal : List NaiveDate
  staleLinks : List (String × NaiveDate)
  deriving DecidableEq

/-- `MergeOutcome`: the counts that were committed and the deltas that went into the totals. -/
structure MergeOutcome where
  committedGlobal : HashMap NaiveDate Int
  committedLinks : HashMap (String × NaiveDate) Int
  globalDelta : Int
  linkDeltas : HashMap String Int
  deriving DecidableEq

/-- `MergeOutcome::default()`. -/
def MergeOutcome.default : MergeOutcome := ⟨HashMap.empty, HashMap.empty, 0, HashMap.empty⟩

/-- `calculate_merge_delta`: what to commit, and by how much that exceeds what is there. -/
def calculateMergeDelta (existing incoming : Int) : Int × Int :=
  let committed := max existing incoming
  (committed, committed - existing)

def staleGlobalFields (daily : HashMap NaiveDate Int) (cutoff : NaiveDate) : List NaiveDate :=
  daily.keys.filter (fun d => d < cutoff)

def staleLinkFields (daily : HashMap (String × NaiveDate) Int) (cutoff : NaiveDate) :
    List (String × NaiveDate) :=
  daily.keys.filter (fun k => k.2 < cutoff)

namespace RedisSnapshot

/-- The counts are not negative; `parse_daily_counts` admits no others. -/
def NonNegative (s : RedisSnapshot) : Prop :=
  (∀ e ∈ s.globalDaily.entries, 0 ≤ e.2) ∧ ∀ e ∈ s.linkDaily.entries, 0 ≤ e.2

instance (s : RedisSnapshot) : Decidable s.NonNegative :=
  inferInstanceAs (Decidable ((∀ e ∈ s.globalDaily.entries, 0 ≤ e.2) ∧
    ∀ e ∈ s.linkDaily.entries, 0 ≤ e.2))

/-- The same contents, met in any iteration order. -/
def Same (s s' : RedisSnapshot) : Prop :=
  s.globalDaily.Same s'.globalDaily ∧ s.linkDaily.Same s'.linkDaily ∧
    s.lastClickedAt.Same s'.lastClickedAt

end RedisSnapshot

end Kurl
