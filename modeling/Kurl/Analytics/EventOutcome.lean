import Kurl.Analytics.Persistence

/-!
# Kurl — what `record_click_event` reports (`analytics/src/redis_stats.rs`)

`RECORD_CLICK` returns 1 when it processed the event and 0 when the event was already handled, and
`record_click_event` names the two the other way round. So no call reports what it did
(`Recording.not_faithful`): one that counted its click is `AlreadyHandled`, and one that changed
nothing is `Applied` and goes into the metric of `process_entry`.

A `Recording` is one call with what it was given, what it reported and Redis before and after;
`recordings` are those of a sequence. The outcomes of calls that the script does not fail are right
only where there are no calls (`outcomes_faithful_iff`). The counters are right in every case: the
outcome decides a metric and nothing else.
-/

namespace Kurl

open Lib

/-- One call of `record_click_event`, with Redis before and after it. -/
structure Recording where
  before : Redis
  event : ClickEvent
  result : Except RedisError EventOutcome
  after : Redis

/-- Calls on these entries, one after the other. -/
def recordings (r : Redis) : List (Nat × ClickEvent) → List Recording
  | [] => []
  | call :: calls =>
    let res := recordClickEvent r call.1 call.2
    ⟨r, call.2, res.1, res.2⟩ :: recordings res.2 calls

/-- Redis after the calls. -/
def recordAll (r : Redis) : List (Nat × ClickEvent) → Redis
  | [] => r
  | call :: calls => recordAll (recordClickEvent r call.1 call.2).2 calls

namespace Recording

/-- The call added the click to each of its counters. -/
def Incremented (c : Recording) : Prop := ∀ b, c.event.hits b = true →
  c.after.buckets.val b = c.before.buckets.val b + 1

/-- The outcome says what the call did. -/
def Faithful (c : Recording) : Prop :=
  (c.result = .ok .applied ↔ c.Incremented) ∧ (c.result = .ok .alreadyHandled ↔ c.after = c.before)

/-- No script error, and an expected return value. -/
def Succeeded (c : Recording) : Prop := ∃ outcome, c.result = .ok outcome

end Recording

/-- The number of calls with an outcome. For `applied` it is what `process_entry` adds to
`analytics.events_processed`. -/
def countOf (outcome : EventOutcome) (calls : List Recording) : Nat :=
  calls.countP fun c => c.result.toOption = some outcome

/-- The sum of all global day buckets. -/
def Redis.globalTotal (r : Redis) : Int := r.buckets.sumWhere fun b => b.shortCode = none

section Calls

variable {r : Redis}

/-- **One call**, without a script error: the entry was not pending and nothing changed, or it
was, and each of its counters grew by one. -/
theorem recordClickEvent_cases {id : Nat} {event : ClickEvent} {outcome : EventOutcome}
    (h : (recordClickEvent r id event).1 = .ok outcome) :
    outcome = .applied ∧ (recordClickEvent r id event).2 = r ∨
      outcome = .alreadyHandled ∧ ∀ b, (recordClickEvent r id event).2.buckets.val b =
        r.buckets.val b + if event.hits b then 1 else 0 := by
  by_cases hpend : id ∈ r.pel
  · by_cases hroom : ∀ b, event.hits b = true → r.HasRoom b
    · have heq := recordClickEvent_of_mem hpend event hroom
      rw [heq] at h
      refine Or.inr ⟨(Except.ok.inj h).symm, fun b => ?_⟩
      rw [heq]
      exact val_countClick r.buckets event b
    · -- a full counter is a script error
      simp only [not_forall] at hroom
      obtain ⟨b, hb, hfull⟩ := hroom
      obtain ⟨buckets, heq, -⟩ := recordClickEvent_of_full hpend event hb hfull
      rw [heq] at h
      simp at h
  · have heq := recordClickEvent_of_notMem hpend event
    rw [heq] at h
    refine Or.inl ⟨(Except.ok.inj h).symm, ?_⟩
    rw [heq]

/-- No call that succeeds reports what it did. -/
theorem Recording.not_faithful {calls : List (Nat × ClickEvent)} {c : Recording}
    (hc : c ∈ recordings r calls) (hok : c.Succeeded) : ¬ c.Faithful := by
  induction calls generalizing r with
  | nil => simp [recordings] at hc
  | cons call calls ih =>
    rcases List.mem_cons.mp hc with rfl | hc
    · obtain ⟨outcome, hres⟩ := hok
      rintro ⟨happlied, hhandled⟩
      -- the bucket of the day tells the two ends of a call apart
      have hday : call.2.hits (.global call.2.atTime.dateNaive) = true := by
        simp [ClickEvent.hits]
      rcases recordClickEvent_cases hres with ⟨rfl, hsame⟩ | ⟨rfl, hgrow⟩
      · have hinc : (recordClickEvent r call.1 call.2).2.buckets.val _ = r.buckets.val _ + 1 :=
          happlied.mp hres _ hday
        rw [hsame] at hinc
        omega
      · have hsame : (recordClickEvent r call.1 call.2).2 = r := hhandled.mp hres
        have hinc := hgrow (.global call.2.atTime.dateNaive)
        rw [hsame, if_pos hday] at hinc
        omega
    · exact ih hc

end Calls

/-- **The reported outcomes are those of no call.** In a sequence of calls without script errors
every outcome says what its call did, and the number of `Applied` outcomes is the growth of the
global counters, only if the sequence is empty. -/
theorem outcomes_faithful_iff {r : Redis} {calls : List (Nat × ClickEvent)}
    (hok : ∀ c ∈ recordings r calls, c.Succeeded) :
    ((∀ c ∈ recordings r calls, c.Faithful) ∧ (recordAll r calls).globalTotal =
      r.globalTotal + countOf .applied (recordings r calls)) ↔ calls = [] := by
  constructor
  · rintro ⟨hfaithful, -⟩
    cases calls with
    | nil => rfl
    | cons call calls =>
      have hmem : ⟨r, call.2, (recordClickEvent r call.1 call.2).1,
          (recordClickEvent r call.1 call.2).2⟩ ∈ recordings r (call :: calls) :=
        List.mem_cons_self
      exact absurd (hfaithful _ hmem) (Recording.not_faithful hmem (hok _ hmem))
  · rintro rfl
    simp [recordAll, recordings, countOf]

/-- One pending entry. -/
def onePending : Redis :=
  { Redis.empty with
    entries := [⟨1, HashMap.empty⟩]
    lastId := 1
    group := some ⟨1, [1]⟩ }

/-- Two deliveries of it. -/
def twoDeliveries : List (Nat × ClickEvent) :=
  [(1, ⟨"a", DateTime.unixEpoch⟩), (1, ⟨"a", DateTime.unixEpoch⟩)]

theorem outcomes_faithful_iff_twoDeliveries :
    ¬ ((∀ c ∈ recordings onePending twoDeliveries, c.Faithful) ∧
      (recordAll onePending twoDeliveries).globalTotal =
        onePending.globalTotal + countOf .applied (recordings onePending twoDeliveries)) := by
  have hok : ∀ c ∈ recordings onePending twoDeliveries, c.Succeeded := by
    intro c hc
    have hall : ∀ c ∈ recordings onePending twoDeliveries, c.result.toOption.isSome = true := by
      decide
    have hsome := hall c hc
    unfold Recording.Succeeded
    cases hres : c.result with
    | error e => simp [hres, Except.toOption] at hsome
    | ok outcome => exact ⟨outcome, rfl⟩
  exact fun h => absurd ((outcomes_faithful_iff hok).mp h) (by simp [twoDeliveries])

/-- The first delivery counts the click and is reported as handled already; the second changes
nothing and is reported as applied. -/
theorem redelivery_reported_applied : ((recordings onePending twoDeliveries).map fun c =>
      (c.result.toOption, c.before.buckets.val (.global 0), c.after.buckets.val (.global 0))) =
    [(some .alreadyHandled, 0, 1), (some .applied, 1, 1)] := by decide

end Kurl
