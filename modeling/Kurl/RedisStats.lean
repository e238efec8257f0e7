import Kurl.Redis

/-!
# Kurl — the counter scripts (`analytics/src/redis_stats.rs`)

The three Lua scripts and the Rust functions that invoke them. What `RECORD_CLICK` can do is one of
three things, and later modules reason from these alone:

* the entry was not pending and nothing changed (`recordClickEvent_of_notMem`);
* it was pending and is now acknowledged, counted and deleted (`recordClickEvent_of_mem`,
  `Redis.counted`);
* `HINCRBY` overflowed after the acknowledgement (`recordClickEvent_of_full`).

`HMAX` compares its two numbers as Lua does, as doubles: it is the maximum of the two while both are
below `2^53` (`hmaxValue_eq_max`), and beyond that it may keep the smaller one. `compare_and_delete`
fails before it has done anything (`compareAndDelete_eq`).
-/

namespace Kurl

open Lib

/-- `common::events::ClickEvent`; `atTime` is its field `at`. -/
structure ClickEvent where
  shortCode : String
  atTime : DateTime
  deriving DecidableEq

/-- The counters a click is added to. -/
def ClickEvent.hits (e : ClickEvent) : Bucket → Bool
  | .global day => e.atTime.dateNaive = day
  | .link shortCode day => e.shortCode = shortCode ∧ e.atTime.dateNaive = day

inductive EventOutcome where
  | applied
  | alreadyHandled
  deriving DecidableEq

inductive RedisError where
  | script (error : ScriptError)
  /-- "Unexpected return value from RECORD_CLICK script" -/
  | invalidData
  deriving DecidableEq

/-! ## The scripts -/

/-- `HMAX_SCRIPT`. Lua compares the two counts as doubles. -/
def hmaxScript (b : Bucket) (value : Int) : Script Bool := do
  let current ← Script.hget b
  if current.elim true (fun c => toDouble c < toDouble value) then
    Script.hset b value
    return true
  return false

/-- `COMPARE_AND_DELETE_SCRIPT`. Its comparison reads `argv[2]`; Redis passes the arguments
in `ARGV` and turns the read of an undefined global into a script error. -/
def compareAndDeleteScript (b : Bucket) (expectedValue : Int) : Script Bool := do
  let current ← Script.hget b
  let argv2 : Int ← throw (.undefinedGlobal "argv")
  if current = some argv2 then
    Script.hset b expectedValue
    return true
  return false

/-- `RECORD_CLICK`. -/
def recordClickScript (entryId : Nat) (shortCode : String) (day : NaiveDate)
    (timestamp : Int) : Script Int := do
  let acked ← Script.xack entryId
  if acked = 0 then
    return 0
  Script.hincrby (.global day) 1
  Script.hincrby (.link shortCode day) 1
  let ts := toDouble timestamp
  let curTs := toDouble ((← Script.getLastClickedAt shortCode).getD 0)
  if ts > curTs then
    Script.setLastClickedAt shortCode timestamp
  Script.xdel entryId
  return 1

/-! ## `RedisStats` -/

/-- `RedisStats::hmax`. -/
def hmax (r : Redis) (b : Bucket) (value : Int) : Except ScriptError Bool × Redis :=
  (hmaxScript b value).invoke r

/-- `RedisStats::compare_and_delete`. -/
def compareAndDelete (r : Redis) (b : Bucket) (expectedValue : Int) :
    Except ScriptError Bool × Redis :=
  (compareAndDeleteScript b expectedValue).invoke r

/-- `RedisStats::record_click_event`. -/
def recordClickEvent (r : Redis) (entryId : Nat) (event : ClickEvent) :
    Except RedisError EventOutcome × Redis :=
  match (recordClickScript entryId event.shortCode event.atTime.dateNaive
      event.atTime.timestampMillis).invoke r with
  | (.error e, r') => (.error (.script e), r')
  | (.ok result, r') =>
    if result = 0 then (.ok .applied, r')
    else if result = 1 then (.ok .alreadyHandled, r')
    else (.error .invalidData, r')

/-- `RedisStats::drop_click_event`. -/
def dropClickEvent (r : Redis) (entryId : Nat) : Redis := r.xackDel entryId

/-! ## Running a script -/

namespace Script

theorem invoke_bind {α β : Type} (x : Script α) (f : α → Script β) (r : Redis) :
    (x >>= f).invoke r = match x.invoke r with
      | (.ok a, r') => (f a).invoke r'
      | (.error e, r') => (.error e, r') := by
  show ExceptT.bindCont f (x.invoke r).1 (x.invoke r).2 = _
  cases x.invoke r with
  | mk result r' => cases result <;> rfl

@[simp] theorem invoke_pure {α : Type} (a : α) (r : Redis) :
    (pure a : Script α).invoke r = (.ok a, r) := rfl

@[simp] theorem invoke_throw {α : Type} (e : ScriptError) (r : Redis) :
    (throw e : Script α).invoke r = (.error e, r) := rfl

@[simp] theorem invoke_xack (id : Nat) (r : Redis) :
    (xack id).invoke r = (.ok (r.xack id).2, (r.xack id).1) := rfl

@[simp] theorem invoke_xdel (id : Nat) (r : Redis) :
    (xdel id).invoke r = (.ok (), r.xdel id) := rfl

@[simp] theorem invoke_hget (b : Bucket) (r : Redis) :
    (hget b).invoke r = (.ok (r.buckets.get b), r) := rfl

@[simp] theorem invoke_hset (b : Bucket) (n : Int) (r : Redis) :
    (hset b n).invoke r = (.ok (), { r with buckets := r.buckets.set b n }) := rfl

@[simp] theorem invoke_getLastClickedAt (shortCode : String) (r : Redis) :
    (getLastClickedAt shortCode).invoke r = (.ok (r.lastClickedAt.get shortCode), r) := rfl

@[simp] theorem invoke_setLastClickedAt (shortCode : String) (ts : Int) (r : Redis) :
    (setLastClickedAt shortCode ts).invoke r =
      (.ok (), { r with lastClickedAt := r.lastClickedAt.set shortCode ts }) := rfl

theorem invoke_hincrby_some {b : Bucket} {n m : Int} {r : Redis}
    (h : addChecked (r.buckets.val b) n = some m) :
    (hincrby b n).invoke r = (.ok (), { r with buckets := r.buckets.set b m }) := by
  show hincrby b n r = _
  simp only [hincrby, h]

theorem invoke_hincrby_none {b : Bucket} {n : Int} {r : Redis}
    (h : addChecked (r.buckets.val b) n = none) :
    (hincrby b n).invoke r = (.error .overflow, r) := by
  show hincrby b n r = _
  simp only [hincrby, h]

end Script

/-! ## `HMAX` -/

/-- The value `HMAX` leaves in a bucket. -/
def hmaxValue (current : Option Int) (value : Int) : Int :=
  current.elim value fun c => if toDouble c < toDouble value then value else c

/-- **`HMAX` cannot fail**: it leaves `hmaxValue` in its bucket and touches nothing else. -/
theorem hmax_eq (r : Redis) (b : Bucket) (value : Int) : ∃ updated, hmax r b value =
    (.ok updated, { r with buckets := r.buckets.set b (hmaxValue (r.buckets.get b) value) }) := by
  unfold hmax hmaxScript
  rw [Script.invoke_bind, Script.invoke_hget]
  cases hc : r.buckets.get b with
  | none => exact ⟨true, rfl⟩
  | some c =>
    by_cases hlt : toDouble c < toDouble value
    · refine ⟨true, ?_⟩
      simp [-bind_pure_comp, hlt, hmaxValue, Script.invoke_bind]
    · refine ⟨false, ?_⟩
      have hset : r.buckets.set b c = r.buckets := Table.set_of_get hc
      simp [hlt, hmaxValue, hset]

/-- On counts a double holds exactly, `HMAX` is SQL's `greatest`. -/
theorem hmaxValue_eq_max {c value : Int} (hc : -2 ^ 53 < c ∧ c < 2 ^ 53)
    (hv : -2 ^ 53 < value ∧ value < 2 ^ 53) : hmaxValue (some c) value = max c value := by
  show (if toDouble c < toDouble value then value else c) = _
  rw [toDouble_of_lt hc, toDouble_of_lt hv]
  split <;> omega

/-- The value left is the old one or the incoming one. -/
theorem hmaxValue_cases (current : Option Int) (value : Int) :
    hmaxValue current value = value ∨ current = some (hmaxValue current value) := by
  cases current with
  | none => exact .inl rfl
  | some c =>
    show (if toDouble c < toDouble value then value else c) = value ∨
      some c = some (if toDouble c < toDouble value then value else c)
    split
    · exact .inl rfl
    · exact .inr rfl

/-! ## `compare_and_delete`

Every call errors before it writes, whatever the bucket holds: stale buckets stay. -/

theorem compareAndDelete_eq (r : Redis) (b : Bucket) (expectedValue : Int) :
    compareAndDelete r b expectedValue = (.error (.undefinedGlobal "argv"), r) := by
  unfold compareAndDelete compareAndDeleteScript
  rw [Script.invoke_bind, Script.invoke_hget]
  rfl

/-! ## `RECORD_CLICK` -/

/-- The counters after a click. -/
def countClick (buckets : Table Bucket Int) (event : ClickEvent) : Table Bucket Int :=
  let day := event.atTime.dateNaive
  (buckets.set (.global day) (buckets.val (.global day) + 1)).set (.link event.shortCode day)
    (buckets.val (.link event.shortCode day) + 1)

/-- The last-click timestamps after a click: a missing one counts as zero. -/
def advanceLastClickedAt (lastClickedAt : Table String Int) (event : ClickEvent) :
    Table String Int :=
  if toDouble event.atTime.timestampMillis >
      toDouble ((lastClickedAt.get event.shortCode).getD 0) then
    lastClickedAt.set event.shortCode event.atTime.timestampMillis
  else lastClickedAt

/-- Redis after `RECORD_CLICK` took the entry from the pending list and counted it. -/
def Redis.counted (r : Redis) (entryId : Nat) (event : ClickEvent) : Redis :=
  { (r.xack entryId).1.xdel entryId with
    buckets := countClick r.buckets event
    lastClickedAt := advanceLastClickedAt r.lastClickedAt event }

theorem val_countClick (buckets : Table Bucket Int) (event : ClickEvent) (b : Bucket) :
    (countClick buckets event).val b = buckets.val b + if event.hits b then 1 else 0 := by
  cases b with
  | global day =>
    by_cases hday : day = event.atTime.dateNaive
    · simp [countClick, Table.val_set, ClickEvent.hits, hday]
    · have hne : ¬ event.atTime.dateNaive = day := fun h => hday h.symm
      simp [countClick, Table.val_set, ClickEvent.hits, hday, hne]
  | link shortCode day =>
    by_cases hb : shortCode = event.shortCode ∧ day = event.atTime.dateNaive
    · obtain ⟨rfl, rfl⟩ := hb
      simp [countClick, Table.val_set, ClickEvent.hits]
    · have hne : ¬ (event.shortCode = shortCode ∧ event.atTime.dateNaive = day) := fun h =>
        hb ⟨h.1.symm, h.2.symm⟩
      simp [countClick, Table.val_set, ClickEvent.hits, hb, hne]

theorem xack_of_mem {r : Redis} {id : Nat} (h : id ∈ r.pel) :
    ∃ g, r.group = some g ∧
      r.xack id = ({ r with group := some { g with pel := g.pel.filter (fun j => j ≠ id) } }, 1) := by
  unfold Redis.pel at h
  cases hg : r.group with
  | none => simp [hg] at h
  | some g =>
    refine ⟨g, rfl, ?_⟩
    have hmem : id ∈ g.pel := by simpa [hg] using h
    simp [Redis.xack, hg, hmem]

theorem xack_of_notMem {r : Redis} {id : Nat} (h : id ∉ r.pel) : r.xack id = (r, 0) := by
  unfold Redis.pel at h
  cases hg : r.group with
  | none => simp [Redis.xack, hg]
  | some g =>
    have hmem : id ∉ g.pel := by simpa [hg] using h
    simp [Redis.xack, hg, hmem]

/-- The acknowledgement leaves everything but the pending list. -/
theorem xack_data (r : Redis) (id : Nat) :
    (r.xack id).1.entries = r.entries ∧ (r.xack id).1.lastId = r.lastId ∧
      (r.xack id).1.buckets = r.buckets ∧ (r.xack id).1.lastClickedAt = r.lastClickedAt := by
  by_cases h : id ∈ r.pel
  · obtain ⟨g, -, heq⟩ := xack_of_mem h
    simp [heq]
  · simp [xack_of_notMem h]

/-- An entry that is not pending is left alone. -/
theorem recordClickEvent_of_notMem {r : Redis} {id : Nat} (h : id ∉ r.pel)
    (event : ClickEvent) : recordClickEvent r id event = (.ok .applied, r) := by
  unfold recordClickEvent recordClickScript
  simp [Script.invoke_bind, xack_of_notMem h]

/-- `HINCRBY` by one has room in a bucket. -/
def Redis.HasRoom (r : Redis) (b : Bucket) : Prop :=
  i64Min ≤ r.buckets.val b + 1 ∧ r.buckets.val b + 1 ≤ i64Max

/-- `RECORD_CLICK` after an acknowledgement that counted: the part below the early return. -/
theorem recordClickScript_of_mem {r : Redis} {id : Nat} (h : id ∈ r.pel)
    (shortCode : String) (day : NaiveDate) (timestamp : Int) :
    (recordClickScript id shortCode day timestamp).invoke r =
      (do
        Script.hincrby (.global day) 1
        Script.hincrby (.link shortCode day) 1
        let current ← Script.getLastClickedAt shortCode
        if toDouble timestamp > toDouble (current.getD 0) then
          Script.setLastClickedAt shortCode timestamp
        Script.xdel id
        return 1).invoke (r.xack id).1 := by
  obtain ⟨g, -, hack⟩ := xack_of_mem h
  have hone : (r.xack id).2 = 1 := by rw [hack]
  unfold recordClickScript
  rw [Script.invoke_bind, Script.invoke_xack, hone]
  rfl

/-- A pending entry whose counters have room is acknowledged, counted and deleted. -/
theorem recordClickEvent_of_mem {r : Redis} {id : Nat} (h : id ∈ r.pel)
    (event : ClickEvent) (hroom : ∀ b, event.hits b = true → r.HasRoom b) :
    recordClickEvent r id event = (.ok .alreadyHandled, r.counted id event) := by
  obtain ⟨-, -, hbuckets, hclicked⟩ := xack_data r id
  have hglobal : addChecked ((r.xack id).1.buckets.val (.global event.atTime.dateNaive)) 1 =
      some (r.buckets.val (.global event.atTime.dateNaive) + 1) := by
    rw [hbuckets]
    exact if_pos (hroom _ (by simp [ClickEvent.hits]))
  -- the increments go to different buckets: the second still reads the old count
  have hlink : addChecked (((r.xack id).1.buckets.set (.global event.atTime.dateNaive)
      (r.buckets.val (.global event.atTime.dateNaive) + 1)).val
        (.link event.shortCode event.atTime.dateNaive)) 1 =
      some (r.buckets.val (.link event.shortCode event.atTime.dateNaive) + 1) := by
    rw [hbuckets, Table.val_set, if_neg (by simp)]
    exact if_pos (hroom _ (by simp [ClickEvent.hits]))
  unfold recordClickEvent
  rw [recordClickScript_of_mem h, Script.invoke_bind, Script.invoke_hincrby_some hglobal]
  dsimp only
  rw [Script.invoke_bind, Script.invoke_hincrby_some (r := { (r.xack id).1 with
    buckets := (r.xack id).1.buckets.set (.global event.atTime.dateNaive)
      (r.buckets.val (.global event.atTime.dateNaive) + 1) }) hlink]
  dsimp only
  rw [Script.invoke_bind, Script.invoke_getLastClickedAt]
  dsimp only
  rw [hclicked, hbuckets]
  unfold Redis.counted advanceLastClickedAt countClick Redis.xdel
  by_cases hts : toDouble event.atTime.timestampMillis >
      toDouble ((r.lastClickedAt.get event.shortCode).getD 0)
  · simp [-bind_pure_comp, hts, Script.invoke_bind, Redis.xdel]
  · simp [-bind_pure_comp, hts, Script.invoke_bind, Redis.xdel]

/-- A pending entry one of whose counters is at the 64-bit limit: the acknowledgement
stands, the entry stays in the stream, the full counter keeps its value and at most the
other one moved. -/
theorem recordClickEvent_of_full {r : Redis} {id : Nat} (h : id ∈ r.pel)
    (event : ClickEvent) {b : Bucket} (hb : event.hits b = true) (hfull : ¬ r.HasRoom b) :
    ∃ buckets, recordClickEvent r id event =
        (.error (.script .overflow), { (r.xack id).1 with buckets := buckets }) ∧
      buckets.val b = r.buckets.val b ∧
      ∀ j, buckets.val j = r.buckets.val j ∨
        event.hits j = true ∧ buckets.val j = r.buckets.val j + 1 := by
  obtain ⟨-, -, hbuckets, hclicked⟩ := xack_data r id
  unfold recordClickEvent
  rw [recordClickScript_of_mem h, Script.invoke_bind]
  by_cases hglobal : r.HasRoom (.global event.atTime.dateNaive)
  · have hfirst : addChecked ((r.xack id).1.buckets.val (.global event.atTime.dateNaive)) 1 =
        some (r.buckets.val (.global event.atTime.dateNaive) + 1) := by
      rw [hbuckets]
      exact if_pos hglobal
    -- the full bucket is then the link's
    have hlink : b = .link event.shortCode event.atTime.dateNaive := by
      cases b with
      | global day =>
        have hday : event.atTime.dateNaive = day := by simpa [ClickEvent.hits] using hb
        exact absurd (hday ▸ hglobal) hfull
      | link shortCode day =>
        have hkey : event.shortCode = shortCode ∧ event.atTime.dateNaive = day := by
          simpa [ClickEvent.hits] using hb
        rw [hkey.1, hkey.2]
    have hsecond : addChecked (((r.xack id).1.buckets.set (.global event.atTime.dateNaive)
        (r.buckets.val (.global event.atTime.dateNaive) + 1)).val
          (.link event.shortCode event.atTime.dateNaive)) 1 = none := by
      rw [hbuckets, Table.val_set, if_neg (by simp)]
      exact if_neg (hlink ▸ hfull)
    rw [Script.invoke_hincrby_some hfirst]
    dsimp only
    rw [Script.invoke_bind, Script.invoke_hincrby_none (r := { (r.xack id).1 with
      buckets := (r.xack id).1.buckets.set (.global event.atTime.dateNaive)
        (r.buckets.val (.global event.atTime.dateNaive) + 1) }) hsecond]
    refine ⟨_, rfl, ?_, fun j => ?_⟩
    · rw [hbuckets, Table.val_set, hlink, if_neg (by simp)]
    rw [hbuckets, Table.val_set]
    by_cases hj : j = .global event.atTime.dateNaive
    · subst hj
      exact .inr ⟨by simp [ClickEvent.hits], by simp⟩
    · exact .inl (if_neg hj)
  · have hfirst : addChecked ((r.xack id).1.buckets.val (.global event.atTime.dateNaive)) 1 =
        none := by
      rw [hbuckets]
      exact if_neg hglobal
    rw [Script.invoke_hincrby_none hfirst]
    exact ⟨(r.xack id).1.buckets, rfl, by rw [hbuckets], fun j => .inl (by rw [hbuckets])⟩

end Kurl
