import Kurl.RedisStats
import Kurl.Analytics.MergeSpec

/-!
# Kurl — between Redis and Postgres (`analytics/src/redis_persistence.rs`)

The three parts of `Persistence` that talk to Redis:

* `capture_snapshot` reads the hashes one after the other (`captureCounts`) and assembles a
  snapshot from what it read. The snapshot's hash maps iterate in an order of their own, so
  `RedisSnapshot.Assembles` says which snapshots can come out.
* `reconcile_and_cleanup` and `rehydrate` are lists of script calls (`RedisCall`). A call may
  be lost before it runs or its answer may be lost after; `RedisCall.exec` covers each end.

The scripts of the list can only raise buckets: a cleanup call never changes anything
(`compareAndDelete_eq`), so what a call does to Redis is `RedisCall.apply`.
-/

namespace Kurl

open Lib

/-- The hash a bucket is a field of: the one of a link, or the global one. -/
def Bucket.shortCode : Bucket → Option String
  | .global _ => none
  | .link code _ => some code

/-! ## Windows -/

def rollingWindowDays : Int := 7

def staleGraceDays : Int := 1

/-- `(Utc::now() - Duration::days(days)).date_naive()`. -/
def dayBefore (now : DateTime) (days : Int) : NaiveDate :=
  (now.nanos - days * 86400000000000) / 86400000000000

def rollingWindowStart (now : DateTime) : NaiveDate := dayBefore now rollingWindowDays

def staleCutoff (now : DateTime) : NaiveDate := dayBefore now (rollingWindowDays + staleGraceDays)

/-! ## Capture -/

/-- `HGETALL` of one hash. -/
def Redis.hgetall (r : Redis) (shortCode : Option String) : Table Bucket Int :=
  r.buckets.filter fun b => b.shortCode = shortCode

/-- `parse_daily_counts`: a negative count, and one that is no `i64`, is malformed. -/
def parseDailyCounts (fields : Table Bucket Int) : Table Bucket Int :=
  fields.filter fun b => 0 ≤ fields.val b ∧ fields.val b ≤ i64Max

/-- The counts of the links that `SCAN` yields, in its order, and then the global ones. -/
def captureCounts (r : Redis) (scanned : List String) : Table Bucket Int :=
  (scanned.foldl (fun counts code => counts.overlay (parseDailyCounts (r.hgetall (some code))))
    Table.empty).overlay (parseDailyCounts (r.hgetall none))

/-- `SCAN` yields every key that is there throughout, some perhaps more than once. -/
def Redis.Scanned (r : Redis) (scanned : List String) : Prop :=
  ∀ b ∈ r.buckets.keys, ∀ code ∈ b.shortCode, code ∈ scanned

instance (r : Redis) (scanned : List String) : Decidable (r.Scanned scanned) :=
  inferInstanceAs (Decidable (∀ b ∈ r.buckets.keys, ∀ code ∈ b.shortCode, code ∈ scanned))

/-- `RedisStats::last_clicked_at_batch`. A timestamp that `chrono` cannot represent fails the
whole batch. -/
def lastClickedAtBatch (r : Redis) : List String → Option (List (String × DateTime))
  | [] => some []
  | code :: codes =>
    match r.lastClickedAt.get code with
    | none => lastClickedAtBatch r codes
    | some ms => do
      let clickedAt ← DateTime.timestampMillisOpt ms
      let rest ← lastClickedAtBatch r codes
      return (code, clickedAt) :: rest

namespace RedisSnapshot

variable (s : RedisSnapshot)

/-- The counts under the buckets they were read from. -/
def counts : HashMap Bucket Int where
  entries := s.globalDaily.entries.map (fun e => (Bucket.global e.1, e.2)) ++
    s.linkDaily.entries.map fun e => (Bucket.link e.1.1 e.1.2, e.2)
  nodup := by
    have hglobal : (s.globalDaily.keys.map Bucket.global).Nodup :=
      s.globalDaily.nodup_keys.map fun _ _ h => by simpa using h
    have hlinks : (s.linkDaily.keys.map fun k => Bucket.link k.1 k.2).Nodup :=
      s.linkDaily.nodup_keys.map fun _ _ h => by simpa [Prod.ext_iff] using h
    rw [List.map_append, List.nodup_append]
    refine ⟨by simpa [HashMap.keys, Function.comp_def] using hglobal,
      by simpa [HashMap.keys, Function.comp_def] using hlinks, ?_⟩
    simp only [List.map_map, List.mem_map, Function.comp_apply, ne_eq]
    rintro a ⟨e, -, rfl⟩ b ⟨e', -, rfl⟩
    simp

/-- The codes whose timestamps are fetched. -/
def codes : List String := (s.linkDaily.keys.map Prod.fst).dedup

/-- The snapshot holds these counts, and the timestamps Redis has for their codes. -/
def Assembles (counts : Table Bucket Int) (r : Redis) (cutoff : NaiveDate) : Prop :=
  s.counts.toTable = counts ∧
    (∃ l ∈ lastClickedAtBatch r s.codes, s.lastClickedAt.entries.Perm l) ∧
    s.staleGlobal.Perm (staleGlobalFields s.globalDaily cutoff) ∧
    s.staleLinks.Perm (staleLinkFields s.linkDaily cutoff)

instance (counts : Table Bucket Int) (r : Redis) (cutoff : NaiveDate) :
    Decidable (s.Assembles counts r cutoff) :=
  inferInstanceAs (Decidable (_ ∧ (∃ l ∈ lastClickedAtBatch r s.codes, _) ∧ _ ∧ _))

end RedisSnapshot

/-! ## Script calls -/

inductive RedisCall where
  | hmax (b : Bucket) (value : Int)
  | compareAndDelete (b : Bucket) (expectedValue : Int)
  deriving DecidableEq

/-- How a call ends for its caller. -/
inductive CallResult where
  | answered
  /-- The request never reached Redis. -/
  | lost
  /-- The script ran, its answer was lost. -/
  | unanswered
  deriving DecidableEq

/-- One call of `rehydrate` or `reconcile_and_cleanup`. `reconciled` holds the buckets whose
`HMAX` was answered; only they are cleaned up. -/
def RedisCall.exec (r : Redis) (reconciled : List Bucket) (call : RedisCall)
    (result : CallResult) : Redis × List Bucket :=
  match call, result with
  | .hmax _ _, .lost => (r, reconciled)
  | .hmax b value, .unanswered => ((Kurl.hmax r b value).2, reconciled)
  | .hmax b value, .answered =>
    match Kurl.hmax r b value with
    | (.ok _, r') => (r', b :: reconciled)
    | (.error _, r') => (r', reconciled)
  | .compareAndDelete b expectedValue, result =>
    if b ∈ reconciled ∧ result ≠ .lost then ((Kurl.compareAndDelete r b expectedValue).2, reconciled)
    else (r, reconciled)

/-- The calls of `rehydrate`. -/
def rehydrateCalls (globalDaily : HashMap NaiveDate Int)
    (linkDaily : HashMap (String × NaiveDate) Int) : List RedisCall :=
  globalDaily.entries.map (fun e => RedisCall.hmax (.global e.1) e.2) ++
    linkDaily.entries.map fun e => RedisCall.hmax (.link e.1.1 e.1.2) e.2

/-- The calls of `reconcile_and_cleanup`. -/
def reconcileCalls (s : RedisSnapshot) (outcome : MergeOutcome) : List RedisCall :=
  outcome.committedGlobal.entries.map (fun e => RedisCall.hmax (.global e.1) e.2) ++
    s.staleGlobal.map (fun d =>
      RedisCall.compareAndDelete (.global d) ((outcome.committedGlobal.get d).getD 0)) ++
    outcome.committedLinks.entries.map (fun e => RedisCall.hmax (.link e.1.1 e.1.2) e.2) ++
    s.staleLinks.map fun k =>
      RedisCall.compareAndDelete (.link k.1 k.2) ((outcome.committedLinks.get k).getD 0)

/-- A global and a link bucket are different, and so are two of one kind with different keys. -/
theorem nodup_buckets (globalDaily : HashMap NaiveDate Int)
    (linkDaily : HashMap (String × NaiveDate) Int) :
    (globalDaily.keys.map Bucket.global ++
      linkDaily.keys.map fun k => Bucket.link k.1 k.2).Nodup := by
  have hglobal : (globalDaily.keys.map Bucket.global).Nodup :=
    globalDaily.nodup_keys.map fun _ _ heq => by simpa using heq
  have hlinks : (linkDaily.keys.map fun k => Bucket.link k.1 k.2).Nodup :=
    linkDaily.nodup_keys.map fun _ _ heq => by simpa [Prod.ext_iff] using heq
  rw [List.nodup_append]
  refine ⟨hglobal, hlinks, ?_⟩
  intro a ha b hb
  obtain ⟨day, -, rfl⟩ := List.mem_map.mp ha
  obtain ⟨k, -, rfl⟩ := List.mem_map.mp hb
  simp

/-- The outcome's hash maps, met in another order. -/
def MergeOutcome.Reordered (outcome outcome' : MergeOutcome) : Prop :=
  outcome'.committedGlobal.entries.Perm outcome.committedGlobal.entries ∧
    outcome'.committedLinks.entries.Perm outcome.committedLinks.entries

instance (outcome outcome' : MergeOutcome) : Decidable (outcome.Reordered outcome') :=
  inferInstanceAs (Decidable (_ ∧ _))

/-! ## What a capture reads -/

theorem get_hgetall (r : Redis) (code : Option String) (b : Bucket) :
    (r.hgetall code).get b = if b.shortCode = code then r.buckets.get b else none := by
  simp [Redis.hgetall, Table.get_filter]

theorem get_parseDailyCounts (fields : Table Bucket Int) (b : Bucket) :
    (parseDailyCounts fields).get b =
      if 0 ≤ fields.val b ∧ fields.val b ≤ i64Max then fields.get b else none := by
  simp [parseDailyCounts, Table.get_filter]

/-- One hash, parsed: its part of everything parsed. -/
theorem get_parse_hgetall (r : Redis) (code : Option String) (b : Bucket) :
    (parseDailyCounts (r.hgetall code)).get b =
      if b.shortCode = code then (parseDailyCounts r.buckets).get b else none := by
  rw [get_parseDailyCounts, get_parseDailyCounts, get_hgetall]
  unfold Table.val
  rw [get_hgetall]
  by_cases hcode : b.shortCode = code
  · simp only [if_pos hcode]
  · simp only [if_neg hcode, ite_self]

theorem get_captureCounts (r : Redis) (scanned : List String) (b : Bucket) :
    (captureCounts r scanned).get b =
      if ∀ code ∈ b.shortCode, code ∈ scanned then (parseDailyCounts r.buckets).get b
      else none := by
  -- the scan generalised over what was read before
  have hscan : ∀ counts : Table Bucket Int,
      (scanned.foldl (fun counts code => counts.overlay (parseDailyCounts (r.hgetall (some code))))
        counts).get b = if ∃ code ∈ b.shortCode, code ∈ scanned
          then ((parseDailyCounts r.buckets).get b).or (counts.get b) else counts.get b := by
    induction scanned with
    | nil => intro counts; simp
    | cons code scanned ih =>
      intro counts
      rw [List.foldl_cons, ih, Table.get_overlay, get_parse_hgetall]
      cases hb : b.shortCode with
      | none => simp
      | some code' =>
        by_cases heq : code' = code
        · subst heq
          by_cases hmem : code' ∈ scanned <;> simp [hmem, ← Option.or_assoc]
        · simp [heq]
  unfold captureCounts
  rw [Table.get_overlay, get_parse_hgetall, hscan]
  cases hb : b.shortCode with
  | none => simp
  | some code => simp

/-- A capture of everything that `SCAN` yields reads every well-formed bucket. -/
theorem captureCounts_eq {r : Redis} {scanned : List String} (h : r.Scanned scanned) :
    captureCounts r scanned = parseDailyCounts r.buckets := by
  ext1 b
  rw [get_captureCounts]
  split
  · rfl
  · next hnot =>
    have hnone : r.buckets.get b = none :=
      Table.get_eq_none_iff.mpr fun hmem => hnot (h b hmem)
    rw [get_parseDailyCounts, hnone, ite_self]

namespace RedisSnapshot

theorem get_counts_global (s : RedisSnapshot) (d : NaiveDate) :
    s.counts.get (.global d) = s.globalDaily.get d := by
  unfold HashMap.get counts
  rw [assoc_append]
  have hglobal : assoc (s.globalDaily.entries.map fun e => (Bucket.global e.1, e.2)) (.global d) =
      assoc s.globalDaily.entries d := by
    induction s.globalDaily.entries with
    | nil => rfl
    | cons e l ih => simp [assoc_cons, ih]
  have hlinks : assoc (s.linkDaily.entries.map fun e => (Bucket.link e.1.1 e.1.2, e.2))
      (.global d) = none := by
    rw [assoc_eq_none_iff]
    simp
  rw [hglobal, hlinks, Option.or_none]

theorem get_counts_link (s : RedisSnapshot) (code : String) (d : NaiveDate) :
    s.counts.get (.link code d) = s.linkDaily.get (code, d) := by
  unfold HashMap.get counts
  rw [assoc_append]
  have hglobal : assoc (s.globalDaily.entries.map fun e => (Bucket.global e.1, e.2))
      (.link code d) = none := by
    rw [assoc_eq_none_iff]
    simp
  have hlinks : assoc (s.linkDaily.entries.map fun e => (Bucket.link e.1.1 e.1.2, e.2))
      (.link code d) = assoc s.linkDaily.entries (code, d) := by
    induction s.linkDaily.entries with
    | nil => rfl
    | cons e l ih => simp [assoc_cons, ih, Prod.ext_iff]
  rw [hglobal, hlinks, Option.none_or]

theorem HasCode.mem_codes {s : RedisSnapshot} {code : String} (h : s.HasCode code) :
    code ∈ s.codes := by
  obtain ⟨k, hk, rfl⟩ := h
  exact List.mem_dedup.mpr (List.mem_map_of_mem hk)

theorem hasCode_of_mem_codes {s : RedisSnapshot} {code : String} (h : code ∈ s.codes) :
    s.HasCode code := by
  obtain ⟨k, hk, rfl⟩ := List.mem_map.mp (List.mem_dedup.mp h)
  exact ⟨k, hk, rfl⟩

end RedisSnapshot

/-- A timestamp in a batch is the one Redis has for a code of the batch. -/
theorem mem_lastClickedAtBatch {r : Redis} {codes : List String} {l : List (String × DateTime)}
    (h : lastClickedAtBatch r codes = some l) {code : String} {t : DateTime} (hcodes : codes.Nodup) :
    (code, t) ∈ l ↔ code ∈ codes ∧
      (r.lastClickedAt.get code).bind DateTime.timestampMillisOpt = some t := by
  induction codes generalizing l with
  | nil =>
    obtain rfl := Option.some.inj h
    simp
  | cons c codes ih =>
    rw [List.nodup_cons] at hcodes
    unfold lastClickedAtBatch at h
    cases hms : r.lastClickedAt.get c with
    | none =>
      rw [hms] at h
      rw [ih h hcodes.2, List.mem_cons]
      constructor
      · rintro ⟨hmem, ht⟩
        exact ⟨Or.inr hmem, ht⟩
      · rintro ⟨rfl | hmem, ht⟩
        · simp [hms] at ht
        · exact ⟨hmem, ht⟩
    | some ms =>
      simp only [hms, Option.bind_eq_bind, Option.bind_eq_some_iff, Option.pure_def,
        Option.some.injEq] at h
      obtain ⟨at', hat, rest, hrest, rfl⟩ := h
      rw [List.mem_cons, ih hrest hcodes.2, List.mem_cons, Prod.mk.injEq]
      constructor
      · rintro (⟨rfl, rfl⟩ | ⟨hmem, ht⟩)
        · exact ⟨Or.inl rfl, by rw [hms]; exact hat⟩
        · exact ⟨Or.inr hmem, ht⟩
      · rintro ⟨rfl | hmem, ht⟩
        · rw [hms, Option.bind_some, hat] at ht
          exact Or.inl ⟨rfl, (Option.some.inj ht).symm⟩
        · exact Or.inr ⟨hmem, ht⟩

/-- A batch fails on a timestamp that `chrono` cannot represent, and on nothing else. -/
theorem isSome_lastClickedAtBatch_iff {r : Redis} {codes : List String} :
    (lastClickedAtBatch r codes).isSome = true ↔
      ∀ code ∈ codes, ∀ ms ∈ r.lastClickedAt.get code,
        (DateTime.timestampMillisOpt ms).isSome = true := by
  induction codes with
  | nil => simp [lastClickedAtBatch]
  | cons c codes ih =>
    rw [List.forall_mem_cons, ← ih, lastClickedAtBatch]
    cases r.lastClickedAt.get c with
    | none => simp
    | some ms =>
      cases hat : DateTime.timestampMillisOpt ms with
      | none => simp [hat]
      | some at' => cases lastClickedAtBatch r codes <;> simp [hat]

theorem nodup_lastClickedAtBatch {r : Redis} {codes : List String} {l : List (String × DateTime)}
    (h : lastClickedAtBatch r codes = some l) (hcodes : codes.Nodup) : l.Nodup := by
  have hsublist : (l.map Prod.fst).Sublist codes := by
    clear hcodes
    induction codes generalizing l with
    | nil =>
      obtain rfl := Option.some.inj h
      exact List.Sublist.slnil
    | cons c codes ih =>
      unfold lastClickedAtBatch at h
      cases hms : r.lastClickedAt.get c with
      | none =>
        rw [hms] at h
        exact (ih h).cons c
      | some ms =>
        simp only [hms, Option.bind_eq_bind, Option.bind_eq_some_iff, Option.pure_def,
          Option.some.injEq] at h
        obtain ⟨at', -, rest, hrest, rfl⟩ := h
        exact (ih hrest).cons_cons c
  exact (hsublist.nodup hcodes).of_map _

section Assembles

variable {s : RedisSnapshot} {counts : Table Bucket Int} {r : Redis} {cutoff : NaiveDate}

namespace RedisSnapshot.Assembles

theorem get_counts (h : s.Assembles counts r cutoff) (b : Bucket) :
    s.counts.get b = counts.get b := by
  rw [← h.1, HashMap.get_toTable]

/-- The timestamps of a snapshot are those of its codes. -/
theorem get_lastClickedAt (h : s.Assembles counts r cutoff) (code : String) :
    s.lastClickedAt.get code = if s.HasCode code then
      (r.lastClickedAt.get code).bind DateTime.timestampMillisOpt else none := by
  obtain ⟨l, hl, hperm⟩ := h.2.1
  have hmem : ∀ t, s.lastClickedAt.get code = some t ↔ s.HasCode code ∧
      (r.lastClickedAt.get code).bind DateTime.timestampMillisOpt = some t := by
    intro t
    rw [s.lastClickedAt.get_eq_some_iff, hperm.mem_iff,
      mem_lastClickedAtBatch hl (List.nodup_dedup _)]
    exact and_congr_left' ⟨hasCode_of_mem_codes, HasCode.mem_codes⟩
  refine Option.ext fun t => ?_
  rw [hmem t]
  by_cases hcode : s.HasCode code <;> simp [hcode]

/-- Two snapshots assembled from the same reads. -/
theorem same (h : s.Assembles counts r cutoff) {s' : RedisSnapshot} {cutoff' : NaiveDate}
    (h' : s'.Assembles counts r cutoff') : s.Same s' := by
  have hlink : s.linkDaily.Same s'.linkDaily := fun k => by
    rw [← s.get_counts_link, ← s'.get_counts_link, h.get_counts, h'.get_counts]
  refine ⟨fun d => ?_, hlink, fun code => ?_⟩
  · rw [← s.get_counts_global, ← s'.get_counts_global, h.get_counts, h'.get_counts]
  · have hcode : s.HasCode code ↔ s'.HasCode code := by
      unfold HasCode
      simp only [hlink.mem_keys]
    rw [h.get_lastClickedAt, h'.get_lastClickedAt]
    simp only [hcode]

end RedisSnapshot.Assembles

end Assembles

/-! ## What a call does -/

/-- What a call does to Redis when it runs. -/
def RedisCall.apply (r : Redis) : RedisCall → Redis
  | .hmax b value => { r with buckets := r.buckets.set b (hmaxValue (r.buckets.get b) value) }
  | .compareAndDelete _ _ => r

/-- A call that was lost leaves Redis alone, any other is applied. -/
theorem RedisCall.exec_redis (r : Redis) (reconciled : List Bucket) (call : RedisCall)
    (result : CallResult) :
    (call.exec r reconciled result).1 = if result = .lost then r else call.apply r := by
  cases call with
  | hmax b value =>
    obtain ⟨updated, heq⟩ := hmax_eq r b value
    cases result <;> simp [exec, apply, heq]
  | compareAndDelete b expectedValue =>
    simp only [exec, apply, compareAndDelete_eq]
    split <;> simp

end Kurl
