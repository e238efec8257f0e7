import Kurl.Analytics.CaptureSnapshot
import Kurl.Analytics.MergeWrapping

/-!
# Kurl — what one link's data can do to the others (`analytics/src/redis_persistence.rs`)

`capture_snapshot` reads the fields of a link leniently: a malformed one is left out. The last
clicks are read in one batch, which fails as a whole on a text that is no timestamp, and
`merge_snapshot` binds the days, codes and last clicks of all links to the same statements, so that
a value outside the types of Postgres, or a count for which a counter has no room, fails it for all.

So what one link's keys hold never changes what is captured (`sameBut_of_captured`) and committed
(`sameBut_of_merged`) for the others, but it can make the flush fail. A flush is a function of the
contents of Redis and of the tables (`Keyspace.flush`), and the others get theirs if and only if it
succeeds: `flushesOthers_iff` says for which contents that is.

That condition has three parts, all of them on the contents and the tables: the keys can be read
(`Readable`), days and last clicks are dates of Postgres and the codes texts of it (`Storable`), and
the counters have room (`MergeAccepted`). `lastClickOfA_blocks` is a last click before 4713 BC that
fails the flush for a link that is in order.
-/

namespace Kurl

open Lib

/-- The same contents but for the two keys of a code. -/
def Keyspace.SameBut (code : String) (k k' : Keyspace) : Prop :=
  ∀ key, key ≠ RedisKeys.linkStatsKey code → key ≠ RedisKeys.linkLastClickedAtKey code →
    k'.keys.get key = k.keys.get key

/-- The same answers but for the hash of a code. -/
structure Replies.SameBut (code : String) (r r' : Replies) : Prop where
  scanned : r'.scanned.filter (fun e => e.1 ≠ RedisKeys.linkStatsKey code) =
    r.scanned.filter fun e => e.1 ≠ RedisKeys.linkStatsKey code
  globalFields : r'.globalFields = r.globalFields

/-- The same snapshot but for a code. -/
structure RedisSnapshot.SameBut (code : String) (s s' : RedisSnapshot) : Prop where
  globalDaily : s'.globalDaily = s.globalDaily
  linkDaily : ∀ c ≠ code, ∀ day, s'.linkDaily.get (c, day) = s.linkDaily.get (c, day)
  lastClickedAt : ∀ c ≠ code, s'.lastClickedAt.get c = s.lastClickedAt.get c
  staleGlobal : s'.staleGlobal = s.staleGlobal
  staleLinks : ∀ c ≠ code, ∀ day, (c, day) ∈ s'.staleLinks ↔ (c, day) ∈ s.staleLinks

/-- The keys of a code are absent or well-formed. -/
structure Keyspace.WellFormedFor (k : Keyspace) (code : String) : Prop where
  fields : ∃ fields, k.hgetall (RedisKeys.linkStatsKey code) = some fields ∧
    ∀ field value, fields.get field = some value →
      (Snapshot.fieldEntry (field, value)).isSome = true
  lastClick : k.keys.get (RedisKeys.linkLastClickedAtKey code) = none ∨
    ∃ value, k.keys.get (RedisKeys.linkLastClickedAtKey code) = some (.string value) ∧
      (timestamp value).isSome = true

/-! ## The flush -/

/-- Postgres can take the values that a merge binds: days and instants from its first ones on, and
codes without NUL. The last clicks are bound only together with buckets of links. -/
def RedisSnapshot.Bindable (s : RedisSnapshot) : Prop :=
  (∀ day ∈ s.globalDaily.keys, Postgres.firstDay ≤ day) ∧
  (∀ k ∈ s.linkDaily.keys, Postgres.hasNul k.1 = false ∧ Postgres.firstDay ≤ k.2) ∧
  (s.linkDaily.isEmpty = true ∨ ∀ e ∈ s.lastClickedAt.entries,
    Postgres.hasNul e.1 = false ∧ Postgres.firstInstant ≤ e.2.nanos)

instance (s : RedisSnapshot) : Decidable s.Bindable :=
  inferInstanceAs (Decidable (_ ∧ _ ∧ (_ ∨ _)))

inductive FlushError where
  | capture (error : CaptureError)
  | database (error : DbError)
  deriving DecidableEq

/-- `Persistence::flush` as far as its commit: what it captured, and the tables after it. -/
def Keyspace.flush (now : DateTime) (k : Keyspace) (replies : Replies) (pg : Postgres) :
    Except FlushError (RedisSnapshot × Postgres) :=
  match k.captureSnapshot now replies with
  | .error error => .error (.capture error)
  | .ok s =>
    if s.Bindable then
      match mergeSnapshot pg s with
      | .error error => .error (.database error)
      | .ok (pg', _) => .ok (s, pg')
    else .error (.database .other)

/-- The same tables but for the rows of a code. -/
structure Postgres.SameBut (code : String) (pg pg' : Postgres) : Prop where
  links : ∀ c ≠ code, pg'.links.get c = pg.links.get c
  linkDailyClicks : ∀ c ≠ code, ∀ day,
    pg'.linkDailyClicks.get (c, day) = pg.linkDailyClicks.get (c, day)
  globalDailyClicks : pg'.globalDailyClicks = pg.globalDailyClicks
  totalClicks : pg'.totalClicks = pg.totalClicks

/-- The flush commits. For everything but this code it captures what it would capture if the keys of
the code were well-formed or absent, and commits what it would commit then. -/
def FlushesOthers (now : DateTime) (k : Keyspace) (replies : Replies) (pg : Postgres)
    (code : String) : Prop :=
  ∃ s pg', k.flush now replies pg = .ok (s, pg') ∧
    ∀ k' replies', k.SameBut code k' → k'.WellFormedFor code → k'.Answers replies' →
      replies.SameBut code replies' →
        ∃ s', k'.captureSnapshot now replies' = .ok s' ∧ s.SameBut code s' ∧
          ∀ pg'', k'.flush now replies' pg = .ok (s', pg'') → pg'.SameBut code pg''

/-! ## When the others get theirs -/

/-- The contents that Postgres can store: what is well-formed is also a value of its types. -/
structure Keyspace.Storable (k : Keyspace) : Prop where
  globalDays : ∀ day, k.HasDay RedisKeys.globalStatsKey day → Postgres.firstDay ≤ day
  linkDays : ∀ code day, k.HasDay (RedisKeys.linkStatsKey code) day →
    Postgres.hasNul code = false ∧ Postgres.firstDay ≤ day
  lastClicks : ∀ code, k.HasEntry code →
    ∀ value ∈ k.text (RedisKeys.linkLastClickedAtKey code), ∀ t ∈ timestamp value,
      Postgres.firstInstant ≤ t.nanos

/-- The well-formed counts among the answers, as a snapshot without last clicks. -/
def Replies.counts (replies : Replies) : RedisSnapshot where
  globalDaily := replies.globalFields.elim HashMap.empty fun fields =>
    (Snapshot.parseDailyCounts fields).1
  linkDaily := replies.linkDaily
  lastClickedAt := HashMap.empty
  staleGlobal := []
  staleLinks := []

section Isolation

variable {now : DateTime} {k k' : Keyspace} {replies replies' : Replies} {code c : String}
  {pg pg' : Postgres} {s s' : RedisSnapshot}

/-! ## The keys of the others -/

theorem Keyspace.SameBut.hgetall (h : k.SameBut code k') (hc : c ≠ code) :
    k'.hgetall (RedisKeys.linkStatsKey c) = k.hgetall (RedisKeys.linkStatsKey c) := by
  unfold Keyspace.hgetall
  rw [h _ (fun heq => hc (RedisKeys.linkStatsKey_inj heq))
    (RedisKeys.stats_keys_disjoint c code).2.2]

theorem Keyspace.SameBut.hgetall_global (h : k.SameBut code k') :
    k'.hgetall RedisKeys.globalStatsKey = k.hgetall RedisKeys.globalStatsKey := by
  obtain ⟨hlink, hlast, -⟩ := RedisKeys.stats_keys_disjoint code code
  unfold Keyspace.hgetall
  rw [h _ hlink.symm hlast.symm]

theorem Keyspace.SameBut.lastClick (h : k.SameBut code k') (hc : c ≠ code) :
    k'.keys.get (RedisKeys.linkLastClickedAtKey c) =
      k.keys.get (RedisKeys.linkLastClickedAtKey c) :=
  h _ (RedisKeys.stats_keys_disjoint code c).2.2.symm
    fun heq => hc (RedisKeys.linkLastClickedAtKey_inj heq)

theorem Keyspace.SameBut.text (h : k.SameBut code k') (hc : c ≠ code) :
    k'.text (RedisKeys.linkLastClickedAtKey c) = k.text (RedisKeys.linkLastClickedAtKey c) := by
  unfold Keyspace.text
  rw [h.lastClick hc]

theorem Keyspace.SameBut.isBinary (h : k.SameBut code k') (hc : c ≠ code) :
    k'.isBinary (RedisKeys.linkLastClickedAtKey c) =
      k.isBinary (RedisKeys.linkLastClickedAtKey c) := by
  unfold Keyspace.isBinary
  rw [h.lastClick hc]

theorem Keyspace.SameBut.hasEntry (h : k.SameBut code k') (hc : c ≠ code) :
    k'.HasEntry c ↔ k.HasEntry c := by
  unfold Keyspace.HasEntry
  rw [h.hgetall hc]

/-- Well-formed keys of one code keep the contents readable. -/
theorem Keyspace.Readable.of_sameBut (hk : k.Readable) (h : k.SameBut code k')
    (hcode : k'.WellFormedFor code) : k'.Readable := by
  refine ⟨fun c => ?_, ?_, fun c hentry => ?_, fun c hentry value hvalue => ?_⟩
  · by_cases hc : c = code
    · obtain ⟨fields, hfields, -⟩ := hcode.fields
      rw [hc, hfields]
      rfl
    · rw [h.hgetall hc]
      exact hk.links c
  · rw [h.hgetall_global]
    exact hk.globalKey
  · by_cases hc : c = code
    · subst hc
      unfold Keyspace.isBinary
      rcases hcode.lastClick with hnone | ⟨text, hsome, -⟩
      · rw [hnone]
      · rw [hsome]
    · rw [h.isBinary hc]
      exact hk.decodes c ((h.hasEntry hc).mp hentry)
  · by_cases hc : c = code
    · -- its fields may have become well-formed, so that its last click is read now
      subst hc
      unfold Keyspace.text at hvalue
      rcases hcode.lastClick with hnone | ⟨text, hsome, htimestamp⟩
      · rw [hnone] at hvalue
        cases hvalue
      · rw [hsome] at hvalue
        cases hvalue
        exact htimestamp
    · rw [h.text hc] at hvalue
      exact hk.timestamps c ((h.hasEntry hc).mp hentry) value hvalue

/-! ## What is captured for the others -/

/-- The entries of the other codes come from their keys. -/
theorem filter_linkEntries (code : String)
    (scanned : List (String × Option (HashMap String String))) :
    (scanned.flatMap linkEntries).filter (fun d => d.1.1 ≠ code) =
      (scanned.filter fun e => e.1 ≠ RedisKeys.linkStatsKey code).flatMap linkEntries := by
  induction scanned with
  | nil => rfl
  | cons e scanned ih =>
    rw [List.flatMap_cons, List.filter_append, ih, List.filter_cons]
    -- a key brings entries of its own code only
    have hcodes : ∀ d ∈ linkEntries e, e.1 = RedisKeys.linkStatsKey d.1.1 := fun d hd => by
      unfold linkEntries at hd
      split at hd
      · next c fields hc _ =>
        obtain ⟨entry, -, rfl⟩ := List.mem_map.mp hd
        exact RedisKeys.stripPrefix_linkStatsKey_iff.mp hc
      · cases hd
    by_cases hkey : e.1 = RedisKeys.linkStatsKey code
    · have hnil : (linkEntries e).filter (fun d => d.1.1 ≠ code) = [] := by
        rw [List.filter_eq_nil_iff]
        intro d hd
        simpa using RedisKeys.linkStatsKey_inj ((hcodes d hd).symm.trans hkey)
      rw [hnil, if_neg (by simpa using hkey), List.nil_append]
    · have hall : (linkEntries e).filter (fun d => d.1.1 ≠ code) = linkEntries e := by
        rw [List.filter_eq_self]
        intro d hd
        have hne : d.1.1 ≠ code := fun heq => hkey (heq ▸ hcodes d hd)
        simpa using hne
      rw [hall, if_pos (by simpa using hkey), List.flatMap_cons]

theorem Replies.SameBut.linkDaily (h : replies.SameBut code replies') (hc : c ≠ code)
    (day : NaiveDate) : replies'.linkDaily.get (c, day) = replies.linkDaily.get (c, day) := by
  have hothers : ∀ r : Replies, r.linkDaily.get (c, day) =
      assoc ((r.scanned.filter fun e => e.1 ≠ RedisKeys.linkStatsKey code).flatMap
        linkEntries).reverse (c, day) := fun r => by
    rw [Replies.linkDaily, HashMap.get_ofList, ← filter_linkEntries, ← List.filter_reverse]
    exact (assoc_filter_of_pos fun e he => by simp [he, hc]).symm
  rw [hothers, hothers, h.scanned]

theorem mem_staleLinkFields {daily : HashMap (String × NaiveDate) Int} {cutoff : NaiveDate}
    {key : String × NaiveDate} :
    key ∈ staleLinkFields daily cutoff ↔ (daily.get key).isSome = true ∧ key.2 < cutoff := by
  rw [staleLinkFields, List.mem_filter, daily.isSome_get_iff, decide_eq_true_iff]

/-- **Two captures that differ in the keys of one code** agree on everything else. -/
theorem sameBut_of_captured (hanswers : k.Answers replies) (hanswers' : k'.Answers replies')
    (hk : k.SameBut code k') (hreplies : replies.SameBut code replies')
    (hs : k.captureSnapshot now replies = .ok s) (hs' : k'.captureSnapshot now replies' = .ok s') :
    s.SameBut code s' := by
  obtain ⟨-, fields, lastClickedAt, hfields, hclicked, rfl⟩ := captureSnapshot_ok_iff.mp hs
  obtain ⟨-, fields', lastClickedAt', hfields', hclicked', rfl⟩ := captureSnapshot_ok_iff.mp hs'
  obtain rfl : fields = fields' :=
    Option.some.inj (hfields.symm.trans (hreplies.globalFields.symm.trans hfields'))
  refine ⟨rfl, fun c hc day => hreplies.linkDaily hc day, fun c hc => ?_, rfl, fun c hc day => ?_⟩
  · show lastClickedAt'.get c = lastClickedAt.get c
    -- both batches ask for `c`, or neither does: the codes come from the fields
    have hcodes : c ∈ replies'.order (linkCodes replies'.linkDaily) ↔
        c ∈ replies.order (linkCodes replies.linkDaily) := by
      rw [(hanswers.order _).mem_iff, (hanswers'.order _).mem_iff, mem_linkCodes_iff hanswers,
        mem_linkCodes_iff hanswers', hk.hasEntry hc]
    rw [get_lastClickedAtBatch hclicked, get_lastClickedAtBatch hclicked', hk.text hc]
    simp only [hcodes]
  · rw [mem_staleLinkFields, mem_staleLinkFields, hreplies.linkDaily hc]

/-! ## What is committed for the others -/

theorem RedisSnapshot.SameBut.hasCode (h : s.SameBut code s') (hc : c ≠ code) :
    s'.HasCode c ↔ s.HasCode c := by
  have hiff : ∀ day, (c, day) ∈ s'.linkDaily.keys ↔ (c, day) ∈ s.linkDaily.keys := fun day => by
    rw [← HashMap.isSome_get_iff, ← HashMap.isSome_get_iff, h.linkDaily c hc]
  constructor
  · rintro ⟨⟨_, day⟩, hday, rfl⟩
    exact ⟨_, (hiff day).mp hday, rfl⟩
  · rintro ⟨⟨_, day⟩, hday, rfl⟩
    exact ⟨_, (hiff day).mpr hday, rfl⟩

theorem RedisSnapshot.SameBut.get_mergeMax (h : s.SameBut code s') (pg : Postgres)
    (hc : c ≠ code) (day : NaiveDate) :
    (pg.linkDailyClicks.mergeMax (liveLinkDaily pg s')).get (c, day) =
      (pg.linkDailyClicks.mergeMax (liveLinkDaily pg s)).get (c, day) := by
  simp only [Table.get_mergeMax, liveLinkDaily, HashMap.get_filterKeys, h.linkDaily c hc]

theorem RedisSnapshot.SameBut.linkGrowth (h : s.SameBut code s') (pg : Postgres) (hc : c ≠ code) :
    linkGrowth pg s' c = linkGrowth pg s c := by
  unfold Kurl.linkGrowth
  congr 1
  refine Table.sumWhere_congr fun k hk => ?_
  obtain ⟨c', day⟩ := k
  obtain rfl : c' = c := hk
  unfold Table.val
  rw [h.get_mergeMax pg hc day]

/-- A snapshot has last clicks of the codes that have buckets in it. -/
def RedisSnapshot.LastClicksOfBuckets (s : RedisSnapshot) : Prop :=
  ∀ c, ¬ s.HasCode c → s.lastClickedAt.get c = none

theorem lastClicksOfBuckets_of_captured (hanswers : k.Answers replies)
    (hs : k.captureSnapshot now replies = .ok s) : s.LastClicksOfBuckets := by
  obtain ⟨-, fields, lastClickedAt, -, hclicked, rfl⟩ := captureSnapshot_ok_iff.mp hs
  intro c hnot
  show lastClickedAt.get c = none
  rw [get_lastClickedAtBatch hclicked, if_neg]
  intro hmem
  rw [(hanswers.order _).mem_iff, linkCodes, List.mem_dedup, List.mem_map] at hmem
  exact hnot hmem

/-- The row of a link after a merge, also where no bucket of a link was captured. -/
theorem get_links_merge (hs : s.LastClicksOfBuckets) (pg : Postgres) (c : String) :
    (pg.mergedWrapping s).links.get c = (pg.links.get c).map fun row =>
      bumpRow row (incomingDelta (if s.HasCode c then some (wrapI64 (linkGrowth pg s c)) else none)
        (s.lastClickedAt.get c)) := by
  unfold Postgres.mergedWrapping
  by_cases hempty : s.linkDaily.isEmpty = true
  · have hnot := s.not_hasCode hempty c
    simp only [hempty, if_true, if_neg hnot, hs c hnot]
    cases pg.links.get c <;> rfl
  · simp only [hempty, Bool.false_eq_true, if_false]
    rw [Table.get_mapRows]

/-- **Two merges that differ in one code** agree on the rows of everything else. -/
theorem sameBut_of_merged (h : s.SameBut code s') (hs : s.LastClicksOfBuckets)
    (hs' : s'.LastClicksOfBuckets) (pg : Postgres) :
    (pg.mergedWrapping s).SameBut code (pg.mergedWrapping s') := by
  have hglobal : pg.globalDailyClicks.mergeMax s'.globalDaily =
      pg.globalDailyClicks.mergeMax s.globalDaily := by rw [h.globalDaily]
  refine ⟨fun c hc => ?_, fun c hc day => h.get_mergeMax pg hc day, hglobal, ?_⟩
  · rw [get_links_merge hs, get_links_merge hs', h.linkGrowth pg hc, h.lastClickedAt c hc]
    simp only [h.hasCode hc]
  · show pg.totalClicks + max (wrapI64 (globalGrowth pg s')) 0 = _
    unfold globalGrowth
    rw [hglobal]
    rfl

/-! ## When the flush succeeds -/

theorem flush_ok_iff : k.flush now replies pg = .ok (s, pg') ↔
    k.captureSnapshot now replies = .ok s ∧ s.Bindable ∧
      ∃ outcome, mergeSnapshot pg s = .ok (pg', outcome) := by
  unfold Keyspace.flush
  cases hcapture : k.captureSnapshot now replies with
  | error e => simp
  | ok s₁ =>
    by_cases hbindable : s₁.Bindable
    · cases hmerge : mergeSnapshot pg s₁ with
      | error e =>
        simp only [hmerge, if_pos hbindable]
        exact ⟨fun h => (by cases h), fun ⟨hs, _, _, h⟩ => by
          rw [← Except.ok.inj hs, hmerge] at h
          cases h⟩
      | ok result =>
        obtain ⟨pg₁, outcome₁⟩ := result
        simp only [hmerge, if_pos hbindable, Except.ok.injEq, Prod.mk.injEq]
        constructor
        · rintro ⟨rfl, rfl⟩
          exact ⟨rfl, hbindable, outcome₁, hmerge⟩
        · rintro ⟨rfl, -, outcome, h⟩
          rw [hmerge] at h
          exact ⟨rfl, (Prod.mk.inj (Except.ok.inj h)).1⟩
    · simp only [if_neg hbindable]
      exact ⟨fun h => (by cases h), fun ⟨hs, h, _⟩ => absurd (Except.ok.inj hs ▸ h) hbindable⟩

/-- **The values of a capture can be bound** if the well-formed contents can be stored. -/
theorem bindable_iff (hanswers : k.Answers replies) (hs : k.captureSnapshot now replies = .ok s) :
    s.Bindable ↔ k.Storable := by
  obtain ⟨-, fields, lastClickedAt, hfields, hclicked, rfl⟩ := captureSnapshot_ok_iff.mp hs
  have hglobal : ∀ day, day ∈ (Snapshot.parseDailyCounts fields).1.keys ↔
      k.HasDay RedisKeys.globalStatsKey day := fun day => by
    have hanswer := hanswers.hgetallGlobal
    rw [hfields] at hanswer
    exact (Keyspace.hasDay_iff hanswer.symm).symm
  have hcodes : ∀ code, code ∈ replies.order (linkCodes replies.linkDaily) ↔ k.HasEntry code :=
    fun code => by rw [(hanswers.order _).mem_iff, mem_linkCodes_iff hanswers]
  -- a last click that was captured, and its text
  have hclicks : ∀ e, e ∈ lastClickedAt.entries ↔ k.HasEntry e.1 ∧
      ∃ value ∈ k.text (RedisKeys.linkLastClickedAtKey e.1), timestamp value = some e.2 := by
    rintro ⟨code, t⟩
    rw [← HashMap.get_eq_some_iff, get_lastClickedAtBatch hclicked]
    by_cases hcode : k.HasEntry code
    · rw [if_pos ((hcodes code).mpr hcode), Option.bind_eq_some_iff]
      exact ⟨fun h => ⟨hcode, h⟩, fun h => h.2⟩
    · rw [if_neg fun h => hcode ((hcodes code).mp h)]
      exact ⟨fun h => (by cases h), fun h => absurd h.1 hcode⟩
  constructor
  · rintro ⟨hglobalDays, hlinkDays, hlast⟩
    refine ⟨fun day hday => hglobalDays day ((hglobal day).mpr hday), fun code day hday =>
      hlinkDays (code, day) ((mem_keys_linkDaily_iff hanswers).mpr hday),
      fun code hentry value hvalue t ht => ?_⟩
    rcases hlast with hempty | hlast
    · -- a code with an entry has a bucket
      obtain ⟨day, hday⟩ := Keyspace.hasEntry_iff_hasDay.mp hentry
      have hmem := (mem_keys_linkDaily_iff hanswers).mpr hday
      have hnone : replies.linkDaily = HashMap.empty := HashMap.eq_empty hempty
      rw [hnone] at hmem
      cases hmem
    · exact (hlast (code, t) ((hclicks _).mpr ⟨hentry, value, hvalue, ht⟩)).2
  · intro hstorable
    refine ⟨fun day hday => hstorable.globalDays day ((hglobal day).mp hday), fun key hkey =>
      hstorable.linkDays key.1 key.2 ((mem_keys_linkDaily_iff hanswers).mp hkey),
      .inr fun e he => ?_⟩
    obtain ⟨hentry, value, hvalue, ht⟩ := (hclicks e).mp he
    obtain ⟨day, hday⟩ := Keyspace.hasEntry_iff_hasDay.mp hentry
    exact ⟨(hstorable.linkDays e.1 day hday).1, hstorable.lastClicks e.1 hentry value hvalue e.2 ht⟩

/-- The counts of a capture are those of the answers. -/
theorem counts_of_captured (hs : k.captureSnapshot now replies = .ok s) :
    s.globalDaily = replies.counts.globalDaily ∧ s.linkDaily = replies.counts.linkDaily := by
  obtain ⟨-, fields, lastClickedAt, hfields, -, rfl⟩ := captureSnapshot_ok_iff.mp hs
  refine ⟨?_, rfl⟩
  unfold Replies.counts
  rw [hfields]
  rfl

/-- Whether a merge is accepted is up to the counts. -/
theorem mergeAccepted_congr (hglobal : s.globalDaily = s'.globalDaily)
    (hlinks : s.linkDaily = s'.linkDaily) : MergeAccepted pg s ↔ MergeAccepted pg s' := by
  have hgrow : globalGrowth pg s = globalGrowth pg s' := by
    unfold globalGrowth
    rw [hglobal]
  have hgrowLink : ∀ c, linkGrowth pg s c = linkGrowth pg s' c := fun c => by
    unfold linkGrowth liveLinkDaily
    rw [hlinks]
  constructor
  · rintro ⟨htotal, hcount⟩
    exact ⟨hgrow ▸ htotal, fun c row hrow => hgrowLink c ▸ hcount c row hrow⟩
  · rintro ⟨htotal, hcount⟩
    exact ⟨hgrow ▸ htotal, fun c row hrow => hgrowLink c ▸ hcount c row hrow⟩

theorem nonNegative_of_captured (hs : k.captureSnapshot now replies = .ok s) : s.NonNegative := by
  obtain ⟨-, fields, lastClickedAt, -, -, rfl⟩ := captureSnapshot_ok_iff.mp hs
  refine ⟨Snapshot.parseDailyCounts_nonneg, fun e he => ?_⟩
  have hget := (HashMap.get_eq_some_iff _).mpr he
  rw [Replies.linkDaily, HashMap.get_ofList] at hget
  obtain ⟨fields', -, hday⟩ := mem_linkEntries.mp (List.mem_reverse.mp (mem_of_assoc hget))
  exact Snapshot.parseDailyCounts_nonneg _ ((HashMap.get_eq_some_iff _).mp hday)

/-- **Bad data of one link blocks the others exactly if it fails the flush.** For every content of
Redis, all tables and every code: the flush commits, and captures and commits for the other codes
and the global buckets what it would if the keys of the code were well-formed or absent, if and only
if the contents can be read and stored and every counter has room for what the counts add to it. -/
theorem flushesOthers_iff (now : DateTime) (hpg : pg.NonNegative) (hrange : pg.InRange)
    (hanswers : k.Answers replies) (code : String) :
    FlushesOthers now k replies pg code ↔
      k.Readable ∧ k.Storable ∧ MergeAccepted pg replies.counts := by
  constructor
  · rintro ⟨s, pg', hflush, -⟩
    obtain ⟨hs, hbindable, outcome, hmerge⟩ := flush_ok_iff.mp hflush
    have hnonneg := nonNegative_of_captured hs
    obtain ⟨hglobal, hlinks⟩ := counts_of_captured hs
    obtain ⟨rfl, -⟩ := mergeSnapshot_ok hpg hnonneg hmerge
    refine ⟨(captureSnapshot_isOk_iff now hanswers).mp ⟨s, hs⟩,
      (bindable_iff hanswers hs).mp hbindable, (mergeAccepted_congr hglobal hlinks).mp ?_⟩
    exact (mergeSnapshot_accepted_iff hpg hrange hnonneg).mp ⟨outcome, hmerge⟩
  · rintro ⟨hreadable, hstorable, haccepted⟩
    obtain ⟨s, hs⟩ := (captureSnapshot_isOk_iff now hanswers).mpr hreadable
    have hnonneg := nonNegative_of_captured hs
    obtain ⟨hglobal, hlinks⟩ := counts_of_captured hs
    obtain ⟨outcome, hmerge⟩ := (mergeSnapshot_accepted_iff hpg hrange hnonneg).mpr
      ((mergeAccepted_congr hglobal hlinks).mpr haccepted)
    refine ⟨s, _, flush_ok_iff.mpr ⟨hs, (bindable_iff hanswers hs).mpr hstorable, outcome, hmerge⟩,
      fun k' replies' hk hcode hanswers' hreplies => ?_⟩
    -- the capture of the other contents
    obtain ⟨s', hs'⟩ :=
      (captureSnapshot_isOk_iff now hanswers').mpr (hreadable.of_sameBut hk hcode)
    have hsame := sameBut_of_captured hanswers hanswers' hk hreplies hs hs'
    refine ⟨s', hs', hsame, fun pg'' hflush => ?_⟩
    -- and its merge, if it commits
    obtain ⟨-, -, outcome', hmerge'⟩ := flush_ok_iff.mp hflush
    obtain ⟨rfl, -⟩ := mergeSnapshot_ok hpg (nonNegative_of_captured hs') hmerge'
    exact sameBut_of_merged hsame (lastClicksOfBuckets_of_captured hanswers hs)
      (lastClicksOfBuckets_of_captured hanswers' hs') pg

end Isolation

/-- Two links with one click each, and a text as the last click of `a`. -/
def lastClickOfA (text : String) : Keyspace where
  entries := []
  pel := []
  keys := ((Table.empty.set (RedisKeys.linkStatsKey "a")
    (.hash (Table.empty.set "2024-01-05" "1"))).set (RedisKeys.linkStatsKey "b")
      (.hash (Table.empty.set "2024-01-05" "1"))).set (RedisKeys.linkLastClickedAtKey "a")
        (.string text)

def repliesOfTwo : Replies where
  scanned :=
    [(RedisKeys.linkStatsKey "a", some (HashMap.empty.insert "2024-01-05" "1")),
      (RedisKeys.linkStatsKey "b", some (HashMap.empty.insert "2024-01-05" "1"))]
  globalFields := some HashMap.empty
  order codes := codes

theorem answers_lastClickOfA {text : String}
    (h : text = "x" ∨ text = "-300000000000000" ∨ text = "5") :
    (lastClickOfA text).Answers repliesOfTwo where
  matching := by rcases h with rfl | rfl | rfl <;> decide
  complete := by rcases h with rfl | rfl | rfl <;> decide
  hgetall := by rcases h with rfl | rfl | rfl <;> decide
  hgetallGlobal := by rcases h with rfl | rfl | rfl <;> decide
  order _ := List.Perm.refl _

/-- The rows of both links, without a click. -/
def rowsOfTwo : Postgres :=
  { Postgres.empty with
    links := (Table.empty.set "a" (Postgres.newLink "https://example.org/a" none)).set "b"
      (Postgres.newLink "https://example.org/b" none) }

/-- One text fails the capture, and one in the year -7537 the merge, so nothing is committed for
`b`; with a last click that can be stored its click is. -/
theorem lastClickOfA_blocks :
    (lastClickOfA "x").flush DateTime.unixEpoch repliesOfTwo rowsOfTwo =
        .error (.capture (.invalidTimestamp "a" "x")) ∧
      (lastClickOfA "-300000000000000").flush DateTime.unixEpoch repliesOfTwo rowsOfTwo =
        .error (.database .other) ∧
      (∀ text, text = "x" ∨ text = "-300000000000000" → ¬ FlushesOthers DateTime.unixEpoch
        (lastClickOfA text) repliesOfTwo rowsOfTwo "a") ∧
      ((lastClickOfA "5").flush DateTime.unixEpoch repliesOfTwo rowsOfTwo).toOption.any
        (fun r => (r.2.links.get "b").any fun row => row.clickCount = 1) = true := by
  have hcapture : (lastClickOfA "x").flush DateTime.unixEpoch repliesOfTwo rowsOfTwo =
      .error (.capture (.invalidTimestamp "a" "x")) := by decide
  have hmerge : (lastClickOfA "-300000000000000").flush DateTime.unixEpoch repliesOfTwo
      rowsOfTwo = .error (.database .other) := by decide
  refine ⟨hcapture, hmerge, fun text htext => ?_, by decide⟩
  rintro ⟨s, pg', hflush, -⟩
  rcases htext with rfl | rfl
  · rw [hcapture] at hflush
    cases hflush
  · rw [hmerge] at hflush
    cases hflush

theorem rowsOfTwo_clickCount {c : String} {row : LinkRow} (h : rowsOfTwo.links.get c = some row) :
    row.clickCount = 0 := by
  have hall : ∀ k ∈ rowsOfTwo.links.keys,
      (rowsOfTwo.links.get k).all (fun r => decide (r.clickCount = 0)) = true := by decide
  exact of_decide_eq_true (Table.forall_rows (p := fun _ r => decide (r.clickCount = 0)) hall h)

theorem rowsOfTwo_nonNegative : rowsOfTwo.NonNegative where
  globalDailyClicks _ := le_refl _
  linkDailyClicks _ := le_refl _
  clickCount _ _ hrow := (rowsOfTwo_clickCount hrow).ge
  totalClicks := le_refl _

theorem rowsOfTwo_inRange : rowsOfTwo.InRange where
  clickCount _ _ hrow := by
    rw [rowsOfTwo_clickCount hrow]
    decide
  totalClicks := by decide

theorem flushesOthers_iff_lastClickOfA :
    FlushesOthers DateTime.unixEpoch (lastClickOfA "5") repliesOfTwo rowsOfTwo "a" := by
  have hanswers : (lastClickOfA "5").Answers repliesOfTwo := answers_lastClickOfA (.inr (.inr rfl))
  rw [flushesOthers_iff DateTime.unixEpoch rowsOfTwo_nonNegative rowsOfTwo_inRange hanswers]
  -- the flush of these contents, which commits
  obtain ⟨⟨s, pg'⟩, hflush⟩ : ∃ r,
      (lastClickOfA "5").flush DateTime.unixEpoch repliesOfTwo rowsOfTwo = .ok r := by
    have hok : ((lastClickOfA "5").flush DateTime.unixEpoch repliesOfTwo rowsOfTwo).isOk = true := by
      decide
    cases hresult : (lastClickOfA "5").flush DateTime.unixEpoch repliesOfTwo rowsOfTwo with
    | ok r => exact ⟨r, rfl⟩
    | error e =>
      rw [hresult] at hok
      cases hok
  obtain ⟨hs, hbindable, -⟩ := flush_ok_iff.mp hflush
  refine ⟨(captureSnapshot_isOk_iff DateTime.unixEpoch hanswers).mp ⟨s, hs⟩,
    (bindable_iff hanswers hs).mp hbindable, by decide, fun c row hrow => ?_⟩
  have hall : ∀ k ∈ rowsOfTwo.links.keys, (rowsOfTwo.links.get k).all (fun r => decide
      (r.clickCount + max (wrapI64 (linkGrowth rowsOfTwo repliesOfTwo.counts k)) 0 ≤ i64Max)) =
        true := by decide
  exact of_decide_eq_true (Table.forall_rows (p := fun k r => decide
    (r.clickCount + max (wrapI64 (linkGrowth rowsOfTwo repliesOfTwo.counts k)) 0 ≤ i64Max))
      hall hrow)

end Kurl
