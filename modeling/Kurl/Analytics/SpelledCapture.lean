import Kurl.Analytics.CaptureSnapshot
import Kurl.Analytics.Spelling

/-!
# Kurl — a capture of texts is a capture of counters (`analytics/src/redis_persistence.rs`)

A flush over `Redis` reads the integers of one hash after the other and assembles a snapshot from
them (`RedisSnapshot.Assembles`). `capture_snapshot` on the texts of these integers returns such a
snapshot (`assembles_of_captured`), and it succeeds exactly if there is one
(`captureSnapshot_isOk_iff_assembles`): a timestamp that `chrono` cannot represent fails both.

This ties the two models of Redis together on the side of the reads, as `Kurl.Analytics.Spelling`
does for the scripts. The fields of a hash go first (`HashSpells.get_parseDailyCounts`: parsing the
texts of a hash gives its counts back), then the keys that `SCAN` finds, then the last clicks that
`MGET` reads.
-/

namespace Kurl

open Lib

/-- The codes of the keys that were scanned, in the order of the scan. -/
def Replies.codes (replies : Replies) : List String :=
  replies.scanned.filterMap fun e => RedisKeys.stripPrefix (RedisKeys.linkStatsKey "") e.1

/-! ## The fields of a hash -/

section Fields

variable {counts : NaiveDate → Option Int}

theorem fieldEntry_format {day : NaiveDate} (hday : NaiveDate.Valid day) {n : Int} (hn : InI64 n)
    {day' : NaiveDate} {clicks : Int} :
    Snapshot.fieldEntry (NaiveDate.format day, toString n) = some (day', clicks) ↔
      day' = day ∧ clicks = n ∧ 0 ≤ n := by
  rw [Snapshot.fieldEntry_eq_some_iff, NaiveDate.parseFromStr_format hday, parseI64_toString hn,
    Option.some.injEq, Option.some.injEq]
  constructor
  · rintro ⟨rfl, rfl, hnonneg⟩
    exact ⟨rfl, rfl, hnonneg⟩
  · rintro ⟨rfl, rfl, hnonneg⟩
    exact ⟨rfl, rfl, hnonneg⟩

/-- **The texts of counts are parsed to the counts** that are not negative. -/
theorem HashSpells.get_parseDailyCounts {fields : HashMap String String}
    (h : HashSpells fields.toTable counts) (day : NaiveDate) :
    (Snapshot.parseDailyCounts fields).1.get day = (counts day).filter fun n => 0 ≤ n := by
  -- a field that has an entry for a day is the text of the day
  have hfield : ∀ e ∈ fields.entries, ∀ day clicks, Snapshot.fieldEntry e = some (day, clicks) →
      e.1 = NaiveDate.format day ∧ counts day = some clicks ∧ 0 ≤ clicks := by
    intro e he day clicks hentry
    obtain ⟨day', n, hn, htext, hvalue⟩ :=
      (h.field e.1 e.2).mp ((fields.get_eq_some_iff).mpr he)
    obtain ⟨hvalid, hrange⟩ := h.valid day' n hn
    have hpair : e = (NaiveDate.format day', toString n) := Prod.ext htext hvalue
    rw [hpair] at hentry ⊢
    obtain ⟨rfl, rfl, hnonneg⟩ := (fieldEntry_format hvalid hrange).mp hentry
    exact ⟨rfl, hn, hnonneg⟩
  have hdistinct : Snapshot.DistinctDays fields := by
    intro e he e' he' day hwell hwell'
    obtain ⟨clicks, hentry⟩ := Snapshot.wellFormedOn_iff.mp hwell
    obtain ⟨clicks', hentry'⟩ := Snapshot.wellFormedOn_iff.mp hwell'
    refine List.inj_on_of_nodup_map fields.nodup he he' ?_
    rw [(hfield e he _ _ hentry).1, (hfield e' he' _ _ hentry').1]
  ext clicks
  rw [Snapshot.get_parseDailyCounts_iff hdistinct, Option.filter_eq_some_iff, decide_eq_true_iff]
  constructor
  · rintro ⟨e, he, hentry⟩
    exact (hfield e he _ _ hentry).2
  · rintro ⟨hcount, hnonneg⟩
    obtain ⟨hvalid, hrange⟩ := h.valid day clicks hcount
    refine ⟨(NaiveDate.format day, toString clicks), ?_,
      (fieldEntry_format hvalid hrange).mpr ⟨rfl, rfl, hnonneg⟩⟩
    exact (fields.get_eq_some_iff).mp ((h.field _ _).mpr ⟨day, clicks, hcount, rfl, rfl⟩)

end Fields

/-! ## The capture -/

section Capture

variable {now : DateTime} {k : Keyspace} {r : Redis} {replies : Replies} {code : String}

/-- The counts of a link. -/
theorem Keyspace.Spells.linkHash (h : k.Spells r) (code : String) :
    ∃ fields, k.hgetall (RedisKeys.linkStatsKey code) = some fields ∧
      HashSpells fields fun day => r.buckets.get (.link code day) :=
  h.hash (some code)

theorem Keyspace.Spells.text (h : k.Spells r) (code : String) :
    k.text (RedisKeys.linkLastClickedAtKey code) = (r.lastClickedAt.get code).map toString := by
  unfold Keyspace.text
  rw [h.lastClick]
  cases r.lastClickedAt.get code <;> rfl

/-- The text of a timestamp is read as it is. -/
theorem timestamp_of_inI64 {ts : Int} (hts : InI64 ts) :
    timestamp (toString ts) = DateTime.timestampMillisOpt ts := by
  rw [timestamp, parseI64_toString hts, Option.bind_some]

/-- A link with a bucket is scanned. -/
theorem Keyspace.Spells.scanned (h : k.Spells r) (hanswers : k.Answers replies)
    {day : NaiveDate} {n : Int} (hn : r.buckets.get (.link code day) = some n) :
    ∃ m, (RedisKeys.linkStatsKey code, some m) ∈ replies.scanned := by
  obtain ⟨fields, hfields, hspells⟩ := h.linkHash code
  obtain ⟨m, hm, -⟩ := scanned_of_field hanswers hfields
    ((hspells.field _ _).mpr ⟨day, n, hn, rfl, rfl⟩)
  exact ⟨m, hm⟩

theorem Keyspace.Spells.scanned_codes (h : k.Spells r) (hanswers : k.Answers replies) :
    r.Scanned replies.codes := by
  intro b hb code hcode
  cases b with
  | global day => cases hcode
  | link code' day =>
    obtain rfl : code' = code := Option.some.inj hcode
    obtain ⟨n, hn⟩ := Option.isSome_iff_exists.mp ((r.buckets.mem_keys _).mp hb)
    obtain ⟨m, hm⟩ := h.scanned hanswers hn
    exact List.mem_filterMap.mpr ⟨_, hm, RedisKeys.stripPrefix_linkStatsKey_iff.mpr rfl⟩

/-- The counts of the links that are read from the texts. -/
theorem Keyspace.Spells.get_linkDaily (h : k.Spells r) (hanswers : k.Answers replies)
    (code : String) (day : NaiveDate) : replies.linkDaily.get (code, day) =
      (r.buckets.get (.link code day)).filter fun n => 0 ≤ n := by
  refine Replies.get_linkDaily
    (fun code day => (r.buckets.get (.link code day)).filter fun n => 0 ≤ n) ?_ ?_ code day
  · intro code fields hmem day
    obtain ⟨fields', hfields', hspells⟩ := h.linkHash code
    obtain rfl := Option.some.inj ((hgetall_of_scanned hanswers hmem).symm.trans hfields')
    exact hspells.get_parseDailyCounts day
  · intro code day clicks hcount
    exact h.scanned hanswers (Option.filter_eq_some_iff.mp hcount).1

/-- A well-formed count, as an integer and as a text that was parsed. -/
theorem Keyspace.Spells.get_parse (h : k.Spells r) (b : Bucket) :
    (parseDailyCounts r.buckets).get b = (r.buckets.get b).filter fun n => 0 ≤ n := by
  rw [get_parseDailyCounts]
  unfold Table.val
  cases hget : r.buckets.get b with
  | none => simp
  | some n =>
    have hrange : n ≤ i64Max := by
      cases b with
      | global day =>
        obtain ⟨fields, -, hspells⟩ := h.hash none
        exact (hspells.valid day n hget).2.2
      | link code day =>
        obtain ⟨fields, -, hspells⟩ := h.linkHash code
        exact (hspells.valid day n hget).2.2
    by_cases hnonneg : 0 ≤ n <;> simp [Option.filter, hnonneg, hrange]

/-- A code has a well-formed field if it has a bucket that is not negative. -/
theorem Keyspace.Spells.hasEntry_iff (h : k.Spells r) : k.HasEntry code ↔
    ∃ day n, r.buckets.get (.link code day) = some n ∧ 0 ≤ n := by
  obtain ⟨fields, hfields, hspells⟩ := h.linkHash code
  constructor
  · rintro ⟨fields', hfields', field, value, hfield, hsome⟩
    obtain rfl := Option.some.inj (hfields.symm.trans hfields')
    obtain ⟨day, n, hn, rfl, rfl⟩ := (hspells.field field value).mp hfield
    obtain ⟨hvalid, hrange⟩ := hspells.valid day n hn
    obtain ⟨⟨day', clicks⟩, hentry⟩ := Option.isSome_iff_exists.mp hsome
    exact ⟨day, n, hn, ((fieldEntry_format hvalid hrange).mp hentry).2.2⟩
  · rintro ⟨day, n, hn, hnonneg⟩
    obtain ⟨hvalid, hrange⟩ := hspells.valid day n hn
    refine ⟨fields, hfields, _, _, (hspells.field _ _).mpr ⟨day, n, hn, rfl, rfl⟩, ?_⟩
    rw [(fieldEntry_format hvalid hrange).mpr ⟨rfl, rfl, hnonneg⟩]
    rfl

/-- **The timestamps that are fetched as texts** are those of the integers, in any order of the
codes. -/
theorem exists_batch_of_spells (h : k.Spells r) {codes ordered : List String}
    (hperm : ordered.Perm codes) (hnodup : codes.Nodup) {m : HashMap String DateTime}
    (hm : k.lastClickedAtBatch ordered = .ok m) :
    ∃ l ∈ lastClickedAtBatch r codes, m.entries.Perm l := by
  have hbatch : (lastClickedAtBatch r codes).isSome = true := by
    rw [isSome_lastClickedAtBatch_iff]
    intro code hcode ms hms
    rw [← timestamp_of_inI64 (h.lastClick_mem code ms hms)]
    refine (lastClickedAtBatch_ok_iff.mp ⟨m, hm⟩).2 code (hperm.mem_iff.mpr hcode) (toString ms) ?_
    rw [h.text, hms]
    rfl
  have hread : ∀ code, (k.text (RedisKeys.linkLastClickedAtKey code)).bind timestamp =
      (r.lastClickedAt.get code).bind DateTime.timestampMillisOpt := by
    intro code
    rw [h.text]
    cases hts : r.lastClickedAt.get code with
    | none => rfl
    | some ts => exact timestamp_of_inI64 (h.lastClick_mem code ts hts)
  obtain ⟨l, hl⟩ := Option.isSome_iff_exists.mp hbatch
  refine ⟨l, hl, (List.perm_ext_iff_of_nodup (m.nodup.of_map _)
    (nodup_lastClickedAtBatch hl hnodup)).mpr ?_⟩
  rintro ⟨code, t⟩
  rw [← HashMap.get_eq_some_iff, get_lastClickedAtBatch hm, mem_lastClickedAtBatch hl hnodup]
  by_cases hcode : code ∈ codes
  · rw [if_pos (hperm.mem_iff.mpr hcode), hread]
    exact ⟨fun ht => ⟨hcode, ht⟩, fun ht => ht.2⟩
  · rw [if_neg fun hmem => hcode (hperm.mem_iff.mp hmem)]
    exact ⟨fun ht => (by cases ht), fun ht => absurd ht.1 hcode⟩

/-- **What is captured from the texts** is assembled from the integers. -/
theorem assembles_of_captured (h : k.Spells r) (hanswers : k.Answers replies) {s : RedisSnapshot}
    (hs : k.captureSnapshot now replies = .ok s) :
    s.Assembles (captureCounts r replies.codes) r (staleCutoff now) := by
  have hlinks := h.get_linkDaily hanswers
  obtain ⟨-, fields, lastClickedAt, hfields, hclicked, rfl⟩ := captureSnapshot_ok_iff.mp hs
  refine ⟨?_, ?_, .refl _, .refl _⟩
  · rw [captureCounts_eq (h.scanned_codes hanswers)]
    ext1 b
    rw [HashMap.get_toTable, h.get_parse]
    cases b with
    | global day =>
      obtain ⟨gfields, hgfields, hspells⟩ := h.hash none
      have hanswer := hanswers.hgetallGlobal
      rw [hfields, show k.hgetall RedisKeys.globalStatsKey = some gfields from hgfields] at hanswer
      obtain rfl := Option.some.inj hanswer
      rw [RedisSnapshot.get_counts_global]
      exact hspells.get_parseDailyCounts day
    | link code day =>
      rw [RedisSnapshot.get_counts_link]
      exact hlinks code day
  · exact exists_batch_of_spells h (hanswers.order _) (List.nodup_dedup _) hclicked

/-- **A capture of the texts succeeds** exactly if a snapshot can be assembled. -/
theorem captureSnapshot_isOk_iff_assembles (now : DateTime) (h : k.Spells r)
    (hanswers : k.Answers replies) : (∃ s, k.captureSnapshot now replies = .ok s) ↔
      ∃ s : RedisSnapshot, s.Assembles (captureCounts r replies.codes) r (staleCutoff now) := by
  constructor
  · rintro ⟨s, hs⟩
    exact ⟨s, assembles_of_captured h hanswers hs⟩
  · rintro ⟨s, hassembles⟩
    refine (captureSnapshot_isOk_iff now hanswers).mpr ⟨fun code => ?_, ?_, fun code _ => ?_, ?_⟩
    · obtain ⟨fields, hfields, -⟩ := h.linkHash code
      rw [hfields]
      rfl
    · obtain ⟨fields, hfields, -⟩ := h.hash none
      rw [show k.hgetall RedisKeys.globalStatsKey = some fields from hfields]
      rfl
    · unfold Keyspace.isBinary
      rw [h.lastClick]
      cases r.lastClickedAt.get code <;> rfl
    · intro code hentry value hvalue
      obtain ⟨day, n, hn, hnonneg⟩ := h.hasEntry_iff.mp hentry
      -- the bucket is in the snapshot, so the timestamp of its code was fetched
      have hcount : s.linkDaily.get (code, day) = some n := by
        rw [← s.get_counts_link, hassembles.get_counts,
          captureCounts_eq (h.scanned_codes hanswers), h.get_parse, hn]
        simp [Option.filter, hnonneg]
      have hcode : s.HasCode code :=
        ⟨(code, day), HashMap.mem_keys_of_mem ((HashMap.get_eq_some_iff _).mp hcount), rfl⟩
      obtain ⟨l, hl, -⟩ := hassembles.2.1
      have hbatch := isSome_lastClickedAtBatch_iff.mp (by rw [hl]; rfl) code hcode.mem_codes
      rw [h.text] at hvalue
      obtain ⟨ts, hts, rfl⟩ := Option.map_eq_some_iff.mp hvalue
      rw [timestamp_of_inI64 (h.lastClick_mem code ts hts)]
      exact hbatch ts hts

end Capture

end Kurl
