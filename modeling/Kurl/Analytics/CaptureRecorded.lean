import Kurl.Analytics.CaptureSnapshot
import Kurl.Analytics.Recorded

/-!
# Kurl — capturing what was recorded (`analytics/src/redis_persistence.rs`, `redis_stats.rs`)

The writer of the keys and fields is a script, their reader `capture_snapshot`. The two meet at
`Holds`, which says what the texts are after a run of clicks: `holds_of_recorded` is the writer's
half. Here is the reader's: the fields of a hash that counts clicks are parsed to their counts
(`get_parseDailyCounts_counted`), and the capture brings them all (`captures_of_holds`).

So a capture is the inverse of recording (`capture_recorded`), but for one thing: the script takes a
missing last click for zero, so that a link whose clicks are not after 1970-01-01T00:00:00 has none
(`epochClick_not_captured`).

`CapturesRecorded` is what the capture has to bring: of every day the number of clicks, of every
link and day likewise, the latest timestamp of every link, and nothing of any other code. The
events, the order in which `SCAN` and `HGETALL` answer and how often `SCAN` repeats a key are
arbitrary.
-/

namespace Kurl

open Lib

/-- The clicks of a day among these. -/
def clicksOn (events : List ClickEvent) (p : ClickEvent → Bool) (day : NaiveDate) : Int :=
  countWhere events fun e => p e && decide (e.atTime.dateNaive = day)

/-- A count that a map holds. -/
def capturedCount (n : Int) : Option Int := if n = 0 then none else some n

/-- The snapshot holds exactly the counts of these clicks and, of each code, the latest click if
it is after the epoch. -/
structure CapturesRecorded (events : List ClickEvent) (s : RedisSnapshot) : Prop where
  globalDaily : ∀ day, s.globalDaily.get day = capturedCount (clicksOn events (fun _ => true) day)
  linkDaily : ∀ code day, s.linkDaily.get (code, day) =
    capturedCount (clicksOn events (fun e => e.shortCode = code) day)
  lastClickedAt : ∀ code, s.lastClickedAt.get code =
    ((lastMillis events code).filter fun ts => 0 < ts).bind DateTime.timestampMillisOpt

/-! ## The fields of a hash -/

section Fields

variable {events : List ClickEvent} {p : ClickEvent → Bool} {event : ClickEvent}

theorem capturedCount_eq_some {n m : Int} : capturedCount n = some m ↔ n ≠ 0 ∧ m = n := by
  unfold capturedCount
  split
  · next hzero => exact ⟨fun heq => (by cases heq), fun hne => absurd hzero hne.1⟩
  · next hne =>
    exact ⟨fun heq => ⟨hne, (Option.some.inj heq).symm⟩, fun heq => congrArg some heq.2.symm⟩

theorem clicksOn_pos (h : event ∈ events) (hp : p event = true) :
    0 < clicksOn events p event.atTime.dateNaive :=
  countWhere_pos h (by rw [hp, Bool.true_and]; exact decide_eq_true rfl)

/-- Days are told apart by their texts. -/
theorem dayClicks_format (events : List ClickEvent) (p : ClickEvent → Bool) (event : ClickEvent) :
    dayClicks events p (NaiveDate.format event.atTime.dateNaive) =
      clicksOn events p event.atTime.dateNaive := by
  refine countWhere_congr fun e _ => ?_
  have hiff : NaiveDate.format e.atTime.dateNaive = NaiveDate.format event.atTime.dateNaive ↔
      e.atTime.dateNaive = event.atTime.dateNaive :=
    ⟨NaiveDate.format_inj e.atTime.year_dateNaive event.atTime.year_dateNaive,
      congrArg NaiveDate.format⟩
  rw [decide_eq_decide.mpr hiff]

/-- The field of a click's day, and its entry. -/
theorem field_of_click (fields : Table String String)
    (hcounts : ∀ field, fields.get field = countText (dayClicks events p field) ∧
      dayClicks events p field ≤ i64Max) (h : event ∈ events) (hp : p event = true) :
    ∃ value, fields.get (NaiveDate.format event.atTime.dateNaive) = some value ∧
      Snapshot.fieldEntry (NaiveDate.format event.atTime.dateNaive, value) =
        some (event.atTime.dateNaive, clicksOn events p event.atTime.dateNaive) := by
  obtain ⟨hfield, hmax⟩ := hcounts (NaiveDate.format event.atTime.dateNaive)
  have hpos := clicksOn_pos h hp
  rw [dayClicks_format] at hfield hmax
  refine ⟨_, hfield.trans (if_neg hpos.ne'), Snapshot.fieldEntry_eq_some_iff.mpr ⟨?_, ?_, hpos.le⟩⟩
  · exact NaiveDate.parseFromStr_format event.atTime.year_dateNaive
  · refine parseI64_toString ⟨?_, hmax⟩
    unfold i64Min
    omega

/-- There is no other field. -/
theorem click_of_field (fields : Table String String)
    (hcounts : ∀ field, fields.get field = countText (dayClicks events p field) ∧
      dayClicks events p field ≤ i64Max) {field value : String}
    (hfield : fields.get field = some value) :
    ∃ event ∈ events, p event = true ∧ field = NaiveDate.format event.atTime.dateNaive := by
  have hne : dayClicks events p field ≠ 0 := fun hzero => by
    rw [(hcounts field).1, countText, if_pos hzero] at hfield
    cases hfield
  obtain ⟨event, hmem, hboth⟩ :=
    exists_of_countWhere_pos (lt_of_le_of_ne (dayClicks_nonneg field) hne.symm)
  rw [Bool.and_eq_true, decide_eq_true_iff] at hboth
  exact ⟨event, hmem, hboth.1, hboth.2.symm⟩

/-- **A hash that counts clicks is parsed to the counts**, in whatever order its fields come. -/
theorem get_parseDailyCounts_counted {fields : HashMap String String}
    (hcounts : ∀ field, fields.get field = countText (dayClicks events p field) ∧
      dayClicks events p field ≤ i64Max) (day : NaiveDate) :
    (Snapshot.parseDailyCounts fields).1.get day = capturedCount (clicksOn events p day) := by
  -- each field is the one of a click
  have hclick : ∀ e ∈ fields.entries, ∃ event ∈ events, p event = true ∧
      e.1 = NaiveDate.format event.atTime.dateNaive ∧ Snapshot.fieldEntry e =
        some (event.atTime.dateNaive, clicksOn events p event.atTime.dateNaive) := by
    intro e he
    have hget := (fields.get_eq_some_iff (k := e.1) (v := e.2)).mpr he
    obtain ⟨event, hmem, hp, hfield⟩ := click_of_field fields.toTable hcounts hget
    obtain ⟨value, hvalue, hentry⟩ := field_of_click fields.toTable hcounts hmem hp
    rw [← hfield] at hvalue hentry
    obtain rfl : e.2 = value := Option.some.inj (hget.symm.trans hvalue)
    exact ⟨event, hmem, hp, hfield, hentry⟩
  have hdistinct : Snapshot.DistinctDays fields := by
    intro e he e' he' day hwell hwell'
    obtain ⟨event, -, -, hfield, hentry⟩ := hclick e he
    obtain ⟨event', -, -, hfield', hentry'⟩ := hclick e' he'
    have hday := (Snapshot.fieldEntry_eq_some_iff.mp hentry).1
    have hday' := (Snapshot.fieldEntry_eq_some_iff.mp hentry').1
    rw [hwell.1] at hday
    rw [hwell'.1] at hday'
    refine List.inj_on_of_nodup_map fields.nodup he he' ?_
    rw [hfield, hfield', ← Option.some.inj hday, ← Option.some.inj hday']
  ext clicks
  rw [Snapshot.get_parseDailyCounts_iff hdistinct, capturedCount_eq_some]
  constructor
  · rintro ⟨e, he, hentry⟩
    obtain ⟨event, hmem, hp, -, hentry'⟩ := hclick e he
    obtain ⟨rfl, rfl⟩ := Prod.mk.inj (Option.some.inj (hentry.symm.trans hentry'))
    exact ⟨(clicksOn_pos hmem hp).ne', rfl⟩
  · rintro ⟨hne, rfl⟩
    obtain ⟨event, hmem, hboth⟩ :=
      exists_of_countWhere_pos (lt_of_le_of_ne (countWhere_nonneg _ _) hne.symm)
    rw [Bool.and_eq_true, decide_eq_true_iff] at hboth
    obtain ⟨hp, rfl⟩ := hboth
    obtain ⟨value, hvalue, hentry⟩ := field_of_click fields.toTable hcounts hmem hp
    exact ⟨_, (fields.get_eq_some_iff).mp hvalue, hentry⟩

end Fields

/-! ## The capture -/

section Capture

variable {events : List ClickEvent} {k : Keyspace} {replies : Replies} {code : String}

/-- A code that was clicked has a field. -/
theorem Holds.hasEntry_iff (h : Holds events k) :
    k.HasEntry code ↔ ∃ event ∈ events, event.shortCode = code := by
  obtain ⟨fields, hfields, hcounts⟩ := h.linkHash code
  constructor
  · rintro ⟨fields', hfields', field, value, hfield, -⟩
    obtain rfl := Option.some.inj (hfields.symm.trans hfields')
    obtain ⟨event, hmem, hp, -⟩ := click_of_field fields hcounts hfield
    exact ⟨event, hmem, of_decide_eq_true hp⟩
  · rintro ⟨event, hmem, hp⟩
    obtain ⟨value, hvalue, hentry⟩ := field_of_click fields hcounts hmem (decide_eq_true hp)
    exact ⟨fields, hfields, _, value, hvalue, by rw [hentry]; rfl⟩

/-- The last click of a code is the text of its latest timestamp. -/
theorem Holds.text (h : Holds events k) : k.text (RedisKeys.linkLastClickedAtKey code) =
    ((lastMillis events code).filter fun ts => 0 < ts).map fun ts => toString ts := by
  unfold Keyspace.text
  rw [h.lastClick]
  cases (lastMillis events code).filter fun ts => 0 < ts <;> rfl

/-- The text of a timestamp is one. -/
theorem timestamp_toString {t : DateTime} :
    timestamp (toString t.timestampMillis) = DateTime.timestampMillisOpt t.timestampMillis := by
  obtain ⟨hlow, hhigh⟩ := t.timestampMillis_lt
  have hrange : i64Min ≤ t.timestampMillis ∧ t.timestampMillis ≤ i64Max := by
    unfold i64Min i64Max
    omega
  rw [timestamp, parseI64_toString hrange, Option.bind_some]

theorem Holds.bind_timestamp (h : Holds events k) :
    (k.text (RedisKeys.linkLastClickedAtKey code)).bind timestamp =
      ((lastMillis events code).filter fun ts => 0 < ts).bind DateTime.timestampMillisOpt := by
  rw [h.text]
  cases hlast : (lastMillis events code).filter fun ts => 0 < ts with
  | none => rfl
  | some ts =>
    obtain ⟨e, -, -, rfl⟩ := lastMillis_mem (Option.filter_eq_some_iff.mp hlast).1
    exact timestamp_toString

/-- The texts of recorded clicks can be read. -/
theorem Holds.readable (h : Holds events k) : k.Readable := by
  refine ⟨fun code => ?_, ?_, fun code _ => ?_, fun code _ value hvalue => ?_⟩
  · obtain ⟨fields, hfields, -⟩ := h.linkHash code
    rw [hfields]
    rfl
  · obtain ⟨fields, hfields, -⟩ := h.globalHash
    rw [hfields]
    rfl
  · unfold Keyspace.isBinary
    rw [h.lastClick]
    cases (lastMillis events code).filter fun ts => 0 < ts <;> rfl
  · rw [h.text] at hvalue
    obtain ⟨ts, hts, rfl⟩ := Option.map_eq_some_iff.mp hvalue
    obtain ⟨e, -, -, rfl⟩ := lastMillis_mem (Option.filter_eq_some_iff.mp hts).1
    rw [timestamp_toString]
    exact e.atTime.isSome_timestampMillisOpt

/-- The counts of the links that are captured. -/
theorem Holds.linkDaily (h : Holds events k) (hanswers : k.Answers replies) (day : NaiveDate) :
    replies.linkDaily.get (code, day) =
      capturedCount (clicksOn events (fun e => e.shortCode = code) day) := by
  refine Replies.get_linkDaily (fun code day =>
    capturedCount (clicksOn events (fun e => e.shortCode = code) day)) ?_ ?_ code day
  · intro code fields hmem day
    obtain ⟨fields', hfields', hcounts⟩ := h.linkHash code
    obtain rfl := Option.some.inj ((hgetall_of_scanned hanswers hmem).symm.trans hfields')
    exact get_parseDailyCounts_counted hcounts day
  · intro code day clicks hcount
    -- a count that is not zero has a field, so its key is scanned
    obtain ⟨hne, -⟩ := capturedCount_eq_some.mp hcount
    obtain ⟨event, hmem, hboth⟩ :=
      exists_of_countWhere_pos (lt_of_le_of_ne (countWhere_nonneg _ _) hne.symm)
    rw [Bool.and_eq_true, decide_eq_true_iff] at hboth
    obtain ⟨fields, hfields, hcounts⟩ := h.linkHash code
    obtain ⟨value, hvalue, -⟩ := field_of_click fields hcounts hmem (decide_eq_true hboth.1)
    obtain ⟨m, hm, -⟩ := scanned_of_field hanswers hfields hvalue
    exact ⟨m, hm⟩

/-- **The reader's half**: what the keys hold is captured. -/
theorem captures_of_holds (now : DateTime) (h : Holds events k) (hanswers : k.Answers replies) :
    ∃ s, k.captureSnapshot now replies = .ok s ∧ CapturesRecorded events s := by
  obtain ⟨s, hs⟩ := (captureSnapshot_isOk_iff now hanswers).mpr h.readable
  obtain ⟨-, fields, lastClickedAt, hfields, hclicked, rfl⟩ := captureSnapshot_ok_iff.mp hs
  refine ⟨_, hs, fun day => ?_, fun code day => h.linkDaily hanswers day, fun code => ?_⟩
  · obtain ⟨gfields, hgfields, hcounts⟩ := h.globalHash
    have hanswer := hanswers.hgetallGlobal
    rw [hfields, hgfields] at hanswer
    obtain rfl := Option.some.inj hanswer
    exact get_parseDailyCounts_counted hcounts day
  · show lastClickedAt.get code = _
    have hcodes : code ∈ replies.order (linkCodes replies.linkDaily) ↔
        ∃ event ∈ events, event.shortCode = code := by
      rw [(hanswers.order _).mem_iff, mem_linkCodes_iff hanswers, h.hasEntry_iff]
    rw [get_lastClickedAtBatch hclicked, h.bind_timestamp]
    split
    · rfl
    · next hnone =>
      -- a code without clicks
      cases hlast : lastMillis events code with
      | none => rfl
      | some ts =>
        obtain ⟨event, hmem, hcode, -⟩ := lastMillis_mem hlast
        exact absurd (hcodes.mpr ⟨event, hmem, hcode⟩) hnone

end Capture

/-! ## Recording and capturing -/

section Recorded

variable {lua : Lua} {number : Int → lua.Number} {events : List ClickEvent} {k : Keyspace}
  {replies : Replies}

theorem clicksOn_concat_other {event : ClickEvent} {code : String} (h : code ≠ event.shortCode)
    (day : NaiveDate) : clicksOn (events ++ [event]) (fun e => e.shortCode = code) day =
      clicksOn events (fun e => e.shortCode = code) day := by
  have hcode :
      (decide (event.shortCode = code) && decide (event.atTime.dateNaive = day)) = false := by
    rw [decide_eq_false fun heq => h heq.symm, Bool.false_and]
  unfold clicksOn
  rw [countWhere_concat, hcode, if_neg (by decide), add_zero]

/-- **A capture is the inverse of recording.** For every run of recorded clicks with any codes at
any time, from Redis without keys, and whatever order the capture meets the keys and fields in: it
returns exactly the counts of the clicks and, of each code, the latest click if that is after the
epoch. One more click changes nothing that is captured for the other codes. -/
theorem capture_recorded (hlua : lua.Exact number) (hrecorded : Recorded lua events k)
    (hanswers : k.Answers replies) (now : DateTime) :
    ∃ s, k.captureSnapshot now replies = .ok s ∧ CapturesRecorded events s ∧
      ∀ event k' replies', Recorded lua (events ++ [event]) k' → k'.Answers replies' →
        ∃ s', k'.captureSnapshot now replies' = .ok s' ∧ ∀ code ≠ event.shortCode,
          (∀ day, s'.linkDaily.get (code, day) = s.linkDaily.get (code, day)) ∧
            s'.lastClickedAt.get code = s.lastClickedAt.get code := by
  obtain ⟨s, hs, hcaptures⟩ := captures_of_holds now (holds_of_recorded hlua hrecorded) hanswers
  refine ⟨s, hs, hcaptures, fun event k' replies' hrecorded' hanswers' => ?_⟩
  obtain ⟨s', hs', hcaptures'⟩ :=
    captures_of_holds now (holds_of_recorded hlua hrecorded') hanswers'
  refine ⟨s', hs', fun code hcode => ⟨fun day => ?_, ?_⟩⟩
  · rw [hcaptures.linkDaily, hcaptures'.linkDaily, clicksOn_concat_other hcode]
  · rw [hcaptures.lastClickedAt, hcaptures'.lastClickedAt, lastMillis_concat_other hcode.symm]

end Recorded

/-! ## Clicks on fixed days -/

theorem exact_luaIntegers : luaIntegers.Exact fun n => n where
  tonumber n hlow hhigh := by
    refine string2ll_toString ⟨?_, ?_⟩
    · unfold i64Min
      omega
    · unfold i64Max
      omega
  lt _ _ _ _ _ _ := rfl

/-- Two pending entries, and no keys. -/
def twoDelivered : Keyspace := ⟨[⟨1, HashMap.empty⟩, ⟨2, HashMap.empty⟩], [1, 2], Table.empty⟩

/-- The keys after the first entry was recorded. -/
def afterFirst (event : ClickEvent) : Keyspace :=
  (recordClickEventOn luaIntegers NaiveDate.format twoDelivered 1 event).2

/-- The answers after one click on `a` on the first day. -/
def repliesOfOne : Replies where
  scanned := [(RedisKeys.linkStatsKey "a", some (HashMap.empty.insert "1970-01-01" "1"))]
  globalFields := some (HashMap.empty.insert "1970-01-01" "1")
  order codes := codes

/-- A click on `a` five seconds after the epoch, and one on `b` a day later. -/
def clickAtFive : ClickEvent := ⟨"a", ⟨5000000000, by decide, by decide⟩⟩

def clickOnB : ClickEvent := ⟨"b", ⟨86405000000000, by decide, by decide⟩⟩

/-- The latest click on `a` is at the epoch, and none is captured. -/
theorem epochClick_not_captured : Recorded luaIntegers [clickOnA] (afterFirst clickOnA) ∧
    (afterFirst clickOnA).Answers repliesOfOne ∧
    (lastMillis [clickOnA] "a").bind DateTime.timestampMillisOpt = some DateTime.unixEpoch ∧
    ((afterFirst clickOnA).captureSnapshot DateTime.unixEpoch repliesOfOne).toOption.any
      (fun s => s.linkDaily.get ("a", 0) = some 1 ∧ s.lastClickedAt.get "a" = none) = true := by
  have hclick : recordClickEventOn luaIntegers NaiveDate.format twoDelivered 1 clickOnA =
      (.ok 1, afterFirst clickOnA) := Prod.ext (by decide) rfl
  refine ⟨.click (.empty rfl) hclick, ?_, by decide, by decide⟩
  exact ⟨by decide, by decide, by decide, by decide, fun _ => List.Perm.refl _⟩

/-- The keys after the clicks on both links. -/
def afterBoth : Keyspace :=
  (recordClickEventOn luaIntegers NaiveDate.format (afterFirst clickAtFive) 2 clickOnB).2

/-- A scan that yields the hash of `a` twice, and maps that are iterated backwards. -/
def repliesOfBoth : Replies where
  scanned :=
    [(RedisKeys.linkStatsKey "a", some (HashMap.empty.insert "1970-01-01" "1")),
      (RedisKeys.linkStatsKey "b", some (HashMap.empty.insert "1970-01-02" "1")),
      (RedisKeys.linkStatsKey "a", some (HashMap.empty.insert "1970-01-01" "1"))]
  globalFields := some ((HashMap.empty.insert "1970-01-02" "1").insert "1970-01-01" "1")
  order := List.reverse

theorem capture_recorded_bothLinks : ∃ s,
    afterBoth.captureSnapshot DateTime.unixEpoch repliesOfBoth = .ok s ∧
      CapturesRecorded [clickAtFive, clickOnB] s := by
  have hfirst : recordClickEventOn luaIntegers NaiveDate.format twoDelivered 1 clickAtFive =
      (.ok 1, afterFirst clickAtFive) := Prod.ext (by decide) rfl
  have hsecond : recordClickEventOn luaIntegers NaiveDate.format (afterFirst clickAtFive) 2
      clickOnB = (.ok 1, afterBoth) := Prod.ext (by decide) rfl
  have hrecorded : Recorded luaIntegers [clickAtFive, clickOnB] afterBoth :=
    .click (.click (.empty rfl) hfirst) hsecond
  have hanswers : afterBoth.Answers repliesOfBoth :=
    ⟨by decide, by decide, by decide, by decide, List.reverse_perm⟩
  obtain ⟨s, hs, hcaptures, -⟩ :=
    capture_recorded exact_luaIntegers hrecorded hanswers DateTime.unixEpoch
  exact ⟨s, hs, hcaptures⟩

end Kurl
