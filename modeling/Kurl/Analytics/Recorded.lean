import Kurl.Analytics.RecordClickErrors
import Kurl.DateText
import Kurl.Lib.Count

/-!
# Kurl — what recorded clicks leave in Redis (`analytics/src/redis_stats.rs`)

`RECORD_CLICK` on texts, over any run from empty keys. Redis keeps a count as its decimal text and
reads it again for the next increment (`string2ll_toString`); Lua compares the timestamps as
numbers.

`Holds events k` says which texts the keys hold after the clicks `events`: in the fields of the two
hashes the counts by the text of the day, and under the last-click key the latest timestamp, if it
is positive — the script compares with `'0'` where there is none. `Holds.click` is the step and
`holds_of_recorded` the run.

The step has three parts, one for each key of the script, and the keys of other links are apart from
these (`stats_keys_disjoint`). What Lua has to do right is `Lua.Exact`: the timestamps that `chrono`
has in milliseconds are numbers that a double holds exactly.
-/

namespace Kurl

open Lib

/-! ## Numbers in texts -/

/-- The digits of a number that is not zero have the form that Redis reads. -/
theorem decimalDigits_toDigits {n : Nat} (hn : 0 < n) :
    decimalDigits (Nat.toDigits 10 n) = some n := by
  obtain ⟨d, digits, hcons⟩ := List.exists_cons_of_ne_nil (Nat.toDigits_ne_nil (n := n) (b := 10))
  have hbounds : ∀ c ∈ Nat.toDigits 10 n, '0' ≤ c ∧ c ≤ '9' := fun c hc =>
    Char.isDigit_iff_toNat.mp (isDigit_toDigits c hc)
  have hzero : d ≠ '0' := head_toDigits hn d (by rw [hcons]; rfl)
  have hvalue : (d :: digits).foldl (fun n c => 10 * n + (c.toNat - '0'.toNat)) 0 = n := by
    rw [← hcons]
    exact Nat.ofDigitChars_ten_toDigits
  rw [hcons] at hbounds ⊢
  have hd := hbounds d List.mem_cons_self
  have hone : '1' ≤ d := by
    have hne : d.toNat ≠ '0'.toNat := fun h => hzero (Char.toNat_inj.mp h)
    have hle : '0'.toNat ≤ d.toNat := hd.1
    show '1'.toNat ≤ d.toNat
    have hnext : '1'.toNat = '0'.toNat + 1 := rfl
    omega
  have hall : digits.all (fun c => '0' ≤ c ∧ c ≤ '9') = true := by
    rw [List.all_eq_true]
    exact fun c hc => decide_eq_true (hbounds c (List.mem_cons_of_mem _ hc))
  exact (if_pos ⟨hone, hd.2, hall⟩).trans (congrArg some hvalue)

/-- **Redis reads the integers that it wrote.** -/
theorem string2ll_toString {n : Int} (h : i64Min ≤ n ∧ n ≤ i64Max) :
    string2ll (toString n) = some n := by
  have htext := toList_toString n
  rcases lt_trichotomy n 0 with hneg | rfl | hpos
  · rw [if_neg (by omega)] at htext
    unfold string2ll
    rw [htext]
    simp only [decimalDigits_toDigits (n := (-n).toNat) (by omega), Option.bind_some]
    rw [Int.toNat_of_nonneg (by omega), neg_neg, if_pos h.1]
  · decide
  · rw [if_pos hpos.le] at htext
    have hdigits := decimalDigits_toDigits (n := n.toNat) (by omega)
    have hhead := head_toDigits (n := n.toNat) (by omega)
    have hdigit := isDigit_toDigits (n := n.toNat)
    unfold string2ll
    rw [htext]
    generalize Nat.toDigits 10 n.toNat = digits at *
    split
    · exact absurd rfl (hhead '0' rfl)
    · exact absurd rfl (ne_of_isDigit (hdigit '-' List.mem_cons_self)).1
    · rw [hdigits, Option.bind_some, Int.toNat_of_nonneg hpos.le, if_pos h.2]

/-- What the script uses of Lua's numbers. They are doubles, exact on the integers below `2^53`. -/
structure Lua.Exact (lua : Lua) (number : Int → lua.Number) : Prop where
  tonumber : ∀ n : Int, -2 ^ 53 < n → n < 2 ^ 53 → lua.tonumber (toString n) = some (number n)
  lt : ∀ a b : Int, -2 ^ 53 < a → a < 2 ^ 53 → -2 ^ 53 < b → b < 2 ^ 53 →
    lua.lt (number a) (number b) = decide (a < b)

/-! ## The commands that succeed -/

section Commands

variable {lua : Lua} {k k' : Keyspace} {key field : String}

theorem exec_hincrby_ok {n : Int} (h : (KeyScript.hincrby key field n).exec k = (.ok (), k')) :
    ∃ fields current, k.fields key = some fields ∧
      Keyspace.counter fields field = some current ∧
      i64Min ≤ current + n ∧ current + n ≤ i64Max ∧
      k' = { k with
        keys := k.keys.set key (k.withFields key (fields.set field (toString (current + n)))) } := by
  have hrun : KeyScript.hincrby key field n k = (.ok (), k') := h
  unfold KeyScript.hincrby at hrun
  cases hfields : k.fields key with
  | none =>
    simp only [hfields] at hrun
    cases hrun
  | some fields =>
    cases hcount : Keyspace.counter fields field with
    | none =>
      simp only [hfields, hcount] at hrun
      cases hrun
    | some current =>
      by_cases hrange : i64Min ≤ current + n ∧ current + n ≤ i64Max
      · have hadd : addChecked current n = some (current + n) := if_pos hrange
        simp only [hfields, hcount, hadd] at hrun
        exact ⟨fields, current, rfl, hcount, hrange.1, hrange.2, (Prod.mk.inj hrun).2.symm⟩
      · have hadd : addChecked current n = none := if_neg hrange
        simp only [hfields, hcount, hadd] at hrun
        cases hrun

theorem exec_get_ok {current : Option String} (h : (KeyScript.get key).exec k = (.ok current, k')) :
    k' = k ∧ (k.keys.get key = current.map .string ∨
      k.keys.get key = current.map .binaryString) := by
  have hrun : KeyScript.get key k = (.ok current, k') := h
  unfold KeyScript.get at hrun
  split at hrun
  · next hnone =>
    obtain ⟨hcurrent, rfl⟩ := Prod.mk.inj hrun
    obtain rfl := Except.ok.inj hcurrent
    exact ⟨rfl, .inl hnone⟩
  · next s hsome =>
    obtain ⟨hcurrent, rfl⟩ := Prod.mk.inj hrun
    obtain rfl := Except.ok.inj hcurrent
    exact ⟨rfl, .inl hsome⟩
  · next s hsome =>
    obtain ⟨hcurrent, rfl⟩ := Prod.mk.inj hrun
    obtain rfl := Except.ok.inj hcurrent
    exact ⟨rfl, .inr hsome⟩
  · cases hrun

theorem exec_gt_ok {a b : Option lua.Number} {newer : Bool}
    (h : (KeyScript.gt lua a b).exec k = (.ok newer, k')) :
    k' = k ∧ ∃ x y, a = some x ∧ b = some y ∧ newer = lua.lt y x := by
  cases a with
  | none => cases h
  | some x =>
    cases b with
    | none => cases h
    | some y =>
      obtain ⟨hnewer, rfl⟩ := Prod.mk.inj h
      exact ⟨rfl, x, y, rfl, rfl, (Except.ok.inj hnewer).symm⟩

end Commands

/-! ## The script -/

/-- What a script that recorded a click found, and what it left, on three different keys. -/
structure ClickRecording (lua : Lua) (globalKey linkKey lastClickKey day timestamp : String)
    (k k' : Keyspace) : Prop where
  globalHash : ∃ fields n, k.fields globalKey = some fields ∧
    Keyspace.counter fields day = some n ∧ n + 1 ≤ i64Max ∧
    k'.keys.get globalKey = some (k.withFields globalKey (fields.set day (toString (n + 1))))
  linkHash : ∃ fields n, k.fields linkKey = some fields ∧
    Keyspace.counter fields day = some n ∧ n + 1 ≤ i64Max ∧
    k'.keys.get linkKey = some (k.withFields linkKey (fields.set day (toString (n + 1))))
  lastClick : ∃ current x y, (k.keys.get lastClickKey = Option.map .string current ∨
      k.keys.get lastClickKey = Option.map .binaryString current) ∧
    lua.tonumber timestamp = some x ∧ lua.tonumber (current.getD "0") = some y ∧
    k'.keys.get lastClickKey =
      if lua.lt y x then some (.string timestamp) else k.keys.get lastClickKey
  others : ∀ key, key ≠ globalKey → key ≠ linkKey → key ≠ lastClickKey →
    k'.keys.get key = k.keys.get key

/-- **A script that answers 1** has recorded its click. -/
theorem recording_of_recordClick {lua : Lua} {globalKey linkKey lastClickKey : String}
    (hlink : linkKey ≠ globalKey) (hlast : lastClickKey ≠ globalKey ∧ lastClickKey ≠ linkKey)
    {entryId : Nat} {day timestamp : String} {k k' : Keyspace}
    (h : (recordClick lua globalKey linkKey lastClickKey entryId day timestamp).exec k =
      (.ok 1, k')) :
    ClickRecording lua globalKey linkKey lastClickKey day timestamp k k' := by
  -- for an entry that is not pending the script answers 0
  have hpend : entryId ∈ k.pel := by
    by_contra hnot
    have hack : (KeyScript.xack entryId).exec k = (.ok 0, k) := if_neg hnot
    unfold recordClick at h
    rw [Command.exec_bind_ok hack] at h
    cases h
  rw [exec_recordClick hpend] at h
  unfold recordPending at h
  -- the commands one after the other
  obtain ⟨⟨⟩, k₁, hglobal, h⟩ := Command.exec_bind_eq_ok h
  obtain ⟨⟨⟩, k₂, hlinked, h⟩ := Command.exec_bind_eq_ok h
  obtain ⟨current, k₃, hget, h⟩ := Command.exec_bind_eq_ok h
  obtain ⟨newer, k₄, hgt, h⟩ := Command.exec_bind_eq_ok h
  obtain ⟨gfields, n, hgfields, hn, -, hnmax, rfl⟩ := exec_hincrby_ok hglobal
  obtain ⟨lfields, m, hlfields, hm, -, hmmax, hk₂⟩ := exec_hincrby_ok hlinked
  -- the second increment finds its key as it was
  rw [@withFields_congr k linkKey _ (Table.get_set_of_ne _ _ hlink)] at hk₂
  subst hk₂
  obtain ⟨rfl, hcurrent⟩ := exec_get_ok hget
  obtain ⟨rfl, x, y, hx, hy, rfl⟩ := exec_gt_ok hgt
  have hkeys : k'.keys = if lua.lt y x = true then
      ((k.keys.set globalKey (k.withFields globalKey (gfields.set day (toString (n + 1))))).set
        linkKey (k.withFields linkKey (lfields.set day (toString (m + 1))))).set lastClickKey
          (.string timestamp)
      else (k.keys.set globalKey (k.withFields globalKey
        (gfields.set day (toString (n + 1))))).set linkKey
          (k.withFields linkKey (lfields.set day (toString (m + 1)))) := by
    cases hlt : lua.lt y x with
    | true =>
      rw [hlt] at h
      exact (congrArg (fun r => r.2.keys) h).symm
    | false =>
      rw [hlt] at h
      exact (congrArg (fun r => r.2.keys) h).symm
  -- what the later commands found under their keys was there before
  have hlfields' : k.fields linkKey = some lfields := by
    rw [← hlfields]
    unfold Keyspace.fields
    rw [Table.get_set_of_ne _ _ hlink]
  rw [Table.get_set_of_ne _ _ hlast.2, Table.get_set_of_ne _ _ hlast.1] at hcurrent
  refine ⟨⟨gfields, n, hgfields, hn, hnmax, ?_⟩, ⟨lfields, m, hlfields', hm, hmmax, ?_⟩,
    ⟨current, x, y, hcurrent, hx, hy, ?_⟩, fun key hg hl hc => ?_⟩ <;> rw [hkeys]
  · split
    · rw [Table.get_set_of_ne _ _ hlast.1.symm, Table.get_set_of_ne _ _ hlink.symm,
        Table.get_set_self]
    · rw [Table.get_set_of_ne _ _ hlink.symm, Table.get_set_self]
  · split
    · rw [Table.get_set_of_ne _ _ hlast.2.symm, Table.get_set_self]
    · rw [Table.get_set_self]
  · split
    · rw [Table.get_set_self]
    · rw [Table.get_set_of_ne _ _ hlast.2, Table.get_set_of_ne _ _ hlast.1]
  · split
    · rw [Table.get_set_of_ne _ _ hc, Table.get_set_of_ne _ _ hl, Table.get_set_of_ne _ _ hg]
    · rw [Table.get_set_of_ne _ _ hl, Table.get_set_of_ne _ _ hg]

/-! ## Runs -/

/-- The keys after these clicks were recorded, one script after the other, from Redis without keys.
Between the scripts, entries are added, delivered, acknowledged and dropped: that changes the stream
and its group, and no other key. -/
inductive Recorded (lua : Lua) : List ClickEvent → Keyspace → Prop where
  | empty {k : Keyspace} (hkeys : k.keys = Table.empty) : Recorded lua [] k
  | stream {events : List ClickEvent} {k k' : Keyspace} (h : Recorded lua events k)
      (hkeys : k'.keys = k.keys) : Recorded lua events k'
  | click {events : List ClickEvent} {k k' : Keyspace} (h : Recorded lua events k) {entryId : Nat}
      {event : ClickEvent}
      (hclick : recordClickEventOn lua NaiveDate.format k entryId event = (.ok 1, k')) :
      Recorded lua (events ++ [event]) k'

/-- The clicks among these whose day has this text. -/
def dayClicks (events : List ClickEvent) (p : ClickEvent → Bool) (field : String) : Int :=
  countWhere events fun e => p e && decide (NaiveDate.format e.atTime.dateNaive = field)

/-- The text of a count; `HINCRBY` writes no zero. -/
def countText (n : Int) : Option String := if n = 0 then none else some (toString n)

/-- The hash under a key counts the clicks that satisfy `p`, in fields named by the texts of days.
-/
def HashCounts (k : Keyspace) (key : String) (events : List ClickEvent)
    (p : ClickEvent → Bool) : Prop :=
  ∃ fields, k.hgetall key = some fields ∧
    ∀ field, fields.get field = countText (dayClicks events p field) ∧
      dayClicks events p field ≤ i64Max

/-- The latest timestamp of a code, in milliseconds. -/
def lastMillis (events : List ClickEvent) (code : String) : Option Int :=
  ((events.filter fun e => e.shortCode = code).map fun e => e.atTime.timestampMillis).max?

/-- The texts that the keys hold after these clicks. -/
structure Holds (events : List ClickEvent) (k : Keyspace) : Prop where
  globalHash : HashCounts k RedisKeys.globalStatsKey events fun _ => true
  linkHash : ∀ code, HashCounts k (RedisKeys.linkStatsKey code) events fun e => e.shortCode = code
  lastClick : ∀ code, k.keys.get (RedisKeys.linkLastClickedAtKey code) =
    ((lastMillis events code).filter fun ts => 0 < ts).map fun ts => .string (toString ts)

section Counts

variable {k k' : Keyspace} {key : String} {events : List ClickEvent} {event : ClickEvent}
  {p : ClickEvent → Bool}

theorem dayClicks_nonneg (field : String) : 0 ≤ dayClicks events p field := countWhere_nonneg _ _

theorem dayClicks_concat (field : String) : dayClicks (events ++ [event]) p field =
    dayClicks events p field +
      if p event && decide (NaiveDate.format event.atTime.dateNaive = field) then 1 else 0 :=
  countWhere_concat _ _ _

/-- `HINCRBY` reads the count from its text. -/
theorem counter_countText {fields : Table String String} {field : String} {c n : Int}
    (hfield : fields.get field = countText c) (hnonneg : 0 ≤ c) (hmax : c ≤ i64Max)
    (h : Keyspace.counter fields field = some n) : n = c := by
  unfold Keyspace.counter at h
  rw [hfield] at h
  unfold countText at h
  split at h
  · next hzero => rw [hzero, ← Option.some.inj h]
  · have hmin : i64Min ≤ c := by
      unfold i64Min
      omega
    have hread := string2ll_toString ⟨hmin, hmax⟩
    exact Option.some.inj (h.symm.trans hread)

/-- A click that a hash counts. -/
theorem HashCounts.click (h : HashCounts k key events p) (hp : p event = true)
    {fields : Table String String} {n : Int} (hfields : k.fields key = some fields)
    (hcounter : Keyspace.counter fields (NaiveDate.format event.atTime.dateNaive) = some n)
    (hmax : n + 1 ≤ i64Max)
    (hkey : k'.keys.get key = some (k.withFields key
      (fields.set (NaiveDate.format event.atTime.dateNaive) (toString (n + 1))))) :
    HashCounts k' key (events ++ [event]) p := by
  obtain ⟨fields', hfields', hcounts⟩ := h
  obtain rfl := Option.some.inj (hfields.symm.trans (Keyspace.fields_of_hgetall hfields'))
  rw [Keyspace.withFields_of_hgetall hfields'] at hkey
  -- the text that `HINCRBY` read is the count before this click
  obtain ⟨hday, hdaymax⟩ := hcounts (NaiveDate.format event.atTime.dateNaive)
  obtain rfl := counter_countText hday (dayClicks_nonneg _) hdaymax hcounter
  refine ⟨_, by unfold Keyspace.hgetall; rw [hkey], fun field => ?_⟩
  rw [dayClicks_concat, hp, Bool.true_and, Table.get_set]
  by_cases hfield : field = NaiveDate.format event.atTime.dateNaive
  · subst hfield
    have hpos : 0 ≤ dayClicks events p (NaiveDate.format event.atTime.dateNaive) :=
      dayClicks_nonneg _
    rw [if_pos rfl, if_pos (decide_eq_true rfl)]
    refine ⟨?_, hmax⟩
    unfold countText
    rw [if_neg (by omega)]
  · have hne : ¬ decide (NaiveDate.format event.atTime.dateNaive = field) = true := by
      simpa using fun heq => hfield heq.symm
    rw [if_neg hfield, if_neg hne, add_zero]
    exact hcounts field

/-- A click that it does not count. -/
theorem HashCounts.other (h : HashCounts k key events p) (hp : p event = false)
    (hkey : k'.keys.get key = k.keys.get key) : HashCounts k' key (events ++ [event]) p := by
  obtain ⟨fields, hfields, hcounts⟩ := h
  refine ⟨fields, ?_, fun field => ?_⟩
  · rw [← hfields]
    unfold Keyspace.hgetall
    rw [hkey]
  · rw [dayClicks_concat, hp, Bool.false_and, if_neg (by decide), add_zero]
    exact hcounts field

end Counts

/-! ## The last click -/

section LastClick

variable {events : List ClickEvent} {event : ClickEvent} {code : String}

theorem lastMillis_mem {ts : Int} (h : lastMillis events code = some ts) :
    ∃ e ∈ events, e.shortCode = code ∧ e.atTime.timestampMillis = ts := by
  obtain ⟨e, he, hts⟩ := List.mem_map.mp (List.max?_mem h)
  rw [List.mem_filter, decide_eq_true_iff] at he
  exact ⟨e, he.1, he.2, hts⟩

theorem lastMillis_concat_self : lastMillis (events ++ [event]) event.shortCode =
    some ((lastMillis events event.shortCode).elim event.atTime.timestampMillis
      fun ts => max ts event.atTime.timestampMillis) := by
  have hself : [event].filter (fun e => e.shortCode = event.shortCode) = [event] := by simp
  unfold lastMillis
  rw [List.filter_append, hself, List.map_append, List.map_cons, List.map_nil]
  generalize (events.filter _).map _ = l
  cases l with
  | nil => rfl
  | cons ts l =>
    rw [List.cons_append, List.max?_cons', List.max?_cons', List.foldl_append]
    rfl

theorem lastMillis_concat_other (h : event.shortCode ≠ code) :
    lastMillis (events ++ [event]) code = lastMillis events code := by
  unfold lastMillis
  rw [List.filter_append, List.filter_cons_of_neg (by simpa using h), List.filter_nil,
    List.append_nil]

/-- The positive part of the latest timestamp, as a double. -/
theorem lastMillis_getD_lt (events : List ClickEvent) (code : String) :
    -2 ^ 53 < ((lastMillis events code).filter fun ts => 0 < ts).getD 0 ∧
      ((lastMillis events code).filter fun ts => 0 < ts).getD 0 < 2 ^ 53 := by
  cases hlast : (lastMillis events code).filter fun ts => 0 < ts with
  | none => decide
  | some ts =>
    obtain ⟨e, -, -, rfl⟩ := lastMillis_mem (Option.filter_eq_some_iff.mp hlast).1
    exact e.atTime.timestampMillis_lt

/-- The script keeps the larger timestamp, and none that is not positive. -/
theorem filter_lastMillis_concat :
    (lastMillis (events ++ [event]) event.shortCode).filter (fun ts => 0 < ts) =
      if ((lastMillis events event.shortCode).filter fun ts => 0 < ts).getD 0 <
        event.atTime.timestampMillis then some event.atTime.timestampMillis
      else (lastMillis events event.shortCode).filter fun ts => 0 < ts := by
  rw [lastMillis_concat_self]
  generalize event.atTime.timestampMillis = new
  cases lastMillis events event.shortCode with
  | none =>
    by_cases hnew : 0 < new <;> simp [Option.filter, hnew]
  | some ts =>
    -- an old timestamp that is not positive is not in Redis, and then any positive one is newer
    by_cases hts : 0 < ts
    · by_cases hlt : ts < new
      · have hpos : 0 < new := hts.trans hlt
        simp [Option.filter, hts, hlt, hpos, max_eq_right hlt.le]
      · simp [Option.filter, hts, hlt, max_eq_left (not_lt.mp hlt)]
    · by_cases hnew : 0 < new
      · simp [Option.filter, hts, hnew, max_eq_right ((not_lt.mp hts).trans hnew.le)]
      · simp [Option.filter, hts, hnew]

end LastClick

/-! ## The invariant -/

theorem holds_empty {k : Keyspace} (h : k.keys = Table.empty) : Holds [] k := by
  have hhash : ∀ key p, HashCounts k key [] p := fun key p => by
    refine ⟨Table.empty, ?_, fun field => ⟨rfl, show (0 : Int) ≤ i64Max by decide⟩⟩
    unfold Keyspace.hgetall
    rw [h]
    rfl
  exact ⟨hhash _ _, fun _ => hhash _ _, fun code => by rw [h]; rfl⟩

/-- Only the keys matter. -/
theorem Holds.of_keys {events : List ClickEvent} {k k' : Keyspace} (h : Holds events k)
    (hkeys : k'.keys = k.keys) : Holds events k' := by
  have hfields : ∀ key, k'.hgetall key = k.hgetall key := fun key => by
    unfold Keyspace.hgetall
    rw [hkeys]
  refine ⟨?_, fun code => ?_, fun code => ?_⟩
  · unfold HashCounts
    rw [hfields]
    exact h.globalHash
  · unfold HashCounts
    rw [hfields]
    exact h.linkHash code
  · rw [hkeys]
    exact h.lastClick code

/-- **One more click.** -/
theorem Holds.click {lua : Lua} {number : Int → lua.Number} (hlua : lua.Exact number)
    {events : List ClickEvent} {k k' : Keyspace} (h : Holds events k) {entryId : Nat}
    {event : ClickEvent}
    (hclick : recordClickEventOn lua NaiveDate.format k entryId event = (.ok 1, k')) :
    Holds (events ++ [event]) k' := by
  obtain ⟨hlink, hlast, hboth⟩ := RedisKeys.stats_keys_disjoint event.shortCode event.shortCode
  obtain ⟨⟨gfields, n, hgfields, hn, hnmax, hgkey⟩, ⟨lfields, m, hlfields, hm, hmmax, hlkey⟩,
    ⟨current, x, y, hcurrent, hx, hy, hckey⟩, hothers⟩ :=
    recording_of_recordClick hlink ⟨hlast, hboth.symm⟩ hclick
  -- the hash of the days, the hash of each link, and the last click of each link
  refine ⟨h.globalHash.click rfl hgfields hn hnmax hgkey, fun code => ?_, fun code => ?_⟩
  · by_cases hcode : event.shortCode = code
    · subst hcode
      exact (h.linkHash _).click (decide_eq_true rfl) hlfields hm hmmax hlkey
    · -- another link's hash is another key
      obtain ⟨hglobal, -, hlastclick⟩ := RedisKeys.stats_keys_disjoint code event.shortCode
      exact (h.linkHash code).other (decide_eq_false hcode) (hothers _ hglobal
        (fun heq => hcode (RedisKeys.linkStatsKey_inj heq).symm) hlastclick)
  · by_cases hcode : event.shortCode = code
    · subst hcode
      have hold := h.lastClick event.shortCode
      -- what the script compares with is the text of the latest click so far, if there is one
      have htext : current = ((lastMillis events event.shortCode).filter fun ts => 0 < ts).map
          fun ts => toString ts := by
        have hmap : ((lastMillis events event.shortCode).filter fun ts => 0 < ts).map
            (fun ts => KeyValue.string (toString ts)) =
            (((lastMillis events event.shortCode).filter fun ts => 0 < ts).map
              fun ts => toString ts).map .string := by
          rw [Option.map_map]
          rfl
        rw [hold, hmap] at hcurrent
        rcases hcurrent with hstring | hbinary
        · exact (Option.map_injective (fun _ _ => KeyValue.string.inj) hstring).symm
        · -- the script wrote this text itself
          cases hlast : (lastMillis events event.shortCode).filter fun ts => 0 < ts with
          | none =>
            rw [hlast] at hbinary
            cases current with
            | none => rfl
            | some text => cases hbinary
          | some ts =>
            rw [hlast] at hbinary
            cases current with
            | none => cases hbinary
            | some text => cases hbinary
      have hcur : current.getD "0" = toString
          (((lastMillis events event.shortCode).filter fun ts => 0 < ts).getD 0) := by
        rw [htext]
        cases (lastMillis events event.shortCode).filter fun ts => 0 < ts <;> rfl
      -- both numbers are exact, so the script compares integers
      obtain ⟨hlow, hhigh⟩ := lastMillis_getD_lt events event.shortCode
      obtain ⟨htslow, htshigh⟩ := event.atTime.timestampMillis_lt
      rw [hcur, hlua.tonumber _ hlow hhigh] at hy
      rw [hlua.tonumber _ htslow htshigh] at hx
      obtain rfl := Option.some.inj hx
      obtain rfl := Option.some.inj hy
      rw [hlua.lt _ _ hlow hhigh htslow htshigh, hold] at hckey
      rw [hckey, filter_lastMillis_concat]
      -- a newer click replaces the text, an older one leaves it
      by_cases hnewer : ((lastMillis events event.shortCode).filter fun ts => 0 < ts).getD 0 <
          event.atTime.timestampMillis
      · rw [if_pos hnewer, if_pos (decide_eq_true hnewer)]
        rfl
      · rw [if_neg hnewer, if_neg (by simpa using hnewer)]
    · obtain ⟨-, hglobal, -⟩ := RedisKeys.stats_keys_disjoint code code
      rw [lastMillis_concat_other hcode, ← h.lastClick code]
      exact hothers _ hglobal (RedisKeys.stats_keys_disjoint event.shortCode code).2.2.symm
        fun heq => hcode (RedisKeys.linkLastClickedAtKey_inj heq).symm

/-- **The keys after any run of recorded clicks.** -/
theorem holds_of_recorded {lua : Lua} {number : Int → lua.Number} (hlua : lua.Exact number)
    {events : List ClickEvent} {k : Keyspace} (h : Recorded lua events k) : Holds events k := by
  induction h with
  | empty hkeys => exact holds_empty hkeys
  | stream _ hkeys ih => exact ih.of_keys hkeys
  | click _ hclick ih => exact ih.click hlua hclick

end Kurl
