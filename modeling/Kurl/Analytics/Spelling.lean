import Kurl.Analytics.EventOutcome
import Kurl.Analytics.Recorded

/-!
# Kurl — the texts behind the counters (`analytics/src/redis_stats.rs`)

`Redis` keeps counters and timestamps as integers, `Keyspace` the keys and texts that are really
there. `Keyspace.Spells` says that the texts are those of the integers, and the scripts keep it: on
texts, `RECORD_CLICK` and `HMAX` do what they do on integers, with the same results
(`recordClick_onTexts`, `hmaxOn_onTexts`; `spells_of_recorded` for a run). So what is proved of runs
over `Redis` holds of the texts, as long as nothing else writes the keys.

The simulation goes command by command (`OnTexts`): both sides return the same, or both overflow,
and the results spell each other again. The scripts are then put together from their commands.

Lua compares doubles on both sides; below `2^53` they are exact (`Lua.Doubles.exact`).
`compare_and_delete` is left out: it writes nothing (`compareAndDelete_eq`).
-/

namespace Kurl

open Lib

/-- What the scripts use of Lua's numbers: they are doubles. -/
structure Lua.Doubles (lua : Lua) (number : Int → lua.Number) : Prop where
  tonumber : ∀ n : Int, i64Min ≤ n → n ≤ i64Max → lua.tonumber (toString n) = some (number n)
  lt : ∀ a b : Int, lua.lt (number a) (number b) = decide (toDouble a < toDouble b)

/-- Doubles are exact below `2^53`. -/
theorem Lua.Doubles.exact {lua : Lua} {number : Int → lua.Number} (h : lua.Doubles number) :
    lua.Exact number where
  tonumber n hlow hhigh := h.tonumber n (by unfold i64Min; omega) (by unfold i64Max; omega)
  lt a b halow hahigh hblow hbhigh := by
    rw [h.lt, toDouble_of_lt ⟨halow, hahigh⟩, toDouble_of_lt ⟨hblow, hbhigh⟩]

/-- Decimal texts, compared as doubles. -/
example :
    Lua.Doubles ⟨Int, fun s => (parseI64 s).map toDouble, fun a b => decide (a < b)⟩ toDouble where
  tonumber n hlow hhigh := by
    simp only [parseI64_toString ⟨hlow, hhigh⟩, Option.map_some]
  lt _ _ := rfl

/-! ## Integers as texts -/

/-- A day that `chrono` has. -/
def NaiveDate.Valid (day : NaiveDate) : Prop :=
  NaiveDate.minYear ≤ (CivilDate.ofDays day).year ∧
    (CivilDate.ofDays day).year ≤ NaiveDate.maxYear

/-- A value of an `i64`. -/
def InI64 (n : Int) : Prop := i64Min ≤ n ∧ n ≤ i64Max

/-- The fields are the texts of the days that have a count, and hold the texts of the counts. -/
structure HashSpells (fields : Table String String) (counts : NaiveDate → Option Int) : Prop where
  field : ∀ text value, fields.get text = some value ↔
    ∃ day n, counts day = some n ∧ text = NaiveDate.format day ∧ value = toString n
  valid : ∀ day n, counts day = some n → NaiveDate.Valid day ∧ InI64 n

/-- The hash of a link, or the global one. -/
def RedisKeys.statsKey : Option String → String
  | none => RedisKeys.globalStatsKey
  | some code => RedisKeys.linkStatsKey code

/-- The bucket of a day in a hash. -/
def Bucket.ofDay : Option String → NaiveDate → Bucket
  | none, day => .global day
  | some code, day => .link code day

/-- The texts of these integers, and the same stream. -/
structure Keyspace.Spells (k : Keyspace) (r : Redis) : Prop where
  entries : k.entries = r.entries
  pel : k.pel = r.pel
  hash : ∀ code, ∃ fields, k.hgetall (RedisKeys.statsKey code) = some fields ∧
    HashSpells fields fun day => r.buckets.get (Bucket.ofDay code day)
  lastClick : ∀ code, k.keys.get (RedisKeys.linkLastClickedAtKey code) =
    (r.lastClickedAt.get code).map fun ts => .string (toString ts)
  lastClick_mem : ∀ code ts, r.lastClickedAt.get code = some ts → InI64 ts

section Hashes

variable {fields : Table String String} {counts : NaiveDate → Option Int} {day : NaiveDate}

/-- The field of a day. -/
theorem HashSpells.get (h : HashSpells fields counts) (hday : NaiveDate.Valid day) :
    fields.get (NaiveDate.format day) = (counts day).map toString := by
  ext value
  rw [h.field, Option.map_eq_some_iff]
  constructor
  · rintro ⟨day', n, hn, htext, rfl⟩
    obtain rfl := NaiveDate.format_inj hday (h.valid day' n hn).1 htext
    exact ⟨n, hn, rfl⟩
  · rintro ⟨n, hn, rfl⟩
    exact ⟨day, n, hn, rfl, rfl⟩

/-- A missing count is read as zero, as a missing field is. -/
theorem HashSpells.counter (h : HashSpells fields counts) (hday : NaiveDate.Valid day) :
    Keyspace.counter fields (NaiveDate.format day) = some ((counts day).getD 0) := by
  unfold Keyspace.counter
  rw [h.get hday]
  cases hcount : counts day with
  | none => rfl
  | some n => exact string2ll_toString (h.valid day n hcount).2

/-- Writing the field of a day. -/
theorem HashSpells.set (h : HashSpells fields counts) (hday : NaiveDate.Valid day) {n : Int}
    (hn : InI64 n) : HashSpells (fields.set (NaiveDate.format day) (toString n))
      fun day' => if day' = day then some n else counts day' where
  field text value := by
    rw [Table.get_set]
    by_cases htext : text = NaiveDate.format day
    · rw [if_pos htext, Option.some.injEq]
      constructor
      · rintro rfl
        exact ⟨day, n, if_pos rfl, htext, rfl⟩
      · rintro ⟨day', n', hn', htext', rfl⟩
        by_cases hday' : day' = day
        · rw [if_pos hday'] at hn'
          rw [Option.some.inj hn']
        · -- two days do not share a text
          rw [if_neg hday'] at hn'
          have heq := htext'.symm.trans htext
          exact absurd (NaiveDate.format_inj (h.valid day' n' hn').1 hday heq) hday'
    · rw [if_neg htext, h.field]
      constructor
      · rintro ⟨day', n', hn', rfl, rfl⟩
        exact ⟨day', n', (if_neg fun heq => htext (congrArg _ heq)).trans hn', rfl, rfl⟩
      · rintro ⟨day', n', hn', rfl, rfl⟩
        rw [if_neg fun heq => htext (congrArg _ heq)] at hn'
        exact ⟨day', n', hn', rfl, rfl⟩
  valid day' n' hn' := by
    by_cases hday' : day' = day
    · rw [if_pos hday'] at hn'
      rw [hday', ← Option.some.inj hn']
      exact ⟨hday, hn⟩
    · rw [if_neg hday'] at hn'
      exact h.valid day' n' hn'

end Hashes

/-! ## Writing a key -/

theorem RedisKeys.statsKey_inj {code code' : Option String}
    (h : RedisKeys.statsKey code = RedisKeys.statsKey code') : code = code' := by
  cases code with
  | none =>
    cases code' with
    | none => rfl
    | some c' => exact absurd h.symm (RedisKeys.stats_keys_disjoint c' c').1
  | some c =>
    cases code' with
    | none => exact absurd h (RedisKeys.stats_keys_disjoint c c).1
    | some c' => exact congrArg some (RedisKeys.linkStatsKey_inj h)

theorem RedisKeys.statsKey_ne_lastClick (code : Option String) (c : String) :
    RedisKeys.statsKey code ≠ RedisKeys.linkLastClickedAtKey c := by
  cases code with
  | none => exact (RedisKeys.stats_keys_disjoint c c).2.1.symm
  | some code => exact (RedisKeys.stats_keys_disjoint code c).2.2

theorem Bucket.ofDay_inj {code code' : Option String} {day day' : NaiveDate} :
    Bucket.ofDay code day = Bucket.ofDay code' day' ↔ code = code' ∧ day = day' := by
  cases code <;> cases code' <;> simp [Bucket.ofDay]

section Writes

variable {k : Keyspace} {r : Redis} {code : Option String} {day : NaiveDate} {n : Int}

/-- **A field is written as its bucket is.** -/
theorem Keyspace.Spells.setField (h : k.Spells r) {fields : Table String String}
    (hfields : k.hgetall (RedisKeys.statsKey code) = some fields) (hday : NaiveDate.Valid day)
    (hn : InI64 n) :
    Keyspace.Spells
      { k with
        keys := k.keys.set (RedisKeys.statsKey code) (k.withFields (RedisKeys.statsKey code)
          (fields.set (NaiveDate.format day) (toString n))) }
      { r with buckets := r.buckets.set (Bucket.ofDay code day) n } where
  entries := h.entries
  pel := h.pel
  hash code' := by
    obtain ⟨fields', hfields', hspells⟩ := h.hash code'
    by_cases hcode : code' = code
    · subst hcode
      obtain rfl := Option.some.inj (hfields.symm.trans hfields')
      rw [Keyspace.withFields_of_hgetall hfields]
      refine ⟨_, by unfold Keyspace.hgetall; rw [Table.get_set_self], ?_⟩
      have hset := hspells.set hday hn
      simp only [Table.get_set, Bucket.ofDay_inj, true_and]
      exact hset
    · -- another hash, under another key
      refine ⟨fields', ?_, ?_⟩
      · rw [← hfields']
        unfold Keyspace.hgetall
        rw [Table.get_set_of_ne _ _ fun heq => hcode (RedisKeys.statsKey_inj heq)]
      · simp only [Table.get_set, Bucket.ofDay_inj, hcode, false_and, if_false]
        exact hspells
  lastClick c := by
    rw [Table.get_set_of_ne _ _ (RedisKeys.statsKey_ne_lastClick code c).symm]
    exact h.lastClick c
  lastClick_mem := h.lastClick_mem

/-- **A timestamp is written as a text.** -/
theorem Keyspace.Spells.setLastClick (h : k.Spells r) (c : String) (hn : InI64 n) :
    Keyspace.Spells
      { k with keys := k.keys.set (RedisKeys.linkLastClickedAtKey c) (.string (toString n)) }
      { r with lastClickedAt := r.lastClickedAt.set c n } where
  entries := h.entries
  pel := h.pel
  hash code := by
    obtain ⟨fields, hfields, hspells⟩ := h.hash code
    refine ⟨fields, ?_, hspells⟩
    rw [← hfields]
    unfold Keyspace.hgetall
    rw [Table.get_set_of_ne _ _ (RedisKeys.statsKey_ne_lastClick code c)]
  lastClick c' := by
    rw [Table.get_set, Table.get_set]
    by_cases hc : c' = c
    · rw [if_pos (congrArg _ hc), if_pos hc]
      rfl
    · rw [if_neg fun heq => hc (RedisKeys.linkLastClickedAtKey_inj heq), if_neg hc]
      exact h.lastClick c'
  lastClick_mem c' ts hts := by
    rw [Table.get_set] at hts
    by_cases hc : c' = c
    · rw [if_pos hc] at hts
      rw [← Option.some.inj hts]
      exact hn
    · rw [if_neg hc] at hts
      exact h.lastClick_mem c' ts hts

end Writes

/-! ## The commands -/

/-- `HGET key field` -/
def KeyScript.hget (key field : String) : KeyScript (Option String) := fun k =>
  match k.fields key with
  | none => (.error .wrongType, k)
  | some fields => (.ok (fields.get field), k)

/-- `HSET key field s` -/
def KeyScript.hset (key field s : String) : KeyScript Unit := fun k =>
  match k.fields key with
  | none => (.error .wrongType, k)
  | some fields => (.ok (), { k with keys := k.keys.set key (k.withFields key (fields.set field s)) })

/-- The one error that is left: an overflow, on both sides. -/
def BothOverflow (e : KeyError) (e' : ScriptError) : Prop := e = .overflow ∧ e' = .overflow

/-- On texts the script does what the other does on integers. -/
abbrev OnTexts {α β : Type} (R : α → β → Prop) (x : KeyScript α) (y : Script β) : Prop :=
  Command.Refines Keyspace.Spells BothOverflow R x y

/-- A text that was read, and its integer. -/
def SpellsValue (text : Option String) (n : Option Int) : Prop :=
  text = n.map toString ∧ ∀ m ∈ n, InI64 m

section Commands

variable {lua : Lua} {number : Int → lua.Number} {code : Option String} {day : NaiveDate}

theorem xack_onTexts (id : Nat) : OnTexts Eq (KeyScript.xack id) (Script.xack id) := by
  intro k r h
  have hscript : Command.exec (Script.xack id) r = (.ok (r.xack id).2, (r.xack id).1) := rfl
  rw [hscript]
  by_cases hmem : id ∈ r.pel
  · have hexec : (KeyScript.xack id).exec k =
        (.ok 1, { k with pel := k.pel.filter (fun j => j ≠ id) }) := if_pos (h.pel ▸ hmem)
    obtain ⟨g, hgroup, hack⟩ := xack_of_mem hmem
    have hpel : k.pel = g.pel := by
      rw [h.pel, Redis.pel, hgroup]
      rfl
    rw [hexec, hack, hpel]
    exact ⟨rfl, h.entries, rfl, h.hash, h.lastClick, h.lastClick_mem⟩
  · have hexec : (KeyScript.xack id).exec k = (.ok 0, k) := if_neg (h.pel ▸ hmem)
    rw [hexec, xack_of_notMem hmem]
    exact ⟨rfl, h⟩

theorem xdel_onTexts (id : Nat) : OnTexts Eq (KeyScript.xdel id) (Script.xdel id) := by
  intro k r h
  refine ⟨rfl, ?_, h.pel, h.hash, h.lastClick, h.lastClick_mem⟩
  show k.entries.filter _ = r.entries.filter _
  rw [h.entries]

theorem hincrby_onTexts (code : Option String) (hday : NaiveDate.Valid day) (n : Int) :
    OnTexts Eq (KeyScript.hincrby (RedisKeys.statsKey code) (NaiveDate.format day) n)
      (Script.hincrby (Bucket.ofDay code day) n) := by
  intro k r h
  obtain ⟨fields, hfields, hspells⟩ := h.hash code
  have hcounter := hspells.counter hday
  have hall := Keyspace.fields_of_hgetall hfields
  show Command.ResultRel _ _ (KeyScript.hincrby _ _ n k).1 (Script.hincrby _ n r).1 ∧
    Keyspace.Spells (KeyScript.hincrby _ _ n k).2 (Script.hincrby _ n r).2
  unfold KeyScript.hincrby Script.hincrby Table.val
  simp only [hall, hcounter]
  cases hadd : addChecked ((r.buckets.get (Bucket.ofDay code day)).getD 0) n with
  | none => exact ⟨⟨rfl, rfl⟩, h⟩
  | some m =>
    have hm : InI64 m := by
      unfold addChecked at hadd
      split at hadd
      · next hrange => exact Option.some.inj hadd ▸ hrange
      · cases hadd
    exact ⟨rfl, h.setField hfields hday hm⟩

theorem hget_onTexts (code : Option String) (hday : NaiveDate.Valid day) :
    OnTexts SpellsValue (KeyScript.hget (RedisKeys.statsKey code) (NaiveDate.format day))
      (Script.hget (Bucket.ofDay code day)) := by
  intro k r h
  obtain ⟨fields, hfields, hspells⟩ := h.hash code
  have hexec : (KeyScript.hget (RedisKeys.statsKey code) (NaiveDate.format day)).exec k =
      (.ok (fields.get (NaiveDate.format day)), k) := by
    show KeyScript.hget _ _ k = _
    unfold KeyScript.hget
    rw [Keyspace.fields_of_hgetall hfields]
  rw [hexec]
  exact ⟨⟨hspells.get hday, fun m hm => (hspells.valid day m hm).2⟩, h⟩

theorem hset_onTexts (code : Option String) (hday : NaiveDate.Valid day) {n : Int}
    (hn : InI64 n) :
    OnTexts Eq (KeyScript.hset (RedisKeys.statsKey code) (NaiveDate.format day) (toString n))
      (Script.hset (Bucket.ofDay code day) n) := by
  intro k r h
  obtain ⟨fields, hfields, -⟩ := h.hash code
  show Command.ResultRel _ _ (KeyScript.hset _ _ _ k).1 _ ∧
    Keyspace.Spells (KeyScript.hset _ _ _ k).2 _
  unfold KeyScript.hset
  rw [Keyspace.fields_of_hgetall hfields]
  exact ⟨rfl, h.setField hfields hday hn⟩

theorem get_onTexts (c : String) :
    OnTexts SpellsValue (KeyScript.get (RedisKeys.linkLastClickedAtKey c))
      (Script.getLastClickedAt c) := by
  intro k r h
  have hexec : (KeyScript.get (RedisKeys.linkLastClickedAtKey c)).exec k =
      (.ok ((r.lastClickedAt.get c).map toString), k) := by
    show KeyScript.get _ k = _
    unfold KeyScript.get
    rw [h.lastClick]
    cases r.lastClickedAt.get c <;> rfl
  rw [hexec]
  exact ⟨⟨rfl, h.lastClick_mem c⟩, h⟩

theorem set_onTexts (c : String) {n : Int} (hn : InI64 n) :
    OnTexts Eq (KeyScript.set (RedisKeys.linkLastClickedAtKey c) (toString n))
      (Script.setLastClickedAt c n) := fun _ _ h => ⟨rfl, h.setLastClick c hn⟩

/-- Lua compares the integers as doubles. -/
theorem gt_toString (hlua : lua.Doubles number) {a b : Int} (ha : InI64 a) (hb : InI64 b) :
    KeyScript.gt lua (lua.tonumber (toString a)) (lua.tonumber (toString b)) =
      pure (decide (toDouble b < toDouble a)) := by
  rw [hlua.tonumber a ha.1 ha.2, hlua.tonumber b hb.1 hb.2, ← hlua.lt]
  rfl

end Commands

/-! ## The scripts -/

section Scripts

variable {lua : Lua} {number : Int → lua.Number}

theorem inI64_timestampMillis (t : DateTime) : InI64 t.timestampMillis := by
  have hbounds := t.timestampMillis_lt
  unfold InI64 i64Min i64Max
  omega

/-- **`RECORD_CLICK` on texts.** -/
theorem recordClick_onTexts (hlua : lua.Doubles number) (entryId : Nat) (event : ClickEvent) :
    OnTexts Eq (recordClick lua RedisKeys.globalStatsKey (RedisKeys.linkStatsKey event.shortCode)
        (RedisKeys.linkLastClickedAtKey event.shortCode) entryId
        (NaiveDate.format event.atTime.dateNaive) (toString event.atTime.timestampMillis))
      (recordClickScript entryId event.shortCode event.atTime.dateNaive
        event.atTime.timestampMillis) := by
  unfold recordClick recordClickScript
  refine (xack_onTexts entryId).bind fun acked _ heq => ?_
  subst heq
  by_cases hacked : acked = 0
  · rw [if_pos hacked, if_pos hacked]
    exact .pure rfl
  rw [if_neg hacked, if_neg hacked]
  refine (hincrby_onTexts none event.atTime.year_dateNaive 1).bind fun _ _ _ => ?_
  refine (hincrby_onTexts (some event.shortCode) event.atTime.year_dateNaive 1).bind
    fun _ _ _ => ?_
  refine (get_onTexts event.shortCode).bind fun text current hcurrent => ?_
  -- a missing timestamp is read as zero on both sides
  have htext : text.getD "0" = toString (current.getD 0) := by
    rw [hcurrent.1]
    cases current <;> rfl
  have hrange : InI64 (current.getD 0) := by
    cases current with
    | none => exact ⟨by decide, by decide⟩
    | some ts => exact hcurrent.2 ts rfl
  have hts := inI64_timestampMillis event.atTime
  simp only [htext, gt_toString hlua hts hrange, pure_bind, decide_eq_true_eq]
  have hlast : OnTexts Eq (do KeyScript.xdel entryId; pure 1 : KeyScript Int)
      (do Script.xdel entryId; pure 1) := (xdel_onTexts entryId).bind fun _ _ _ => .pure rfl
  by_cases hnewer : toDouble (current.getD 0) < toDouble event.atTime.timestampMillis
  · rw [if_pos hnewer, if_pos hnewer]
    exact (set_onTexts event.shortCode hts).bind fun _ _ _ => hlast
  · rw [if_neg hnewer, if_neg hnewer]
    exact hlast

/-- `HMAX_SCRIPT` on its key and arguments. -/
def hmaxOn (lua : Lua) (hashKey field : String) (value : Int) : KeyScript Bool := do
  let current ← KeyScript.hget hashKey field
  let greater ← match current with
    | none => pure true
    | some current => KeyScript.gt lua (lua.tonumber (toString value)) (lua.tonumber current)
  if greater then
    KeyScript.hset hashKey field (toString value)
    return true
  return false

/-- **`HMAX` on texts.** -/
theorem hmaxOn_onTexts (hlua : lua.Doubles number) (code : Option String) {day : NaiveDate}
    (hday : NaiveDate.Valid day) {value : Int} (hvalue : InI64 value) :
    OnTexts Eq (hmaxOn lua (RedisKeys.statsKey code) (NaiveDate.format day) value)
      (hmaxScript (Bucket.ofDay code day) value) := by
  have hset : OnTexts Eq (do
        KeyScript.hset (RedisKeys.statsKey code) (NaiveDate.format day) (toString value)
        pure true : KeyScript Bool)
      (do Script.hset (Bucket.ofDay code day) value; pure true) :=
    (hset_onTexts code hday hvalue).bind fun _ _ _ => .pure rfl
  unfold hmaxOn hmaxScript
  refine (hget_onTexts code hday).bind fun text current hcurrent => ?_
  rw [hcurrent.1]
  cases current with
  | none => simpa using hset
  | some c =>
    simp only [Option.map_some, gt_toString hlua hvalue (hcurrent.2 c rfl), pure_bind,
      Option.elim_some, decide_eq_true_eq]
    by_cases hless : toDouble c < toDouble value
    · rw [if_pos hless, if_pos hless]
      exact hset
    · rw [if_neg hless, if_neg hless]
      exact .pure rfl

/-- **A click recorded on texts** is recorded on the integers, with the same outcome. -/
theorem recordClickEventOn_spells (hlua : lua.Doubles number) {k : Keyspace} {r : Redis}
    (h : k.Spells r) (entryId : Nat) (event : ClickEvent) :
    (recordClickEventOn lua NaiveDate.format k entryId event).2.Spells
        (recordClickEvent r entryId event).2 ∧
      (recordClickEvent r entryId event).1 =
        match (recordClickEventOn lua NaiveDate.format k entryId event).1 with
        | .error _ => .error (.script .overflow)
        | .ok result =>
          if result = 0 then .ok .applied
          else if result = 1 then .ok .alreadyHandled
          else .error .invalidData := by
  obtain ⟨hresult, hstate⟩ := recordClick_onTexts hlua entryId event k r h
  unfold recordClickEventOn recordClickEvent
  change Command.ResultRel _ _ _ ((recordClickScript _ _ _ _).invoke r).1 at hresult
  change Keyspace.Spells _ ((recordClickScript _ _ _ _).invoke r).2 at hstate
  generalize (recordClick lua _ _ _ _ _ _).exec k = onTexts at *
  generalize (recordClickScript _ _ _ _).invoke r = onIntegers at *
  obtain ⟨result, k'⟩ := onTexts
  obtain ⟨result', r'⟩ := onIntegers
  cases result with
  | error e =>
    cases result' with
    | error e' =>
      obtain ⟨-, rfl⟩ := hresult
      exact ⟨hstate, rfl⟩
    | ok n => exact absurd hresult id
  | ok n =>
    cases result' with
    | error e' => exact absurd hresult id
    | ok n' =>
      obtain rfl : n = n' := hresult
      dsimp only
      split
      · exact ⟨hstate, rfl⟩
      · split <;> exact ⟨hstate, rfl⟩

/-- The stream and its group may move while the other keys stay. -/
theorem Keyspace.Spells.stream {k k' : Keyspace} {r : Redis} (h : k.Spells r)
    (hkeys : k'.keys = k.keys) :
    k'.Spells { r with entries := k'.entries, group := some ⟨0, k'.pel⟩ } where
  entries := rfl
  pel := rfl
  hash code := by
    obtain ⟨fields, hfields, hspells⟩ := h.hash code
    refine ⟨fields, ?_, hspells⟩
    unfold Keyspace.hgetall at *
    rwa [hkeys]
  lastClick code := by
    rw [hkeys]
    exact h.lastClick code
  lastClick_mem := h.lastClick_mem

/-- Redis without keys. -/
theorem spells_empty {k : Keyspace} (hkeys : k.keys = Table.empty) :
    k.Spells { Redis.empty with entries := k.entries, group := some ⟨0, k.pel⟩ } where
  entries := rfl
  pel := rfl
  hash code := by
    refine ⟨Table.empty, ?_, fun text value => ?_, fun day n hn => ?_⟩
    · unfold Keyspace.hgetall
      rw [hkeys]
      rfl
    · exact ⟨fun htext => (by cases htext), fun ⟨day, n, hn, _⟩ => (by cases hn)⟩
    · cases hn
  lastClick code := by
    rw [hkeys]
    rfl
  lastClick_mem code ts hts := by cases hts

/-- **Any run of recorded clicks** leaves the texts of counters that count them. -/
theorem spells_of_recorded (hlua : lua.Doubles number) {events : List ClickEvent} {k : Keyspace}
    (h : Recorded lua events k) :
    ∃ r, k.Spells r ∧ ∀ b, r.buckets.val b = countWhere events fun e => e.hits b := by
  induction h with
  | empty hkeys => exact ⟨_, spells_empty hkeys, fun b => rfl⟩
  | stream _ hkeys ih =>
    obtain ⟨r, hspells, hcount⟩ := ih
    exact ⟨_, hspells.stream hkeys, hcount⟩
  | @click events k k' _ entryId event hclick ih =>
    obtain ⟨r, hspells, hcount⟩ := ih
    obtain ⟨hspells', houtcome⟩ := recordClickEventOn_spells hlua hspells entryId event
    rw [hclick] at hspells' houtcome
    have hrecorded : (recordClickEvent r entryId event).1 = .ok .alreadyHandled := houtcome
    refine ⟨_, hspells', fun b => ?_⟩
    rcases recordClickEvent_cases hrecorded with ⟨houtcome, -⟩ | ⟨-, hgrow⟩
    · cases houtcome
    · rw [hgrow b, hcount b, countWhere_concat]

end Scripts

end Kurl
