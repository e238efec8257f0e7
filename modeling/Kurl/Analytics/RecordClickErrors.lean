import Kurl.Lib.Command
import Kurl.RedisStats

/-!
# Kurl — failing `RECORD_CLICK` scripts (`analytics/src/redis_stats.rs`)

`Kurl.Redis` keeps the integers that `HINCRBY` writes. Here the keys hold what Redis can hold:
values of any type, and texts that need not spell a number. A command on a key of the wrong type or
on a text that is no integer fails, and the script ends there with its earlier effects.

`RECORD_CLICK` acknowledges first. So a script that fails has lost its entry
(`notMem_pel_recordClick`), and a failure loses nothing exactly on the contents on which no command
fails (`Keyspace.Accepts`).

The commands are those of `redis-rs` on the keys, with the errors that Redis gives (`KeyError`). The
numbers of Lua are a parameter (`Lua`): `tonumber`, and a comparison that fails with `nil`.
`recordClick_error_iff` says when the script fails, and `error_unrecorded_iff` when its failure
loses nothing.
-/

namespace Kurl

open Lib

/-! ## Keys with their contents -/

/-- The value of a key, as far as the commands tell values apart. Bytes that are not UTF-8 are given
as `from_utf8_lossy` shows them: to a script they are one more text that is no number, and only an
answer that has them cannot be decoded. -/
inductive KeyValue where
  | string (s : String)
  | hash (fields : Table String String)
  /-- A string that is not UTF-8. -/
  | binaryString (s : String)
  /-- A hash with a field that is not UTF-8, in its name or its value, or under a key that is not. -/
  | binaryHash (fields : Table String String)
  /-- A list, a set, a sorted set, a stream. -/
  | other
  deriving DecidableEq

/-- The event stream with the pending entries of its group, and the other keys. -/
structure Keyspace where
  entries : List StreamId
  pel : List Nat
  keys : Table String KeyValue

inductive KeyError where
  /-- `WRONGTYPE` -/
  | wrongType
  /-- `hash value is not an integer` -/
  | notAnInteger
  /-- `increment or decrement would overflow` -/
  | overflow
  /-- `attempt to compare nil with number` -/
  | compareNil
  deriving DecidableEq

abbrev KeyScript (α : Type) := Command KeyError Keyspace α

/-- The digits of a decimal without leading zeros. -/
def decimalDigits : List Char → Option Nat
  | [] => none
  | d :: digits =>
    if '1' ≤ d ∧ d ≤ '9' ∧ digits.all (fun c => '0' ≤ c ∧ c ≤ '9') then
      some ((d :: digits).foldl (fun n c => 10 * n + (c.toNat - '0'.toNat)) 0)
    else none

/-- `string2ll`: the 64-bit integers in the form in which Redis writes them. -/
def string2ll (s : String) : Option Int :=
  match s.toList with
  | ['0'] => some 0
  | '-' :: digits => (decimalDigits digits).bind fun n =>
      if i64Min ≤ -(n : Int) then some (-(n : Int)) else none
  | digits => (decimalDigits digits).bind fun n =>
      if (n : Int) ≤ i64Max then some (n : Int) else none

/-- What the script uses of Lua: `tonumber`, with `none` for `nil`, and `<` on numbers. -/
structure Lua where
  Number : Type
  tonumber : String → Option Number
  lt : Number → Number → Bool

/-! ## Commands -/

namespace Keyspace

/-- The fields of a hash; a missing key counts as an empty one. -/
def fields (k : Keyspace) (key : String) : Option (Table String String) :=
  match k.keys.get key with
  | none => some Table.empty
  | some (.hash fields) => some fields
  | some (.binaryHash fields) => some fields
  | some _ => none

/-- The fields of a hash if all of them are UTF-8. -/
def hgetall (k : Keyspace) (key : String) : Option (Table String String) :=
  match k.keys.get key with
  | none => some Table.empty
  | some (.hash fields) => some fields
  | some _ => none

/-- The hash under a key after a field was written. One that is not UTF-8 stays so: the scripts
write under the texts of days, and where they find no number they fail before they write. -/
def withFields (k : Keyspace) (key : String) (fields : Table String String) : KeyValue :=
  match k.keys.get key with
  | some (.binaryHash _) => .binaryHash fields
  | _ => .hash fields

theorem fields_of_hgetall {k : Keyspace} {key : String} {fields : Table String String}
    (h : k.hgetall key = some fields) : k.fields key = some fields := by
  unfold hgetall at h
  unfold Keyspace.fields
  split at h
  · next hkey =>
    rw [hkey]
    exact h
  · next hkey =>
    rw [hkey]
    exact h
  · cases h

theorem withFields_of_hgetall {k : Keyspace} {key : String} {fields : Table String String}
    (h : k.hgetall key = some fields) (fields' : Table String String) :
    k.withFields key fields' = .hash fields' := by
  unfold hgetall at h
  unfold withFields
  split
  · next hkey =>
    rw [hkey] at h
    cases h
  · rfl

/-- The integer in a field; a missing field counts as zero. -/
def counter (fields : Table String String) (field : String) : Option Int :=
  (fields.get field).elim (some 0) string2ll

end Keyspace

namespace KeyScript

/-- `XACK stream group id` -/
def xack (id : Nat) : KeyScript Int := fun k =>
  if id ∈ k.pel then (.ok 1, { k with pel := k.pel.filter (fun j => j ≠ id) }) else (.ok 0, k)

/-- `XDEL stream id` -/
def xdel (id : Nat) : KeyScript Unit := fun k =>
  (.ok (), { k with entries := k.entries.filter (fun e => e.id ≠ id) })

/-- `HINCRBY key field n` -/
def hincrby (key field : String) (n : Int) : KeyScript Unit := fun k =>
  match k.fields key with
  | none => (.error .wrongType, k)
  | some fields =>
    match Keyspace.counter fields field with
    | none => (.error .notAnInteger, k)
    | some current =>
      match addChecked current n with
      | none => (.error .overflow, k)
      | some m =>
        (.ok (), { k with
          keys := k.keys.set key (k.withFields key (fields.set field (toString m))) })

/-- `GET key` -/
def get (key : String) : KeyScript (Option String) := fun k =>
  match k.keys.get key with
  | none => (.ok none, k)
  | some (.string s) => (.ok (some s), k)
  | some (.binaryString s) => (.ok (some s), k)
  | some _ => (.error .wrongType, k)

/-- `SET key s`, whatever the key held. -/
def set (key s : String) : KeyScript Unit := fun k =>
  (.ok (), { k with keys := k.keys.set key (.string s) })

/-- Lua's `a > b`: an error if one of them is `nil`. -/
def gt (lua : Lua) (a b : Option lua.Number) : KeyScript Bool :=
  match a, b with
  | some a, some b => pure (lua.lt b a)
  | _, _ => throw .compareNil

end KeyScript

/-- `RECORD_CLICK` on its keys and arguments. -/
def recordClick (lua : Lua) (globalKey linkKey lastClickKey : String) (entryId : Nat)
    (day timestamp : String) : KeyScript Int := do
  let acked ← KeyScript.xack entryId
  if acked = 0 then
    return 0
  KeyScript.hincrby globalKey day 1
  KeyScript.hincrby linkKey day 1
  let ts := lua.tonumber timestamp
  let curTs := lua.tonumber ((← KeyScript.get lastClickKey).getD "0")
  if ← KeyScript.gt lua ts curTs then
    KeyScript.set lastClickKey timestamp
  KeyScript.xdel entryId
  return 1

/-- The script as `RedisStats::record_click_event` invokes it. `formatDay` is `chrono`'s
`format("%Y-%m-%d")`. -/
def recordClickEventOn (lua : Lua) (formatDay : NaiveDate → String) (k : Keyspace)
    (entryId : Nat) (event : ClickEvent) : Except KeyError Int × Keyspace :=
  (recordClick lua RedisKeys.globalStatsKey (RedisKeys.linkStatsKey event.shortCode)
    (RedisKeys.linkLastClickedAtKey event.shortCode) entryId (formatDay event.atTime.dateNaive)
    (toString event.atTime.timestampMillis)).exec k

/-! ## When a command fails -/

namespace Keyspace

/-- `HINCRBY key field 1` does not fail. -/
def hasRoom (k : Keyspace) (key field : String) : Bool :=
  ((k.fields key).bind fun fields =>
    (counter fields field).bind fun current => addChecked current 1).isSome

/-- The key is missing or holds a text that is a number to Lua. -/
def readable (lua : Lua) (k : Keyspace) (key : String) : Bool :=
  match k.keys.get key with
  | none => true
  | some (.string s) => (lua.tonumber s).isSome
  | some (.binaryString s) => (lua.tonumber s).isSome
  | some _ => false

/-- The contents on which the click of an event can be recorded. -/
def Accepts (lua : Lua) (formatDay : NaiveDate → String) (k : Keyspace) (event : ClickEvent) :
    Prop :=
  k.hasRoom RedisKeys.globalStatsKey (formatDay event.atTime.dateNaive) = true ∧
    k.hasRoom (RedisKeys.linkStatsKey event.shortCode) (formatDay event.atTime.dateNaive) = true ∧
    k.readable lua (RedisKeys.linkLastClickedAtKey event.shortCode) = true

instance (lua : Lua) (formatDay : NaiveDate → String) (k : Keyspace) (event : ClickEvent) :
    Decidable (k.Accepts lua formatDay event) :=
  inferInstanceAs (Decidable (_ ∧ _))

end Keyspace

section Commands

variable {lua : Lua} {k : Keyspace} {key field : String}

theorem exec_hincrby_of_hasRoom (h : k.hasRoom key field = true) :
    ∃ k', (KeyScript.hincrby key field 1).exec k = (.ok (), k') ∧
      ∀ key', key' ≠ key → k'.keys.get key' = k.keys.get key' := by
  unfold Keyspace.hasRoom at h
  show ∃ k', KeyScript.hincrby key field 1 k = (.ok (), k') ∧ _
  unfold KeyScript.hincrby
  cases hfields : k.fields key with
  | none => simp [hfields] at h
  | some fields =>
    cases hcount : Keyspace.counter fields field with
    | none => simp [hfields, hcount] at h
    | some current =>
      cases hadd : addChecked current 1 with
      | none => simp [hfields, hcount, hadd] at h
      | some m =>
        refine ⟨_, by simp only [hcount, hadd]; rfl, fun key' hne => ?_⟩
        show (k.keys.set key _).get key' = _
        rw [Table.get_set, if_neg hne]

theorem exec_hincrby_of_full (h : k.hasRoom key field = false) :
    ∃ e, (KeyScript.hincrby key field 1).exec k = (.error e, k) := by
  unfold Keyspace.hasRoom at h
  show ∃ e, KeyScript.hincrby key field 1 k = (.error e, k)
  unfold KeyScript.hincrby
  cases hfields : k.fields key with
  | none => exact ⟨_, rfl⟩
  | some fields =>
    cases hcount : Keyspace.counter fields field with
    | none => exact ⟨.notAnInteger, by simp only [hcount]⟩
    | some current =>
      cases hadd : addChecked current 1 with
      | none => exact ⟨.overflow, by simp only [hcount, hadd]⟩
      | some m => simp [hfields, hcount, hadd] at h

/-- Room in a field and readability are up to one key. -/
theorem hasRoom_congr (field : String) {k' : Keyspace} (h : k'.keys.get key = k.keys.get key) :
    k'.hasRoom key field = k.hasRoom key field := by
  unfold Keyspace.hasRoom Keyspace.fields
  rw [h]

theorem withFields_congr {k' : Keyspace} (h : k'.keys.get key = k.keys.get key)
    (fields : Table String String) : k'.withFields key fields = k.withFields key fields := by
  unfold Keyspace.withFields
  rw [h]

theorem readable_congr (lua : Lua) {k' : Keyspace} (h : k'.keys.get key = k.keys.get key) :
    k'.readable lua key = k.readable lua key := by
  unfold Keyspace.readable
  rw [h]

theorem exec_get_of_readable (hzero : (lua.tonumber "0").isSome = true)
    (h : k.readable lua key = true) : ∃ current, (KeyScript.get key).exec k = (.ok current, k) ∧
      (lua.tonumber (current.getD "0")).isSome = true := by
  unfold Keyspace.readable at h
  show ∃ current, KeyScript.get key k = (.ok current, k) ∧ _
  unfold KeyScript.get
  cases hvalue : k.keys.get key with
  | none => exact ⟨none, rfl, hzero⟩
  | some value =>
    cases value with
    | string s => exact ⟨some s, rfl, by simpa [hvalue] using h⟩
    | binaryString s => exact ⟨some s, rfl, by simpa [hvalue] using h⟩
    | hash fields => simp [hvalue] at h
    | binaryHash fields => simp [hvalue] at h
    | other => simp [hvalue] at h

theorem exec_get_of_unreadable (h : k.readable lua key = false) :
    (∃ e, (KeyScript.get key).exec k = (.error e, k)) ∨
      ∃ current, (KeyScript.get key).exec k = (.ok current, k) ∧
        lua.tonumber (current.getD "0") = none := by
  unfold Keyspace.readable at h
  show (∃ e, KeyScript.get key k = (.error e, k)) ∨ ∃ current, KeyScript.get key k = (.ok current, k) ∧ _
  unfold KeyScript.get
  cases hvalue : k.keys.get key with
  | none => simp [hvalue] at h
  | some value =>
    cases value with
    | string s => exact .inr ⟨some s, rfl, by simpa [hvalue] using h⟩
    | binaryString s => exact .inr ⟨some s, rfl, by simpa [hvalue] using h⟩
    | hash fields => exact .inl ⟨_, rfl⟩
    | binaryHash fields => exact .inl ⟨_, rfl⟩
    | other => exact .inl ⟨_, rfl⟩

/-- Every command but `XACK` leaves the pending list. -/
theorem keeps_pel_hincrby (n : Int) :
    Command.Keeps Keyspace.pel (KeyScript.hincrby key field n) := by
  intro k
  show (KeyScript.hincrby key field n k).2.pel = k.pel
  unfold KeyScript.hincrby
  split
  · rfl
  · split
    · rfl
    · split <;> rfl

theorem keeps_pel_get : Command.Keeps Keyspace.pel (KeyScript.get key) := by
  intro k
  show (KeyScript.get key k).2.pel = k.pel
  unfold KeyScript.get
  split <;> rfl

theorem keeps_pel_gt (a b : Option lua.Number) :
    Command.Keeps Keyspace.pel (KeyScript.gt lua a b) := by
  intro k
  cases a <;> cases b <;> rfl

end Commands

/-! ## The script -/

/-- `RECORD_CLICK` below its early return. -/
def recordPending (lua : Lua) (globalKey linkKey lastClickKey : String) (entryId : Nat)
    (day timestamp : String) : KeyScript Int := do
  KeyScript.hincrby globalKey day 1
  KeyScript.hincrby linkKey day 1
  let current ← KeyScript.get lastClickKey
  let newer ← KeyScript.gt lua (lua.tonumber timestamp) (lua.tonumber (current.getD "0"))
  if newer then
    KeyScript.set lastClickKey timestamp
  KeyScript.xdel entryId
  return 1

section Script

variable {lua : Lua} {k : Keyspace} {globalKey linkKey lastClickKey : String} {entryId : Nat}
  {day timestamp : String}

/-- A pending entry is acknowledged before anything else happens. -/
theorem exec_recordClick (hpend : entryId ∈ k.pel) :
    (recordClick lua globalKey linkKey lastClickKey entryId day timestamp).exec k =
      (recordPending lua globalKey linkKey lastClickKey entryId day timestamp).exec
        { k with pel := k.pel.filter (fun j => j ≠ entryId) } := by
  have hack : (KeyScript.xack entryId).exec k =
      (.ok 1, { k with pel := k.pel.filter (fun j => j ≠ entryId) }) := if_pos hpend
  unfold recordClick
  rw [Command.exec_bind_ok hack]
  rfl

/-- No command after the acknowledgement takes it back. -/
theorem keeps_pel_recordPending : Command.Keeps Keyspace.pel
    (recordPending lua globalKey linkKey lastClickKey entryId day timestamp) := by
  unfold recordPending
  apply (keeps_pel_hincrby 1).bind
  intro _
  apply (keeps_pel_hincrby 1).bind
  intro _
  apply keeps_pel_get.bind
  intro current
  apply (keeps_pel_gt _ _).bind
  intro newer
  cases newer with
  | false => exact fun _ => rfl
  | true => exact fun _ => rfl

/-- **However the script ends**, a pending entry is not pending any more. -/
theorem notMem_pel_recordClick (hpend : entryId ∈ k.pel) : entryId ∉
    ((recordClick lua globalKey linkKey lastClickKey entryId day timestamp).exec k).2.pel := by
  rw [exec_recordClick hpend, keeps_pel_recordPending]
  simp

/-- **When the script fails**, on a pending entry and three different keys. -/
theorem recordClick_error_iff (hpend : entryId ∈ k.pel) (hlink : linkKey ≠ globalKey)
    (hlast : lastClickKey ≠ globalKey ∧ lastClickKey ≠ linkKey)
    (hts : (lua.tonumber timestamp).isSome = true) (hzero : (lua.tonumber "0").isSome = true) :
    (∃ e, ((recordClick lua globalKey linkKey lastClickKey entryId day timestamp).exec k).1 =
      .error e) ↔ ¬ (k.hasRoom globalKey day = true ∧ k.hasRoom linkKey day = true ∧
        k.readable lua lastClickKey = true) := by
  rw [exec_recordClick hpend]
  unfold recordPending
  have hroom (key : String) : Keyspace.hasRoom { k with pel := k.pel.filter fun j => j ≠ entryId }
      key day = k.hasRoom key day := hasRoom_congr day rfl
  have hread : Keyspace.readable lua { k with pel := k.pel.filter fun j => j ≠ entryId }
      lastClickKey = k.readable lua lastClickKey := readable_congr lua rfl
  rw [← hroom, ← hroom, ← hread]
  generalize { k with pel := k.pel.filter fun j => j ≠ entryId } = k₀
  -- the first increment
  cases hglobal : k₀.hasRoom globalKey day with
  | false =>
    obtain ⟨e, he⟩ := exec_hincrby_of_full hglobal
    rw [Command.exec_bind_error he]
    simp
  | true =>
  obtain ⟨k₁, h₁, hframe₁⟩ := exec_hincrby_of_hasRoom hglobal
  rw [Command.exec_bind_ok h₁]
  -- the second one, on another key
  rw [← hasRoom_congr day (hframe₁ linkKey hlink),
    ← readable_congr lua (hframe₁ lastClickKey hlast.1)]
  cases hroom₁ : k₁.hasRoom linkKey day with
  | false =>
    obtain ⟨e, he⟩ := exec_hincrby_of_full hroom₁
    rw [Command.exec_bind_error he]
    simp
  | true =>
  obtain ⟨k₂, h₂, hframe₂⟩ := exec_hincrby_of_hasRoom hroom₁
  rw [Command.exec_bind_ok h₂, ← readable_congr lua (hframe₂ lastClickKey hlast.2)]
  -- the timestamps
  obtain ⟨ts, hsome⟩ := Option.isSome_iff_exists.mp hts
  cases hlast₂ : k₂.readable lua lastClickKey with
  | false =>
    rcases exec_get_of_unreadable hlast₂ with ⟨e, he⟩ | ⟨current, hget, hnone⟩
    · rw [Command.exec_bind_error he]
      simp
    · rw [Command.exec_bind_ok hget, hsome, hnone]
      exact ⟨fun _ hboth => absurd hboth.2.2 (by simp), fun _ => ⟨.compareNil, rfl⟩⟩
  | true =>
    obtain ⟨current, hget, hcur⟩ := exec_get_of_readable hzero hlast₂
    obtain ⟨curTs, hcurTs⟩ := Option.isSome_iff_exists.mp hcur
    rw [Command.exec_bind_ok hget, hsome, hcurTs]
    have hgt : (KeyScript.gt lua (some ts) (some curTs)).exec k₂ = (.ok (lua.lt curTs ts), k₂) := rfl
    rw [Command.exec_bind_ok hgt]
    -- no command is left that can fail
    cases lua.lt curTs ts with
    | false => exact ⟨fun ⟨_, he⟩ => absurd he (by rintro ⟨⟩), fun hnot => absurd ⟨rfl, rfl, rfl⟩ hnot⟩
    | true => exact ⟨fun ⟨_, he⟩ => absurd he (by rintro ⟨⟩), fun hnot => absurd ⟨rfl, rfl, rfl⟩ hnot⟩

end Script

/-! ## What a failure loses -/

/-- The entry is pending, and its counters and the last click of its code are as they were. -/
def Unrecorded (before after : Keyspace) (entryId : Nat) (event : ClickEvent) : Prop :=
  entryId ∈ after.pel ∧
    after.keys.get RedisKeys.globalStatsKey = before.keys.get RedisKeys.globalStatsKey ∧
    after.keys.get (RedisKeys.linkStatsKey event.shortCode) =
      before.keys.get (RedisKeys.linkStatsKey event.shortCode) ∧
    after.keys.get (RedisKeys.linkLastClickedAtKey event.shortCode) =
      before.keys.get (RedisKeys.linkLastClickedAtKey event.shortCode)

/-- **A failing script loses its entry.** For a pending entry, an error of the script leaves the
entry and its counters as they were exactly on the contents on which there is no error. Lua reads
the two numbers that the code itself writes. -/
theorem error_unrecorded_iff {lua : Lua} (formatDay : NaiveDate → String) {k : Keyspace}
    {entryId : Nat} (hpend : entryId ∈ k.pel) {event : ClickEvent}
    (hts : (lua.tonumber (toString event.atTime.timestampMillis)).isSome = true)
    (hzero : (lua.tonumber "0").isSome = true) :
    ((∃ e, (recordClickEventOn lua formatDay k entryId event).1 = .error e) →
      Unrecorded k (recordClickEventOn lua formatDay k entryId event).2 entryId event) ↔
      k.Accepts lua formatDay event := by
  obtain ⟨hlink, hlast, hboth⟩ := RedisKeys.stats_keys_disjoint event.shortCode event.shortCode
  have hiff := @recordClick_error_iff lua k _ _ _ entryId (formatDay event.atTime.dateNaive) _ hpend
    hlink ⟨hlast, hboth.symm⟩ hts hzero
  constructor
  · intro hkeeps
    by_contra hnot
    exact notMem_pel_recordClick hpend (hkeeps (hiff.mpr hnot)).1
  · intro haccepts hfails
    exact absurd haccepts (hiff.mp hfails)

/-- Lua on texts that are integers. -/
def luaIntegers : Lua := ⟨Int, string2ll, fun a b => a < b⟩

/-- One pending entry, and a text that is no integer in the field of the day. -/
def textField : Keyspace :=
  { entries := [⟨1, HashMap.empty⟩]
    pel := [1]
    keys := Table.empty.set RedisKeys.globalStatsKey (.hash (Table.empty.set "1970-01-01" "x")) }

/-- `chrono` on the one day. -/
def epochDay : NaiveDate → String := fun _ => "1970-01-01"

def clickOnA : ClickEvent := ⟨"a", DateTime.unixEpoch⟩

theorem error_unrecorded_iff_textField :
    ¬ ((∃ e, (recordClickEventOn luaIntegers epochDay textField 1 clickOnA).1 = .error e) →
      Unrecorded textField (recordClickEventOn luaIntegers epochDay textField 1 clickOnA).2 1
        clickOnA) := by
  rw [error_unrecorded_iff epochDay (by decide) (by decide) (by decide)]
  decide

/-- The first increment fails, and the entry is not pending any more. -/
theorem textField_loses_entry :
    (recordClickEventOn luaIntegers epochDay textField 1 clickOnA).1.toOption = none ∧
      1 ∈ textField.pel ∧
      1 ∉ (recordClickEventOn luaIntegers epochDay textField 1 clickOnA).2.pel := by
  decide

end Kurl
