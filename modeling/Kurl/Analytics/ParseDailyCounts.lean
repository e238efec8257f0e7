import Kurl.DateText
import Kurl.Lib.HashMap

/-!
# Kurl — the fields of a hash (`analytics/src/snapshot.rs`)

`parse_daily_counts` on what `HGETALL` returns: texts under texts, in the order in which the hash
map is iterated. Each field is an entry or malformed (`parseField`), and the entries are inserted
one after the other under their days (`parseDailyCounts_eq`).

The parser of days takes several texts for one day, and an insertion replaces. So a field is lost,
and which one depends on the order, exactly when two fields have the same day:
`parseDailyCounts_fieldByField_iff`.

`FieldByField` is what the caller relies on: every field counts once, as an entry or as malformed, a
well-formed one has its entry, and another order gives the same. The proof goes by the days of the
entries: that they are distinct is a property of the fields alone (`DistinctDays`), and so does not
depend on the order.
-/

namespace Kurl

open Lib

structure MalformedField where
  key : String
  value : String
  reason : String
  deriving DecidableEq

namespace Snapshot

/-- One turn of the loop of `parse_daily_counts`: the entry to insert, or the malformed field. -/
def parseField (e : String × String) : Except MalformedField (NaiveDate × Int) :=
  match NaiveDate.parseFromStr e.1 with
  | none => .error ⟨e.1, e.2, "invalid date format"⟩
  | some date =>
    match parseI64 e.2 with
    | some c => if 0 ≤ c then .ok (date, c) else .error ⟨e.1, e.2, "negative count"⟩
    | none => .error ⟨e.1, e.2, "invalid count"⟩

/-- `parse_daily_counts` -/
def parseDailyCounts (fields : HashMap String String) :
    HashMap NaiveDate Int × List MalformedField :=
  fields.entries.foldl (fun (valid, malformed) e =>
    match parseField e with
    | .ok (date, clicks) => (valid.insert date clicks, malformed)
    | .error field => (valid, malformed ++ [field])) (HashMap.empty, [])

/-! ## The loop -/

/-- The entry of a field. -/
def fieldEntry (e : String × String) : Option (NaiveDate × Int) := (parseField e).toOption

/-- The field as malformed. -/
def fieldMalformed (e : String × String) : Option MalformedField :=
  match parseField e with
  | .ok _ => none
  | .error field => some field

/-- **What the loop leaves**: the insertions in the order of the fields. -/
theorem parseDailyCounts_eq (fields : HashMap String String) : parseDailyCounts fields =
    (HashMap.ofList (fields.entries.filterMap fieldEntry),
      fields.entries.filterMap fieldMalformed) := by
  unfold parseDailyCounts HashMap.ofList
  -- from any map and any malformed fields
  suffices hloop : ∀ (l : List (String × String)) (valid : HashMap NaiveDate Int)
      (malformed : List MalformedField),
      l.foldl (fun (valid, malformed) e =>
          match parseField e with
          | .ok (date, clicks) => (valid.insert date clicks, malformed)
          | .error field => (valid, malformed ++ [field])) (valid, malformed) =
        ((l.filterMap fieldEntry).foldl (fun m e => m.insert e.1 e.2) valid,
          malformed ++ l.filterMap fieldMalformed) from hloop fields.entries HashMap.empty []
  intro l
  induction l with
  | nil =>
    intro valid malformed
    rw [List.filterMap_nil, List.filterMap_nil, List.append_nil]
    rfl
  | cons e l ih =>
    intro valid malformed
    rw [List.foldl_cons]
    cases hfield : parseField e with
    | ok entry =>
      have hentry : fieldEntry e = some entry := by rw [fieldEntry, hfield]; rfl
      have hmalformed : fieldMalformed e = none := by rw [fieldMalformed, hfield]
      rw [List.filterMap_cons_some hentry, List.filterMap_cons_none hmalformed]
      exact ih _ _
    | error field =>
      have hentry : fieldEntry e = none := by rw [fieldEntry, hfield]; rfl
      have hmalformed : fieldMalformed e = some field := by rw [fieldMalformed, hfield]
      rw [List.filterMap_cons_none hentry, List.filterMap_cons_some hmalformed]
      exact (ih _ _).trans (by rw [List.append_assoc]; rfl)

/-- Every field is an entry or malformed. -/
theorem length_entries_add_malformed (l : List (String × String)) :
    (l.filterMap fieldEntry).length + (l.filterMap fieldMalformed).length = l.length := by
  induction l with
  | nil => rfl
  | cons e l ih =>
    cases hfield : parseField e with
    | ok entry =>
      have hentry : fieldEntry e = some entry := by rw [fieldEntry, hfield]; rfl
      have hmalformed : fieldMalformed e = none := by rw [fieldMalformed, hfield]
      rw [List.filterMap_cons_some hentry, List.filterMap_cons_none hmalformed, List.length_cons,
        List.length_cons]
      omega
    | error field =>
      have hentry : fieldEntry e = none := by rw [fieldEntry, hfield]; rfl
      have hmalformed : fieldMalformed e = some field := by rw [fieldMalformed, hfield]
      rw [List.filterMap_cons_none hentry, List.filterMap_cons_some hmalformed, List.length_cons,
        List.length_cons]
      omega

/-- A field with a day and a count that is not negative. -/
theorem fieldEntry_eq_some_iff {e : String × String} {day : NaiveDate} {clicks : Int} :
    fieldEntry e = some (day, clicks) ↔
      NaiveDate.parseFromStr e.1 = some day ∧ parseI64 e.2 = some clicks ∧ 0 ≤ clicks := by
  unfold fieldEntry parseField
  cases NaiveDate.parseFromStr e.1 with
  | none => simp [Except.toOption]
  | some date =>
    cases parseI64 e.2 with
    | none => simp [Except.toOption]
    | some c =>
      by_cases hc : 0 ≤ c
      · simp only [if_pos hc, Except.toOption, Option.some.injEq, Prod.mk.injEq]
        exact ⟨fun ⟨hday, hcount⟩ => ⟨hday, hcount, hcount ▸ hc⟩, fun h => ⟨h.1, h.2.1⟩⟩
      · simp only [if_neg hc, Except.toOption, reduceCtorEq, Option.some.injEq, false_iff]
        rintro ⟨-, rfl, hnonneg⟩
        exact hc hnonneg

/-! ## Nothing lost, nothing merged -/

/-- Every field is counted once, each well-formed one has its entry, and another iteration order
leaves the same entries and the same malformed fields. -/
structure FieldByField (fields : HashMap String String) : Prop where
  count : (parseDailyCounts fields).1.entries.length + (parseDailyCounts fields).2.length =
    fields.entries.length
  own : ∀ e ∈ fields.entries, ∀ day clicks, NaiveDate.parseFromStr e.1 = some day →
    parseI64 e.2 = some clicks → 0 ≤ clicks → (parseDailyCounts fields).1.get day = some clicks
  order : ∀ fields' : HashMap String String, fields'.Same fields →
    (parseDailyCounts fields').1.Same (parseDailyCounts fields).1 ∧
      (parseDailyCounts fields').2.Perm (parseDailyCounts fields).2

/-- The field has a count that is not negative under this day. -/
def WellFormedOn (day : NaiveDate) (e : String × String) : Prop :=
  NaiveDate.parseFromStr e.1 = some day ∧ ∃ clicks, parseI64 e.2 = some clicks ∧ 0 ≤ clicks

/-- No two well-formed fields have the same day. -/
def DistinctDays (fields : HashMap String String) : Prop :=
  ∀ e ∈ fields.entries, ∀ e' ∈ fields.entries, ∀ day, WellFormedOn day e → WellFormedOn day e' →
    e = e'

section Fields

variable {fields : HashMap String String}

theorem wellFormedOn_iff {day : NaiveDate} {e : String × String} :
    WellFormedOn day e ↔ ∃ clicks, fieldEntry e = some (day, clicks) := by
  simp only [fieldEntry_eq_some_iff, WellFormedOn, exists_and_left]

/-- The days of the map are those of the well-formed fields. -/
theorem mem_keys_parseDailyCounts {day : NaiveDate} : day ∈ (parseDailyCounts fields).1.keys ↔
    ∃ e ∈ fields.entries, ∃ clicks, fieldEntry e = some (day, clicks) := by
  rw [parseDailyCounts_eq, HashMap.mem_keys_ofList, List.mem_map]
  constructor
  · rintro ⟨⟨_, clicks⟩, hentry, rfl⟩
    obtain ⟨e, he, hsome⟩ := List.mem_filterMap.mp hentry
    exact ⟨e, he, clicks, hsome⟩
  · rintro ⟨e, he, clicks, hsome⟩
    exact ⟨(day, clicks), List.mem_filterMap.mpr ⟨e, he, hsome⟩, rfl⟩

/-- Its counts are not negative. -/
theorem parseDailyCounts_nonneg : ∀ d ∈ (parseDailyCounts fields).1.entries, 0 ≤ d.2 := by
  rintro ⟨day, clicks⟩ hd
  have hget := (HashMap.get_eq_some_iff _).mpr hd
  rw [parseDailyCounts_eq, HashMap.get_ofList] at hget
  obtain ⟨e, -, hentry⟩ := List.mem_filterMap.mp (List.mem_reverse.mp (mem_of_assoc hget))
  exact (fieldEntry_eq_some_iff.mp hentry).2.2

/-- The days of the well-formed fields are distinct if no two of the fields share one. -/
theorem nodup_days_iff : ((fields.entries.filterMap fieldEntry).map Prod.fst).Nodup ↔
    DistinctDays fields := by
  rw [List.map_filterMap, nodup_filterMap_iff (fields.nodup.of_map _)]
  simp only [DistinctDays, wellFormedOn_iff, Option.map_eq_some_iff, Prod.exists, exists_and_right,
    exists_eq_right]

/-- The fields are all counted exactly if their days are distinct. -/
theorem count_iff : (parseDailyCounts fields).1.entries.length +
    (parseDailyCounts fields).2.length = fields.entries.length ↔ DistinctDays fields := by
  have hlength := length_entries_add_malformed fields.entries
  rw [parseDailyCounts_eq, ← nodup_days_iff, ← HashMap.length_ofList_iff]
  constructor <;> intro h <;> dsimp only at * <;> omega

/-- Then the entries are those of the fields. -/
theorem get_parseDailyCounts_iff (h : DistinctDays fields) {day : NaiveDate} {clicks : Int} :
    (parseDailyCounts fields).1.get day = some clicks ↔
      ∃ e ∈ fields.entries, fieldEntry e = some (day, clicks) := by
  rw [parseDailyCounts_eq]
  refine (HashMap.get_ofList_eq_some_iff fun e he e' he' hkey => ?_).trans List.mem_filterMap
  exact List.inj_on_of_nodup_map (nodup_days_iff.mpr h) he he' hkey

/-- Whether days are distinct does not depend on the order. -/
theorem DistinctDays.of_same {fields' : HashMap String String} (h : DistinctDays fields)
    (hsame : fields'.Same fields) : DistinctDays fields' := fun e he e' he' =>
  h e ((hsame.mem_entries e).mp he) e' ((hsame.mem_entries e').mp he')

/-- **A field is lost exactly if another one has its day.** For every hash that is read: all fields
are counted, all well-formed ones have their entries and the order of iteration does not matter, if
and only if no two well-formed fields have the same day. -/
theorem parseDailyCounts_fieldByField_iff (fields : HashMap String String) :
    FieldByField fields ↔ DistinctDays fields := by
  constructor
  · intro hfaithful
    exact count_iff.mp hfaithful.count
  · intro hdistinct
    refine ⟨count_iff.mpr hdistinct, ?_, fun fields' hsame => ⟨fun day => ?_, ?_⟩⟩
    · intro e he day clicks hday hcount hnonneg
      exact (get_parseDailyCounts_iff hdistinct).mpr
        ⟨e, he, fieldEntry_eq_some_iff.mpr ⟨hday, hcount, hnonneg⟩⟩
    · ext clicks
      rw [get_parseDailyCounts_iff (hdistinct.of_same hsame), get_parseDailyCounts_iff hdistinct]
      simp only [hsame.mem_entries]
    · rw [parseDailyCounts_eq, parseDailyCounts_eq]
      exact hsame.perm_entries.filterMap _

end Fields

/-- A day in two texts. -/
def paddedAndShort : HashMap String String :=
  (HashMap.empty.insert "2024-01-05" "3").insert "2024-1-5" "4"

/-- The same hash, iterated the other way round. -/
def shortAndPadded : HashMap String String :=
  (HashMap.empty.insert "2024-1-5" "4").insert "2024-01-05" "3"

/-- One of the counts is lost without being malformed, and the order decides which. -/
theorem paddedAndShort_loses :
    paddedAndShort.toTable = shortAndPadded.toTable ∧ paddedAndShort.entries.length = 2 ∧
      (parseDailyCounts paddedAndShort).1.get 19727 = some 4 ∧
      (parseDailyCounts shortAndPadded).1.get 19727 = some 3 ∧
      (parseDailyCounts paddedAndShort).1.entries.length = 1 ∧
      (parseDailyCounts paddedAndShort).2 = [] := by
  decide

end Snapshot

end Kurl
