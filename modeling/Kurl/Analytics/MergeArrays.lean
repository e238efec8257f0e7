import Kurl.Analytics.MergeSpec

/-!
# Kurl — the arrays of a merge (`analytics/src/db/pg_snapshot_repo.rs`)

`merge_snapshot` binds its rows as columns: one vector for each column, filled by loops over hash
maps in whatever order these are met. Postgres refuses an upsert that touches one row twice, and an
`update .. from` applies one source row to a target and drops the others, so the vectors have to be
keyed without repetition.

The loops are modelled here push by push, and each is shown to leave the columns of the rows that
`Kurl.Analytics.MergeSnapshot` computes with: `globalArrays_eq` and `linkArrays_eq` for the upserts,
`deltaArrays_eq` for the update, which two loops over two different maps fill. What holds of the
columns follows from the rows (`keyedOnce_mergeArrays`, `complete_mergeArrays_iff`).

`KeyedOnce` is unconditional. `Complete` is not: the deltas of a code are added up in `i64`, and
those of two days can wrap to a sum that is not positive, so that the code is missing from the
update (`links_update_misses_twoFullLinkDays`).
-/

namespace Kurl

open Lib

/-! ## The loops -/

/-- What the loop over `global_daily` fills. -/
structure GlobalArrays where
  upsertDates : List NaiveDate
  upsertClicks : List Int
  totalGlobalDelta : Int
  committedGlobal : HashMap NaiveDate Int

namespace GlobalArrays

def empty : GlobalArrays := ⟨[], [], 0, HashMap.empty⟩

/-- The body of the loop. -/
def push (existing : Table NaiveDate Int) (a : GlobalArrays) (e : NaiveDate × Int) :
    GlobalArrays :=
  let merged := calculateMergeDelta (existing.val e.1) e.2
  { upsertDates := a.upsertDates ++ [e.1]
    upsertClicks := a.upsertClicks ++ [merged.1]
    totalGlobalDelta := addWrapping a.totalGlobalDelta merged.2
    committedGlobal := a.committedGlobal.insert e.1 merged.1 }

end GlobalArrays

/-- The vectors bound to the upsert of `global_daily_clicks`. -/
def globalArrays (s : RedisSnapshot) (existing : Table NaiveDate Int) : GlobalArrays :=
  s.globalDaily.entries.foldl (GlobalArrays.push existing) GlobalArrays.empty

/-- What the loop over `link_daily` fills. -/
structure LinkArrays where
  upsertCodes : List String
  upsertDates : List NaiveDate
  upsertClicks : List Int
  linkDeltas : HashMap String Int
  committedLinks : HashMap (String × NaiveDate) Int

namespace LinkArrays

def empty : LinkArrays := ⟨[], [], [], HashMap.empty, HashMap.empty⟩

/-- The body of the loop. -/
def push (existing : Table (String × NaiveDate) Int) (a : LinkArrays)
    (e : (String × NaiveDate) × Int) : LinkArrays :=
  let merged := calculateMergeDelta (existing.val e.1) e.2
  { upsertCodes := a.upsertCodes ++ [e.1.1]
    upsertDates := a.upsertDates ++ [e.1.2]
    upsertClicks := a.upsertClicks ++ [merged.1]
    linkDeltas := a.linkDeltas.addTo e.1.1 merged.2
    committedLinks := a.committedLinks.insert e.1 merged.1 }

end LinkArrays

/-- The vectors bound to the upsert of `link_daily_clicks`. -/
def linkArrays (s : RedisSnapshot) (existing : Table (String × NaiveDate) Int) : LinkArrays :=
  s.linkDaily.entries.foldl (LinkArrays.push existing) LinkArrays.empty

/-- The vectors bound to the update of `links`. -/
structure DeltaArrays where
  deltaCodes : List String
  deltaCounts : List Int
  deltaTimestamps : List DateTime

namespace DeltaArrays

def empty : DeltaArrays := ⟨[], [], []⟩

def push (a : DeltaArrays) (code : String) (count : Int) (ts : DateTime) : DeltaArrays where
  deltaCodes := a.deltaCodes ++ [code]
  deltaCounts := a.deltaCounts ++ [count]
  deltaTimestamps := a.deltaTimestamps ++ [ts]

/-- The body of the loop over `link_deltas`. -/
def pushDelta (lastClickedAt : HashMap String DateTime) (a : DeltaArrays) (e : String × Int) :
    DeltaArrays :=
  if 0 < e.2 ∨ lastClickedAt.containsKey e.1 then
    a.push e.1 (max e.2 0) ((lastClickedAt.get e.1).getD DateTime.unixEpoch)
  else a

/-- The body of the loop over `last_clicked_at`. -/
def pushClicked (linkDeltas : HashMap String Int) (a : DeltaArrays) (e : String × DateTime) :
    DeltaArrays :=
  if !linkDeltas.containsKey e.1 then a.push e.1 0 e.2 else a

/-- The columns of some rows. -/
def ofRows (rows : List (String × Postgres.LinkDelta)) : DeltaArrays where
  deltaCodes := rows.map Prod.fst
  deltaCounts := rows.map fun r => r.2.delta
  deltaTimestamps := rows.map fun r => r.2.ts

end DeltaArrays

/-- The two loops that fill them, one after the other. -/
def deltaArrays (s : RedisSnapshot) (linkDeltas : HashMap String Int) : DeltaArrays :=
  s.lastClickedAt.entries.foldl (DeltaArrays.pushClicked linkDeltas)
    (linkDeltas.entries.foldl (DeltaArrays.pushDelta s.lastClickedAt) DeltaArrays.empty)

/-- All that a merge binds. -/
structure MergeArrays where
  global : GlobalArrays
  links : LinkArrays
  deltas : DeltaArrays

/-- The arrays of `merge_snapshot` for the rows it read. `linkDeltas` is the map of deltas as the
loop over it meets them. Without link buckets the update of `links` is not run. -/
def mergeArrays (s : RedisSnapshot) (existingGlobal : Table NaiveDate Int)
    (existingLinks : Table (String × NaiveDate) Int) (linkDeltas : HashMap String Int) :
    MergeArrays where
  global := globalArrays s existingGlobal
  links := linkArrays s existingLinks
  deltas := if s.linkDaily.isEmpty then DeltaArrays.empty else deltaArrays s linkDeltas

/-! ## What the loops leave -/

section Loops

variable {s : RedisSnapshot}

/-- **The loop over `global_daily`** leaves the columns of the rows to upsert, and the outcome. -/
theorem globalArrays_eq (s : RedisSnapshot) (existing : Table NaiveDate Int) :
    globalArrays s existing =
      { upsertDates := (committedRows s.globalDaily existing).map Prod.fst
        upsertClicks := (committedRows s.globalDaily existing).map Prod.snd
        totalGlobalDelta := s.totalGlobalDelta existing
        committedGlobal := committedMap s.globalDaily existing } := by
  -- from any vectors, which the loop extends
  have hfold : ∀ (l : List (NaiveDate × Int)) (a : GlobalArrays),
      l.foldl (GlobalArrays.push existing) a =
        { upsertDates := a.upsertDates ++ l.map Prod.fst
          upsertClicks := a.upsertClicks ++
            l.map fun e => (calculateMergeDelta (existing.val e.1) e.2).1
          totalGlobalDelta :=
            (l.map fun e => (calculateMergeDelta (existing.val e.1) e.2).2).foldl addWrapping
              a.totalGlobalDelta
          committedGlobal :=
            (l.map fun e => (e.1, (calculateMergeDelta (existing.val e.1) e.2).1)).foldl
              (fun m e => m.insert e.1 e.2) a.committedGlobal } := by
    intro l
    induction l with
    | nil => intro a; simp
    | cons e l ih =>
      intro a
      rw [List.foldl_cons, ih]
      simp [GlobalArrays.push]
  have hmap : HashMap.ofList (committedRows s.globalDaily existing) =
      committedMap s.globalDaily existing :=
    HashMap.ofList_eq (nodup_committedRows _ _)
  unfold globalArrays
  rw [hfold, ← hmap]
  simp [GlobalArrays.empty, committedRows, RedisSnapshot.totalGlobalDelta, mergeDeltas,
    HashMap.ofList, Function.comp_def]

/-- **The loop over `link_daily`**, likewise. -/
theorem linkArrays_eq (s : RedisSnapshot) (existing : Table (String × NaiveDate) Int) :
    linkArrays s existing =
      { upsertCodes := (committedRows s.linkDaily existing).map fun r => r.1.1
        upsertDates := (committedRows s.linkDaily existing).map fun r => r.1.2
        upsertClicks := (committedRows s.linkDaily existing).map Prod.snd
        linkDeltas := s.linkDeltas existing
        committedLinks := committedMap s.linkDaily existing } := by
  have hfold : ∀ (l : List ((String × NaiveDate) × Int)) (a : LinkArrays),
      l.foldl (LinkArrays.push existing) a =
        { upsertCodes := a.upsertCodes ++ l.map fun e => e.1.1
          upsertDates := a.upsertDates ++ l.map fun e => e.1.2
          upsertClicks := a.upsertClicks ++
            l.map fun e => (calculateMergeDelta (existing.val e.1) e.2).1
          linkDeltas :=
            (l.map fun e => (e.1.1, (calculateMergeDelta (existing.val e.1) e.2).2)).foldl
              (fun m e => m.addTo e.1 e.2) a.linkDeltas
          committedLinks :=
            (l.map fun e => (e.1, (calculateMergeDelta (existing.val e.1) e.2).1)).foldl
              (fun m e => m.insert e.1 e.2) a.committedLinks } := by
    intro l
    induction l with
    | nil => intro a; simp
    | cons e l ih =>
      intro a
      rw [List.foldl_cons, ih]
      simp [LinkArrays.push]
  have hmap : HashMap.ofList (committedRows s.linkDaily existing) =
      committedMap s.linkDaily existing :=
    HashMap.ofList_eq (nodup_committedRows _ _)
  unfold linkArrays
  rw [hfold, ← hmap]
  simp [LinkArrays.empty, committedRows, RedisSnapshot.linkDeltas, mergeDeltas,
    HashMap.accumulate, HashMap.ofList, Function.comp_def]

namespace DeltaArrays

theorem push_ofRows (rows : List (String × Postgres.LinkDelta)) (code : String) (count : Int)
    (ts : DateTime) : (ofRows rows).push code count ts = ofRows (rows ++ [(code, ⟨count, ts⟩)]) := by
  simp [push, ofRows]

theorem foldl_pushDelta (lastClickedAt : HashMap String DateTime) (l : List (String × Int))
    (rows : List (String × Postgres.LinkDelta)) :
    l.foldl (pushDelta lastClickedAt) (ofRows rows) = ofRows (rows ++
      (l.filter fun e => 0 < e.2 ∨ lastClickedAt.containsKey e.1).map fun e =>
        (e.1, ⟨max e.2 0, (lastClickedAt.get e.1).getD DateTime.unixEpoch⟩)) := by
  induction l generalizing rows with
  | nil => simp
  | cons e l ih =>
    rw [List.foldl_cons, pushDelta]
    by_cases hsent : 0 < e.2 ∨ lastClickedAt.containsKey e.1 = true
    · rw [if_pos hsent, push_ofRows, ih, List.filter_cons_of_pos (by simpa using hsent)]
      simp
    · rw [if_neg hsent, ih, List.filter_cons_of_neg (by simpa using hsent)]

theorem foldl_pushClicked (linkDeltas : HashMap String Int) (l : List (String × DateTime))
    (rows : List (String × Postgres.LinkDelta)) :
    l.foldl (pushClicked linkDeltas) (ofRows rows) = ofRows (rows ++
      (l.filter fun e => !linkDeltas.containsKey e.1).map fun e => (e.1, ⟨0, e.2⟩)) := by
  induction l generalizing rows with
  | nil => simp
  | cons e l ih =>
    rw [List.foldl_cons, pushClicked]
    by_cases hnew : (!linkDeltas.containsKey e.1) = true
    · rw [if_pos hnew, push_ofRows, ih, List.filter_cons, if_pos hnew]
      simp
    · rw [if_neg hnew, ih, List.filter_cons, if_neg hnew]

end DeltaArrays

/-- **The two loops** leave the columns of the rows of the update. -/
theorem deltaArrays_eq (s : RedisSnapshot) (linkDeltas : HashMap String Int) :
    deltaArrays s linkDeltas = DeltaArrays.ofRows (s.deltaRows linkDeltas) := by
  have hempty : DeltaArrays.empty = DeltaArrays.ofRows [] := rfl
  unfold deltaArrays
  rw [hempty, DeltaArrays.foldl_pushDelta, DeltaArrays.foldl_pushClicked]
  rfl

end Loops

/-! ## Keys without repetition -/

/-- The vectors of each statement have one length, and no key occurs twice in a statement. -/
structure MergeArrays.KeyedOnce (a : MergeArrays) : Prop where
  globalClicks : a.global.upsertClicks.length = a.global.upsertDates.length
  globalDays : a.global.upsertDates.Nodup
  linkDates : a.links.upsertDates.length = a.links.upsertCodes.length
  linkClicks : a.links.upsertClicks.length = a.links.upsertCodes.length
  linkDays : (a.links.upsertCodes.zip a.links.upsertDates).Nodup
  deltaCounts : a.deltas.deltaCounts.length = a.deltas.deltaCodes.length
  deltaTimestamps : a.deltas.deltaTimestamps.length = a.deltas.deltaCodes.length
  deltaCodes : a.deltas.deltaCodes.Nodup

/-- Every bucket is in its upsert, and every code whose deltas have a positive sum is in the update
with this sum and no other count. -/
structure MergeArrays.Complete (a : MergeArrays) (s : RedisSnapshot)
    (existingGlobal : Table NaiveDate Int) (existingLinks : Table (String × NaiveDate) Int) :
    Prop where
  global : ∀ e ∈ s.globalDaily.entries, (e.1, max (existingGlobal.val e.1) e.2) ∈
    a.global.upsertDates.zip a.global.upsertClicks
  links : ∀ e ∈ s.linkDaily.entries, (e.1, max (existingLinks.val e.1) e.2) ∈
    (a.links.upsertCodes.zip a.links.upsertDates).zip a.links.upsertClicks
  deltas : ∀ code, 0 < linkDeltaSum s existingLinks code → ∀ n,
    (code, n) ∈ a.deltas.deltaCodes.zip a.deltas.deltaCounts ↔
      n = linkDeltaSum s existingLinks code

section Arrays

variable {s : RedisSnapshot} {existingGlobal : Table NaiveDate Int}
  {existingLinks : Table (String × NaiveDate) Int} {linkDeltas : HashMap String Int}

/-- The update of `links` binds the columns of some rows with distinct codes. -/
theorem deltas_mergeArrays (s : RedisSnapshot) (existingGlobal : Table NaiveDate Int)
    (existingLinks : Table (String × NaiveDate) Int) (linkDeltas : HashMap String Int) :
    ∃ rows : List (String × Postgres.LinkDelta), (rows.map Prod.fst).Nodup ∧
      (mergeArrays s existingGlobal existingLinks linkDeltas).deltas = DeltaArrays.ofRows rows ∧
      (s.linkDaily.isEmpty = false → rows = s.deltaRows linkDeltas) := by
  unfold mergeArrays
  by_cases hempty : s.linkDaily.isEmpty = true
  · exact ⟨[], List.nodup_nil, if_pos hempty, fun h => absurd hempty (by simp [h])⟩
  · refine ⟨s.deltaRows linkDeltas, nodup_deltaRows s linkDeltas, ?_, fun _ => rfl⟩
    simp only [if_neg hempty]
    exact deltaArrays_eq s linkDeltas

/-- **Keys without repetition**, in every statement, for every snapshot, all rows that were read
and every order in which the deltas are met. -/
theorem keyedOnce_mergeArrays (s : RedisSnapshot) (existingGlobal : Table NaiveDate Int)
    (existingLinks : Table (String × NaiveDate) Int) (linkDeltas : HashMap String Int) :
    (mergeArrays s existingGlobal existingLinks linkDeltas).KeyedOnce := by
  obtain ⟨rows, hrows, hdeltas, -⟩ := deltas_mergeArrays s existingGlobal existingLinks linkDeltas
  have hglobal : (mergeArrays s existingGlobal existingLinks linkDeltas).global = _ :=
    globalArrays_eq s existingGlobal
  have hlinks : (mergeArrays s existingGlobal existingLinks linkDeltas).links = _ :=
    linkArrays_eq s existingLinks
  constructor
  case globalClicks => simp [hglobal]
  case globalDays =>
    rw [hglobal]
    exact nodup_committedRows _ _
  case linkDates => simp [hlinks]
  case linkClicks => simp [hlinks]
  case linkDays =>
    -- the pairs of a code and a day are the keys of the bucket map
    rw [hlinks, List.zip_map']
    exact nodup_committedRows s.linkDaily existingLinks
  case deltaCounts => simp [hdeltas, DeltaArrays.ofRows]
  case deltaTimestamps => simp [hdeltas, DeltaArrays.ofRows]
  case deltaCodes =>
    rw [hdeltas]
    exact hrows

/-- The count of the update for a code with a positive sum: the sum as it was accumulated, which is
sent only if it is positive or comes with a timestamp. -/
theorem count_deltaRows (horder : linkDeltas.Same (s.linkDeltas existingLinks)) {code : String}
    (hcode : s.HasCode code) {n : Int} :
    (code, n) ∈ (s.deltaRows linkDeltas).map (fun r => (r.1, r.2.delta)) ↔
      n = max (wrapI64 (linkDeltaSum s existingLinks code)) 0 ∧
        (0 < n ∨ s.lastClickedAt.containsKey code = true) := by
  have hnodup : (((s.deltaRows linkDeltas).map fun r => (r.1, r.2.delta)).map Prod.fst).Nodup := by
    rw [List.map_map]
    exact nodup_deltaRows s linkDeltas
  rw [← assoc_eq_some_iff hnodup, assoc_map (s.deltaRows linkDeltas) fun r => r.2.delta,
    assoc_deltaRows, horder, get_linkDeltas, if_pos hcode, HashMap.containsKey]
  generalize wrapI64 (linkDeltaSum s existingLinks code) = delta
  cases s.lastClickedAt.get code with
  | some ts => simp [incomingDelta, eq_comm]
  | none =>
    by_cases hdelta : 0 < delta
    · have hmax : max delta 0 = delta := max_eq_left (le_of_lt hdelta)
      simp only [incomingDelta, hdelta, if_true, hmax]
      grind
    · have hmax : max delta 0 = 0 := max_eq_right (not_lt.mp hdelta)
      simp only [incomingDelta, hdelta, if_false, hmax]
      grind

/-- **No delta is dropped, exactly if none wraps**: the links update has every positive sum if and
only if no sum of the deltas of a code exceeds the 64-bit range. -/
theorem complete_mergeArrays_iff (existingGlobal : Table NaiveDate Int)
    (horder : linkDeltas.Same (s.linkDeltas existingLinks)) :
    (mergeArrays s existingGlobal existingLinks linkDeltas).Complete s existingGlobal
      existingLinks ↔ ∀ code, linkDeltaSum s existingLinks code ≤ i64Max := by
  obtain ⟨rows, -, hdeltas, hrows⟩ :=
    deltas_mergeArrays s existingGlobal existingLinks linkDeltas
  -- a positive sum makes the code one of the snapshot, so the loop has pushed its delta
  have hmem : ∀ code, 0 < linkDeltaSum s existingLinks code → ∀ n,
      (code, n) ∈ (mergeArrays s existingGlobal existingLinks linkDeltas).deltas.deltaCodes.zip
          (mergeArrays s existingGlobal existingLinks linkDeltas).deltas.deltaCounts ↔
        n = max (wrapI64 (linkDeltaSum s existingLinks code)) 0 ∧
          (0 < n ∨ s.lastClickedAt.containsKey code = true) := by
    intro code hpos n
    have hcode : s.HasCode code := by
      by_contra hnot
      rw [linkDeltaSum_eq_zero hnot] at hpos
      exact lt_irrefl _ hpos
    have hsome : s.linkDaily.isEmpty = false := by
      rw [Bool.eq_false_iff]
      exact fun hempty => RedisSnapshot.not_hasCode hempty code hcode
    rw [hdeltas, hrows hsome, ← count_deltaRows horder hcode]
    show _ ∈ List.zip _ _ ↔ _
    rw [DeltaArrays.ofRows, List.zip_map']
  constructor
  · intro hcomplete code
    by_contra hover
    have hpos : 0 < linkDeltaSum s existingLinks code := by
      have hmax : (0 : Int) ≤ i64Max := by decide
      omega
    have hsent := (hmem code hpos _).mp ((hcomplete.deltas code hpos _).mpr rfl)
    exact hover ((max_wrapI64_eq_iff (le_of_lt hpos)).mp hsent.1.symm)
  · intro hfit
    constructor
    case global =>
      intro e he
      show _ ∈ List.zip (globalArrays s existingGlobal).upsertDates _
      rw [mergeArrays, globalArrays_eq, List.zip_map', List.map_id'']
      · exact mem_committedRows.mpr ⟨e.2, s.globalDaily.get_eq_some_iff.mpr he, rfl⟩
      · exact fun r => rfl
    case links =>
      intro e he
      show _ ∈ List.zip (List.zip (linkArrays s existingLinks).upsertCodes _) _
      rw [mergeArrays, linkArrays_eq, List.zip_map', List.zip_map', List.map_id'']
      · exact mem_committedRows.mpr ⟨e.2, s.linkDaily.get_eq_some_iff.mpr he, rfl⟩
      · exact fun r => rfl
    case deltas =>
      intro code hpos n
      rw [hmem code hpos, (max_wrapI64_eq_iff (le_of_lt hpos)).mpr (hfit code)]
      exact ⟨fun h => h.1, fun h => ⟨h, Or.inl (h ▸ hpos)⟩⟩

/-- **The batched arrays.** No key is repeated in a statement, every bucket is in its upsert and
every positive sum of deltas in the update of `links`, exactly if no such sum leaves the 64-bit
range. -/
theorem merge_arrays_iff
    (horder : linkDeltas.Same (linkArrays s existingLinks).linkDeltas) :
    ((mergeArrays s existingGlobal existingLinks linkDeltas).KeyedOnce ∧
      (mergeArrays s existingGlobal existingLinks linkDeltas).Complete s existingGlobal
        existingLinks) ↔ ∀ code, linkDeltaSum s existingLinks code ≤ i64Max := by
  rw [linkArrays_eq] at horder
  rw [← complete_mergeArrays_iff existingGlobal horder]
  exact and_iff_right (keyedOnce_mergeArrays s existingGlobal existingLinks linkDeltas)

end Arrays

/-- Two days with `2^62` clicks each on one link. -/
def twoFullLinkDays : RedisSnapshot :=
  ⟨HashMap.empty, (HashMap.empty.insert ("abc", 0) (2 ^ 62)).insert ("abc", 1) (2 ^ 62),
    HashMap.empty, [], []⟩

/-- The deltas of the link wrap to a negative number, and the update of `links` leaves it out. -/
theorem links_update_misses_twoFullLinkDays :
    0 < linkDeltaSum twoFullLinkDays Table.empty "abc" ∧
    (mergeArrays twoFullLinkDays Table.empty Table.empty
      (linkArrays twoFullLinkDays Table.empty).linkDeltas).deltas.deltaCodes = [] ∧
    ¬ ((mergeArrays twoFullLinkDays Table.empty Table.empty
        (linkArrays twoFullLinkDays Table.empty).linkDeltas).KeyedOnce ∧
      (mergeArrays twoFullLinkDays Table.empty Table.empty
        (linkArrays twoFullLinkDays Table.empty).linkDeltas).Complete twoFullLinkDays
          Table.empty Table.empty) := by
  have hpos : 0 < linkDeltaSum twoFullLinkDays Table.empty "abc" := by decide
  have hcodes : (mergeArrays twoFullLinkDays Table.empty Table.empty
      (linkArrays twoFullLinkDays Table.empty).linkDeltas).deltas.deltaCodes = [] := by decide
  refine ⟨hpos, hcodes, ?_⟩
  rintro ⟨-, hcomplete⟩
  have hmem := (hcomplete.deltas "abc" hpos _).mpr rfl
  rw [hcodes] at hmem
  cases hmem

theorem merge_arrays_iff_twoFullLinkDays :
    ¬ ((mergeArrays twoFullLinkDays Table.empty Table.empty
        (linkArrays twoFullLinkDays Table.empty).linkDeltas).KeyedOnce ∧
      (mergeArrays twoFullLinkDays Table.empty Table.empty
        (linkArrays twoFullLinkDays Table.empty).linkDeltas).Complete twoFullLinkDays
          Table.empty Table.empty) := by
  rw [merge_arrays_iff fun _ => rfl]
  intro hfit
  exact absurd (hfit "abc") (by decide)

end Kurl
