import Kurl.Lib.Sql
import Kurl.Lib.Int64
import Kurl.Time

/-!
# Kurl — the Postgres tables and the statements on them

Four tables (`migrations/`): `links`, `link_daily_clicks` with its cascade, `global_daily_clicks`,
and the single row of `analytics_global`. A statement that writes is a function from what it sees to
the rows it writes (`Writes`), or to an error that writes nothing: an autocommitted statement
applies its rows at once, a transaction collects them and applies them when it commits.

The checks of the tables and the range of `bigint` are errors of the statement (`DbError`). An
upsert that meets one row twice is one as well, which is why the columns that a merge binds have to
be keyed without repetition.

A text with the byte NUL is no value of Postgres' `text`, so that a statement which binds one fails.
Only `create_link` says so here: no row has such a code, and the other statements find none where
Postgres would refuse the question.
-/

namespace Kurl

open Lib

/-- `DbError`, without the payload of the driver. -/
inductive DbError where
  | transient
  | conflict
  | notFound
  | other
  deriving DecidableEq

/-- A row of `links`; its key is `short_code`. -/
structure LinkRow where
  target : String
  expiration : Option DateTime
  clickCount : Int
  lastClickedAt : Option DateTime
  deriving DecidableEq

/-- The tables. `totalClicks` is the column of the one row of `analytics_global`. -/
structure Postgres where
  links : Table String LinkRow
  linkDailyClicks : Table (String × NaiveDate) Int
  globalDailyClicks : Table NaiveDate Int
  totalClicks : Int
  deriving DecidableEq

/-- Rows written by statements. -/
structure Writes where
  links : Table String LinkRow
  linkDailyClicks : Table (String × NaiveDate) Int
  globalDailyClicks : Table NaiveDate Int
  totalClicks : Option Int
  deriving DecidableEq

namespace Writes

def empty : Writes := ⟨Table.empty, Table.empty, Table.empty, none⟩

/-- Later rows over earlier ones. -/
def overlay (w v : Writes) : Writes where
  links := w.links.overlay v.links
  linkDailyClicks := w.linkDailyClicks.overlay v.linkDailyClicks
  globalDailyClicks := w.globalDailyClicks.overlay v.globalDailyClicks
  totalClicks := v.totalClicks.or w.totalClicks

@[simp] theorem overlay_empty (w : Writes) : w.overlay empty = w := by
  simp [overlay, empty]

end Writes

namespace Postgres

/-- The first day of the type `date`, 24 November 4714 BC. Its last one is later than chrono's. -/
def firstDay : NaiveDate := -2440588

/-- The first instant of `timestamptz` in nanoseconds. -/
def firstInstant : Int := firstDay * 86400000000000

/-- The tables as the migrations leave them. -/
def empty : Postgres := ⟨Table.empty, Table.empty, Table.empty, 0⟩

def overlay (pg : Postgres) (w : Writes) : Postgres where
  links := pg.links.overlay w.links
  linkDailyClicks := pg.linkDailyClicks.overlay w.linkDailyClicks
  globalDailyClicks := pg.globalDailyClicks.overlay w.globalDailyClicks
  totalClicks := w.totalClicks.getD pg.totalClicks

@[simp] theorem overlay_empty (pg : Postgres) : pg.overlay Writes.empty = pg := by
  simp [overlay, Writes.empty]

theorem overlay_overlay (pg : Postgres) (w v : Writes) :
    pg.overlay (w.overlay v) = (pg.overlay w).overlay v := by
  unfold overlay Writes.overlay
  simp only [Table.overlay_assoc]
  cases v.totalClicks <;> simp

/-! ## `core/src/db.rs` -/

/-- `core::db::Link`. -/
structure Link where
  target : String
  expiration : Option DateTime
  deriving DecidableEq

def getLink (pg : Postgres) (shortCode : String) : Except DbError Link :=
  match pg.links.get shortCode with
  | some row => .ok ⟨row.target, row.expiration⟩
  | none => .error .notFound

def linkExists (pg : Postgres) (shortCode : String) : Bool := (pg.links.get shortCode).isSome

/-- A row as `create_link` inserts it. -/
def newLink (target : String) (expiration : Option DateTime) : LinkRow :=
  ⟨target, expiration.map DateTime.toTimestamptz, 0, none⟩

/-- The byte NUL, which Postgres refuses in a text (`22021`, a `DbError::Other`). -/
def hasNul (text : String) : Bool := text.toList.contains (Char.ofNat 0)

/-- `insert into links`: NUL, the check `short_code_length` and the unique key. The target is not
looked at: it is the text of a URL, in which NUL is percent-encoded. -/
def createLink (pg : Postgres) (shortCode target : String) (expiration : Option DateTime) :
    Except DbError Postgres :=
  if hasNul shortCode then .error .other
  else if ¬ (0 < shortCode.length ∧ shortCode.length ≤ 40) then .error .other
  else if pg.linkExists shortCode then .error .conflict
  else .ok { pg with links := pg.links.set shortCode (newLink target expiration) }

/-- `delete from links`, with the cascade to `link_daily_clicks`. -/
def deleteLink (pg : Postgres) (shortCode : String) : Except DbError Postgres :=
  if pg.linkExists shortCode then
    .ok { pg with
      links := pg.links.erase shortCode
      linkDailyClicks := pg.linkDailyClicks.filter (fun k => k.1 ≠ shortCode) }
  else .error .notFound

/-- The codes that the column takes. -/
def HasRoom (shortCode : String) : Prop :=
  hasNul shortCode = false ∧ 0 < shortCode.length ∧ shortCode.length ≤ 40

theorem createLink_of_hasRoom {code : String} (hroom : HasRoom code) (pg : Postgres)
    (target : String) (expiration : Option DateTime) :
    pg.createLink code target expiration = if pg.linkExists code then .error .conflict
      else .ok { pg with links := pg.links.set code (newLink target expiration) } := by
  unfold createLink
  rw [hroom.1, if_neg Bool.false_ne_true, if_neg (not_not.mpr hroom.2)]

theorem createLink_of_not_hasRoom {code : String} (hroom : ¬ HasRoom code) (pg : Postgres)
    (target : String) (expiration : Option DateTime) :
    pg.createLink code target expiration = .error .other := by
  unfold createLink
  cases hnul : hasNul code with
  | true => rfl
  | false =>
    have hlength : ¬ (0 < code.length ∧ code.length ≤ 40) := fun h => hroom ⟨hnul, h⟩
    rw [if_neg Bool.false_ne_true, if_pos hlength]

/-- An insertion that succeeds adds one row, for a code without one. -/
theorem createLink_ok {pg pg' : Postgres} {code target : String} {expiration : Option DateTime}
    (h : pg.createLink code target expiration = .ok pg') : pg.links.get code = none ∧
      pg' = { pg with links := pg.links.set code (newLink target expiration) } := by
  by_cases hroom : HasRoom code
  · rw [createLink_of_hasRoom hroom] at h
    cases hexists : pg.linkExists code with
    | true =>
      rw [hexists, if_pos rfl] at h
      cases h
    | false =>
      rw [hexists, if_neg Bool.false_ne_true] at h
      exact ⟨by simpa [linkExists] using hexists, (Except.ok.inj h).symm⟩
  · rw [createLink_of_not_hasRoom hroom] at h
    cases h

/-- A deletion that succeeds takes the row and its daily rows. -/
theorem deleteLink_ok {pg pg' : Postgres} {code : String} (h : pg.deleteLink code = .ok pg') :
    pg' = { pg with
      links := pg.links.erase code
      linkDailyClicks := pg.linkDailyClicks.filter (fun k => k.1 ≠ code) } := by
  unfold deleteLink at h
  split at h
  · exact (Except.ok.inj h).symm
  · simp at h

/-! ## The statements of `merge_snapshot` -/

instance : LawfulBEq (String × NaiveDate) := inferInstance

/-- `select day, clicks from global_daily_clicks where day = any(dates)`. -/
def selectGlobal (pg : Postgres) (dates : List NaiveDate) : Table NaiveDate Int :=
  pg.globalDailyClicks.filter (fun d => d ∈ dates)

/-- `insert into global_daily_clicks .. on conflict (day) do update set clicks = greatest(..)`.
A proposed row that fails the check `clicks >= 0` fails the statement. The days are taken to be
from `firstDay` on; one before it is refused when it is bound (`RedisSnapshot.Bindable`). -/
def upsertGlobal (pg : Postgres) (rows : List (NaiveDate × Int)) : Except DbError Writes :=
  if rows.any (fun r => r.2 < 0) then .error .other
  else .ok { Writes.empty with globalDailyClicks := pg.globalDailyClicks.upsertRows rows }

/-- `update analytics_global set total_clicks = total_clicks + delta`. Leaving the `bigint`
range and the check `total_clicks >= 0` fail the statement. -/
def updateTotal (pg : Postgres) (delta : Int) : Except DbError Writes :=
  match addChecked pg.totalClicks delta with
  | some n => if n < 0 then .error .other else .ok { Writes.empty with totalClicks := some n }
  | none => .error .other

/-- `select short_code, day, clicks from link_daily_clicks where (short_code, day) in keys`. -/
def selectLinks (pg : Postgres) (keys : List (String × NaiveDate)) :
    Table (String × NaiveDate) Int :=
  pg.linkDailyClicks.filter (fun k => k ∈ keys)

/-- `insert into link_daily_clicks .. where exists (select 1 from links ..) on conflict ..`. As in
`upsertGlobal` the days are dates, and the codes are texts without NUL. -/
def upsertLinks (pg : Postgres) (rows : List ((String × NaiveDate) × Int)) :
    Except DbError Writes :=
  let rows := rows.filter (fun r => pg.linkExists r.1.1)
  if rows.any (fun r => r.2 < 0) then .error .other
  else .ok { Writes.empty with linkDailyClicks := pg.linkDailyClicks.upsertRows rows }

/-- One element of the three arrays bound to the update of `links`. -/
structure LinkDelta where
  delta : Int
  ts : DateTime
  deriving DecidableEq

/-- The row of `links` that one incoming element updates, if there is one. -/
def updateLink (pg : Postgres) (w : Writes) (incoming : String × LinkDelta) :
    Except DbError Writes :=
  match pg.links.get incoming.1 with
  | none => .ok w
  | some row =>
    match addChecked row.clickCount incoming.2.delta with
    | none => .error .other
    | some clickCount =>
      if clickCount < 0 then .error .other
      else .ok { w with links := w.links.set incoming.1 { row with
        clickCount := clickCount
        lastClickedAt := greatest row.lastClickedAt (some incoming.2.ts) } }

/-- `update links set click_count = click_count + incoming.delta,
last_clicked_at = greatest(last_clicked_at, incoming.ts) from unnest(..)`. -/
def updateLinks (pg : Postgres) (incoming : List (String × LinkDelta)) :
    Except DbError Writes :=
  incoming.foldlM pg.updateLink Writes.empty

end Postgres

end Kurl
