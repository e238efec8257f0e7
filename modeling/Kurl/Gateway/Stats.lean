import Kurl.Analytics.StatsWindow
import Kurl.Gateway.Create
import Kurl.InstantText
import Kurl.Lib.Past

/-!
# Kurl — the statistics page (`gateway/src/api/stats.rs`)

A page passes through three forms: the rows that the analytics service reads, the message of
`analytics.proto` with the dates as texts and the last click as a `Timestamp`, and the answer of
the gateway with both as texts. `stats_page` reads the last form back: it is what the tables held
when the two queries of the request read them, the second one with the clock that it was given. The
parts are

* what a request has read at each of its points (`StatsStage.Past`, kept by `past_step`), where
  `Machine.Performed` says in which state of the run a query was performed;
* what the call returns, which is the answer of the handler or, whatever the handler does, an error
  of the transport (`analyticsGetLinkStats`);
* the dates, read back by `NaiveDate.parseFromStr` (`read_dates`);
* the last click, through `Timestamp` and `from_timestamp` (`fromTimestamp_toUtc`) to a text in
  RFC 3339 (`DateTime.readRfc3339_toRfc3339`).
-/

namespace Kurl

open Lib

/-! ## The answer of the analytics service -/

/-- `proto::analytics` -/
structure Proto.DailyClicks where
  date : String
  clicks : Nat
  deriving DecidableEq

structure Proto.GetLinkStatsResponse where
  shortCode : String
  totalClicks : Nat
  dailyClicks : List Proto.DailyClicks
  lastClickedAt : Option Timestamp
  deriving DecidableEq

def StatsError.toStatus : StatsError → Status
  | .notFound => ⟨.notFound, "Short code not found"⟩
  | .internal => ⟨.internal, "Database error"⟩

def GetLinkStatsResponse.toProto (prost : ProstWkt) (response : GetLinkStatsResponse) :
    Proto.GetLinkStatsResponse where
  shortCode := response.shortCode
  totalClicks := response.totalClicks
  -- `day.to_string()` has the form of `%Y-%m-%d`
  dailyClicks := response.dailyClicks.map fun e => ⟨NaiveDate.format e.date, e.clicks⟩
  lastClickedAt := response.lastClickedAt.bind fun t => prost.ofDateTime t.toUtc

/-- `AnalyticsService::get_link_stats`, once the machine of the request is done. -/
def statsReply (prost : ProstWkt) :
    Except StatsError GetLinkStatsResponse → Except Status Proto.GetLinkStatsResponse
  | .ok response => .ok (response.toProto prost)
  | .error e => .error e.toStatus

/-! ## The answer of the gateway -/

/-- `analytics_get_link_stats`: the answer of the handler once it is done. The transport can fail at
any time, also while the handler is still at work. -/
def analyticsGetLinkStats (prost : ProstWkt) :
    StatsStage → Delivery → Option (Except Status Proto.GetLinkStatsResponse)
  | _, .failed status => some (.error status)
  | .done result _, .answered => some (statsReply prost result)
  | _, .answered => none

structure DailyClicksResp where
  date : String
  clicks : Nat
  deriving DecidableEq

structure LinkStatsResp where
  shortCode : String
  totalClicks : Nat
  dailyClicks : List DailyClicksResp
  lastClickedAt : Option String
  deriving DecidableEq

/-- `DateTime::from_timestamp`. A fraction of a second or more is a leap second, and only the last
second of a minute has one. -/
def fromTimestamp (seconds : Int) (nanos : Nat) : Option UtcDateTime :=
  if h : ((nanos : Int) < 2 * secondNanos ∧ ((nanos : Int) < secondNanos ∨ seconds % 60 = 59)) ∧
      minUtc ≤ seconds * secondNanos + nanos ∧ seconds * secondNanos + nanos ≤ maxUtc then
    some ⟨seconds, nanos, Int.natCast_nonneg nanos, h.1.1, h.2.1, h.2.2⟩
  else none

/-- `ts.nanos as u32` -/
def asU32 (n : Int) : Nat := (n % 2 ^ 32).toNat

def lastClickedText (ts : Timestamp) : String :=
  ((fromTimestamp ts.seconds (asU32 ts.nanos)).map DateTime.toRfc3339).getD ""

def LinkStatsResp.ofProto (resp : Proto.GetLinkStatsResponse) : LinkStatsResp where
  shortCode := resp.shortCode
  totalClicks := resp.totalClicks
  dailyClicks := resp.dailyClicks.map fun d => ⟨d.date, d.clicks⟩
  lastClickedAt := resp.lastClickedAt.map lastClickedText

/-- `link_stats` -/
def linkStatsPage : Except Status Proto.GetLinkStatsResponse → Except StatusCode LinkStatsResp
  | .ok resp => .ok (.ofProto resp)
  | .error error =>
    match error.code with
    | .notFound => .error .notFound
    | _ => .error .internalServerError

/-! ## What a page says -/

/-- A text in RFC 3339 has room for it. -/
def DateTime.HasFourDigits (t : DateTime) : Prop :=
  0 ≤ (CivilDate.ofDays t.dateNaive).year ∧ (CivilDate.ofDays t.dateNaive).year ≤ 9999

/-- The page, read back, is what the tables held. `read a P` says that the request performed its
query `a` on tables with `P`; a merge may have committed between the two queries. The daily rows are
those from so many days before the clock of the second query on. -/
structure LinkStatsResp.Reports (request : GetLinkStatsRequest)
    (read : StatsAction → (Postgres → Prop) → Prop) (page : LinkStatsResp) : Prop where
  shortCode : page.shortCode = request.shortCode
  totals : ∃ row, read .getLinkTotals (fun pg => pg.links.get request.shortCode = some row) ∧
    page.totalClicks = asU64 row.clickCount ∧
    (row.lastClickedAt = none → page.lastClickedAt = none) ∧
    ∀ t, row.lastClickedAt = some t → ∃ text, page.lastClickedAt = some text ∧ text ≠ "" ∧
      (DateTime.readRfc3339 text = some t ↔ t.HasFourDigits)
  daily : ∃ rows : List (NaiveDate × Int), ∃ tables, ∃ now : DateTime,
    read (.getLinkStats now) (fun pg => pg = tables) ∧
    (∀ day n, (day, n) ∈ rows ↔ tables.linkDailyClicks.get (request.shortCode, day) = some n ∧
      now.dateNaive - clampDays request.days ≤ day) ∧
    (rows.Pairwise fun row row' => row.1 < row'.1) ∧
    ((∀ row ∈ rows, NaiveDate.minYear ≤ (CivilDate.ofDays row.1).year ∧
        (CivilDate.ofDays row.1).year ≤ NaiveDate.maxYear) →
      page.dailyClicks.map (fun d => (NaiveDate.parseFromStr d.date, d.clicks)) =
        rows.map fun row => (some row.1, asU64 row.2))

/-- Each answer, and what it tells of the request: `failed` says that a query of it failed, or the
call. -/
def StatsPage (request : GetLinkStatsRequest) (read : StatsAction → (Postgres → Prop) → Prop)
    (failed : Prop) : Except StatusCode LinkStatsResp → Prop
  | .ok page => page.Reports request read
  | .error .notFound => read .getLinkTotals fun pg => pg.links.get request.shortCode = none
  | .error error => error = .internalServerError ∧ failed

/-! ## The texts -/

/-- The seconds and the fraction of an instant make the instant. -/
theorem fromTimestamp_toUtc (t : DateTime) :
    fromTimestamp t.toUtc.timestamp (asU32 t.toUtc.subsecNanos) = some t.toUtc := by
  have hnonneg := t.toUtc.nonneg
  have hwhole : t.toUtc.subsecNanos < secondNanos := Int.emod_lt_of_pos _ (by decide)
  have hfraction : (asU32 t.toUtc.subsecNanos : Int) = t.toUtc.subsecNanos := by
    unfold asU32
    unfold secondNanos at hwhole
    omega
  unfold fromTimestamp
  rw [dif_pos ⟨⟨by rw [hfraction]; exact t.toUtc.lt, .inl (by rw [hfraction]; exact hwhole)⟩,
    by rw [hfraction]; exact t.toUtc.lower, by rw [hfraction]; exact t.toUtc.upper⟩]
  congr 1
  ext
  · rfl
  · exact hfraction

theorem lastClickedText_toUtc (t : DateTime) :
    lastClickedText ⟨t.toUtc.timestamp, t.toUtc.subsecNanos⟩ = DateTime.toRfc3339 t.toUtc := by
  show ((fromTimestamp t.toUtc.timestamp (asU32 t.toUtc.subsecNanos)).map _).getD "" = _
  rw [fromTimestamp_toUtc]
  rfl

theorem DateTime.toRfc3339_ne_empty (t : UtcDateTime) : toRfc3339 t ≠ "" := by
  intro h
  have hlist := congrArg String.toList h
  unfold toRfc3339 at hlist
  rw [String.toList_ofList] at hlist
  -- a `T` stands between the date and the time
  exact List.cons_ne_nil _ _ (List.append_eq_nil_iff.mp hlist).2

theorem DateTime.readRfc3339_iff (t : DateTime) :
    readRfc3339 (toRfc3339 t.toUtc) = some t ↔ t.HasFourDigits := by
  rw [readRfc3339_toRfc3339]
  unfold HasFourDigits
  split
  · next hyear => exact iff_of_true rfl hyear
  · next hyear => exact iff_of_false (fun h => by cases h) hyear

/-- The dates of a page are those of the rows. -/
theorem read_dates {rows : List (NaiveDate × Int)}
    (hrows : ∀ row ∈ rows, NaiveDate.minYear ≤ (CivilDate.ofDays row.1).year ∧
      (CivilDate.ofDays row.1).year ≤ NaiveDate.maxYear) :
    (((toDailyClicks rows).map fun e => Proto.DailyClicks.mk (NaiveDate.format e.date) e.clicks).map
        fun d => DailyClicksResp.mk d.date d.clicks).map
      (fun d => (NaiveDate.parseFromStr d.date, d.clicks)) =
      rows.map fun row => (some row.1, asU64 row.2) := by
  unfold toDailyClicks
  simp only [List.map_map]
  refine List.map_congr_left fun row hrow => ?_
  show (NaiveDate.parseFromStr (NaiveDate.format row.1), asU64 row.2) = _
  rw [NaiveDate.parseFromStr_format (hrows row hrow)]

/-! ## What a request has read -/

/-- The local variables of a request at each of its points, by the queries it has performed. -/
def StatsStage.Past (request : GetLinkStatsRequest)
    (read : StatsAction → (Postgres → Prop) → Prop) (failed : Prop) : StatsStage → Prop
  | .getLinkTotals => True
  | .getLinkStats totalClicks lastClickedAt _ =>
    ∃ row, read .getLinkTotals (fun pg => pg.links.get request.shortCode = some row) ∧
      totalClicks = row.clickCount ∧ lastClickedAt = row.lastClickedAt
  | .done (.ok response) _ =>
    response.shortCode = request.shortCode ∧
    (∃ row, read .getLinkTotals (fun pg => pg.links.get request.shortCode = some row) ∧
      response.totalClicks = asU64 row.clickCount ∧
      response.lastClickedAt = row.lastClickedAt) ∧
    ∃ tables now, read (.getLinkStats now) (fun pg => pg = tables) ∧
      response.dailyClicks =
        toDailyClicks (tables.getLinkStats request.shortCode (clampDays request.days) now)
  | .done (.error .notFound) _ =>
    read .getLinkTotals fun pg => pg.links.get request.shortCode = none
  | .done (.error .internal) _ => failed

section Runs

variable {request : GetLinkStatsRequest}
variable {read read' : StatsAction → (Postgres → Prop) → Prop} {failed failed' : Prop}

theorem StatsStage.Past.mono (hmono : ∀ a P, read a P → read' a P) (hfailed : failed → failed')
    {stage : StatsStage} (h : stage.Past request read failed) :
    stage.Past request read' failed' := by
  cases stage with
  | getLinkTotals => trivial
  | getLinkStats totalClicks lastClickedAt added =>
    obtain ⟨row, hrow, hvalues⟩ := h
    exact ⟨row, hmono _ _ hrow, hvalues⟩
  | done result added =>
    cases result with
    | ok response =>
      obtain ⟨hcode, ⟨row, hrow, hvalues⟩, tables, now, htables, hdaily⟩ := h
      exact ⟨hcode, ⟨row, hmono _ _ hrow, hvalues⟩, tables, now, hmono _ _ htables, hdaily⟩
    | error e =>
      cases e with
      | notFound => exact hmono _ _ h
      | internal => exact hfailed h

/-- A merge changes no local variable. -/
theorem StatsStage.Past.merged {stage : StatsStage} (h : stage.Past request read failed)
    (growth : Int) : (stage.merged growth).Past request read failed := by
  cases stage with
  | getLinkTotals => trivial
  | getLinkStats totalClicks lastClickedAt added => exact h
  | done result added => exact h

/-- One step. What it reads it reads from the tables before it. -/
theorem past_step {st st' : StatsState} {a : StatsAction}
    (hstep : (linkStats request).step st a = some st')
    (hread : ∀ P : Postgres → Prop, P st.pg → read a P) (hfails : a = .queryFails → failed)
    (h : st.stage.Past request read failed) : st'.stage.Past request read failed := by
  cases StatsState.Step.of_step hstep with
  | merge _ _ =>
    -- a merge makes the past longer and reads nothing
    exact h.merged _
  | @found row _ hrow => exact ⟨row, hread _ hrow, rfl, rfl⟩
  | missing _ hrow => exact hread _ hrow
  | getLinkStats now hstage =>
    -- the second query, with the total of the first
    rw [hstage] at h
    obtain ⟨row, hrow, rfl, rfl⟩ := h
    exact ⟨rfl, ⟨row, hrow, rfl, rfl⟩, st.pg, now, hread _ rfl, rfl⟩
  | queryFails => exact hfails rfl

/-- A run. -/
theorem past_run {st st' : StatsState} {as : List StatsAction} (hstart : st.stage = .getLinkTotals)
    (hrun : (linkStats request).run st as = some st') :
    st'.stage.Past request (fun a P => (linkStats request).Performed st as a fun t => P t.pg)
      (.queryFails ∈ as) := by
  refine Machine.run_invariant_of_past
    (I := fun as st' => st'.stage.Past request
      (fun a P => (linkStats request).Performed st as a fun t => P t.pg)
      (.queryFails ∈ as)) ?_ ?_ hrun
  · rw [hstart]
    trivial
  · -- the step performs its own query, and those before it stay performed
    intro as t a t' hbefore hstep h
    refine past_step hstep (fun P hP => Machine.Performed.now hbefore hP) ?_
      (h.mono (fun b P hP => hP.append [a]) (List.mem_append_left [a]))
    rintro rfl
    exact List.mem_append_right as (List.mem_singleton_self _)

end Runs

/-- What a request that is done has read is what its page says. -/
theorem StatsPage.of_past (prost : ProstWkt) {request : GetLinkStatsRequest}
    {read : StatsAction → (Postgres → Prop) → Prop} {failed : Prop}
    {result : Except StatsError GetLinkStatsResponse} {added : Int}
    (h : (StatsStage.done result added).Past request read failed) :
    StatsPage request read failed (linkStatsPage (statsReply prost result)) := by
  cases result with
  | error e =>
    cases e with
    | notFound => exact h
    | internal => exact ⟨rfl, h⟩
  | ok response =>
    obtain ⟨hcode, ⟨row, hrow, htotal, hlast⟩, tables, now, htables, hdaily⟩ := h
    have hpage : (LinkStatsResp.ofProto (response.toProto prost)).lastClickedAt =
        row.lastClickedAt.map fun t => DateTime.toRfc3339 t.toUtc := by
      show (response.lastClickedAt.bind fun t => prost.ofDateTime t.toUtc).map lastClickedText = _
      rw [hlast]
      cases row.lastClickedAt with
      | none => rfl
      | some t =>
        rw [Option.bind_some, prost.ofDateTime_eq, Option.map_some, lastClickedText_toUtc,
          Option.map_some]
    refine ⟨hcode, ⟨row, hrow, htotal, fun hnone => ?_, fun t ht => ?_⟩,
      ⟨tables.getLinkStats request.shortCode (clampDays request.days) now, tables, now, htables,
        fun day n => mem_getLinkStats_iff, ?_, fun hdates => ?_⟩⟩
    · rw [hpage, hnone]
      rfl
    · rw [hpage, ht]
      exact ⟨_, rfl, DateTime.toRfc3339_ne_empty _, t.readRfc3339_iff⟩
    · have hascending :=
        pairwise_getLinkStats tables request.shortCode (clampDays request.days) now
      unfold toDailyClicks at hascending
      rwa [List.pairwise_map] at hascending
    · show ((response.dailyClicks.map _).map _).map _ = _
      rw [hdaily]
      exact read_dates hdates

/-- A failure of the call is a 500, unless its status says `NotFound`. -/
theorem linkStatsPage_of_failed {status : Status} (h : status.code ≠ .notFound) :
    linkStatsPage (.error status) = .error .internalServerError := by
  unfold linkStatsPage
  split
  · next heq => cases heq
  · next error heq =>
    obtain rfl := Except.error.inj heq
    split
    · next hcode => exact absurd hcode h
    · rfl

/-- **A statistics page is true.** Whatever merges commit while a request is served, and whatever
becomes of the call: a 404 is given only if the link was absent when its row was read, a 500 only if
a query failed, or the call; and a page, read back, has the total and the last click of the row as
they were when it was read, and the daily rows of the window as they were when those were. -/
theorem stats_page (prost : ProstWkt) {request : GetLinkStatsRequest} {st st' : StatsState}
    {as : List StatsAction} (hstart : st.stage = .getLinkTotals)
    (hrun : (linkStats request).run st as = some st') {delivery : Delivery}
    (htransport : ∀ status, delivery = .failed status → status.code ≠ .notFound)
    {reply : Except Status Proto.GetLinkStatsResponse}
    (hreply : analyticsGetLinkStats prost st'.stage delivery = some reply) :
    StatsPage request (fun a P => (linkStats request).Performed st as a fun t => P t.pg)
      (.queryFails ∈ as ∨ delivery ≠ .answered) (linkStatsPage reply) := by
  cases delivery with
  | failed status =>
    obtain rfl : Except.error status = reply := by
      unfold analyticsGetLinkStats at hreply
      exact Option.some.inj hreply
    rw [linkStatsPage_of_failed (htransport status rfl)]
    exact ⟨rfl, .inr fun h => by cases h⟩
  | answered =>
    -- only a handler that is done has an answer
    cases hstage : st'.stage with
    | getLinkTotals =>
      rw [hstage] at hreply
      cases hreply
    | getLinkStats totalClicks lastClickedAt added =>
      rw [hstage] at hreply
      cases hreply
    | done result added =>
      rw [hstage] at hreply
      obtain rfl := Option.some.inj hreply
      have hpast := past_run hstart hrun
      rw [hstage] at hpast
      exact StatsPage.of_past prost (hpast.mono (fun _ _ hP => hP) Or.inl)

/-- A link with one click, at the epoch, which is not yet in a daily row. -/
def clickedAtEpoch : Postgres :=
  { Postgres.empty with
    links := Table.empty.set "a" ⟨"https://example.org", none, 1, some DateTime.unixEpoch⟩ }

theorem run_clickedAtEpoch :
    ((linkStats ⟨"a", none⟩).run ⟨clickedAtEpoch, .getLinkTotals⟩ mergeBetween).map
      StatsState.stage =
        some (.done (.ok ⟨"a", 1, [⟨0, 5⟩], some DateTime.unixEpoch⟩) 5) := by
  decide +kernel

/-- The page of a request that a merge comes in between. -/
def pageBetween : LinkStatsResp :=
  ⟨"a", 1, [⟨"1970-01-01", 5⟩], some "1970-01-01T00:00:00+00:00"⟩

theorem linkStatsPage_clickedAtEpoch :
    linkStatsPage (statsReply prostWkt (.ok ⟨"a", 1, [⟨0, 5⟩], some DateTime.unixEpoch⟩)) =
      .ok pageBetween := by
  have hdate : NaiveDate.format 0 = "1970-01-01" := by decide
  have hlast : lastClickedText ⟨0, 0⟩ = "1970-01-01T00:00:00+00:00" := by decide
  show Except.ok (LinkStatsResp.mk "a" 1 [⟨NaiveDate.format 0, 5⟩]
    (some (lastClickedText ⟨0, 0⟩))) = _
  rw [hdate, hlast]
  rfl

theorem stats_page_mergeBetween : ∃ st,
    (linkStats ⟨"a", none⟩).run ⟨clickedAtEpoch, .getLinkTotals⟩ mergeBetween = some st ∧
      StatsPage ⟨"a", none⟩ (fun a P => (linkStats ⟨"a", none⟩).Performed
          ⟨clickedAtEpoch, .getLinkTotals⟩ mergeBetween a fun t => P t.pg)
        (.queryFails ∈ mergeBetween ∨ Delivery.answered ≠ .answered) (.ok pageBetween) := by
  obtain ⟨st, hrun, hdone⟩ := Option.map_eq_some_iff.mp run_clickedAtEpoch
  have htransport (status : Status) (h : Delivery.answered = .failed status) :
      status.code ≠ .notFound := by cases h
  have hpage := stats_page prostWkt rfl hrun htransport (by rw [hdone]; rfl)
  rw [linkStatsPage_clickedAtEpoch] at hpage
  exact ⟨st, hrun, hpage⟩

end Kurl
