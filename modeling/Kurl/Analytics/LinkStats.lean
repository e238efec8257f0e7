import Mathlib.Data.Finset.Sort
import Kurl.Analytics.CreateRace
import Kurl.Analytics.FlushRetry

/-!
# Kurl — link statistics (`analytics/src/grpc.rs`, `analytics/src/db/db.rs`)

`get_link_stats` reads the totals of a link and then its daily rows, in two statements and without a
transaction, so merges can commit in between. The machine `linkStats` is one request among merges.
The clicks that merges add to the rows of the link between the two reads are kept beside the local
variables of the request (`added`); they are what the total can be short of (`sum_dailyClicks_le`).

`StatsInv` carries this along a run: the click count of the link is the sum of its rows, and the
total that the request remembers, with `added`, is the sum of the rows as they are now. A merge
raises rows and count by the same amount, which it pays into `added`. `mergeBetween_exceeds_total`
is a run in which the days of the answer add up to more than its total. What a step does is listed
in `StatsState.Step`, from which the other results about a request start as well.
-/

namespace Kurl

open Lib

/-- `tonic::Code`, as far as this service answers with it. -/
inductive StatsError where
  /-- "Short code not found" -/
  | notFound
  /-- "Database error" -/
  | internal
  deriving DecidableEq

/-- The request of `analytics.proto`. -/
structure GetLinkStatsRequest where
  shortCode : String
  days : Option Nat
  deriving DecidableEq

/-- One row of the answer. -/
structure DailyClicks where
  date : NaiveDate
  clicks : Nat
  deriving DecidableEq

/-- The answer of the handler, before it is a message. -/
structure GetLinkStatsResponse where
  shortCode : String
  totalClicks : Nat
  dailyClicks : List DailyClicks
  lastClickedAt : Option DateTime
  deriving DecidableEq

def defaultDays : Nat := 7

def maxDays : Nat := 90

/-- `clamp_days` -/
def clampDays (days : Option Nat) : Nat := max 1 (min (days.getD defaultDays) maxDays)

/-- `as u64` of an `i64`. -/
def asU64 (n : Int) : Nat := if 0 ≤ n then n.toNat else (n + 2 ^ 64).toNat

/-- `to_daily_clicks` -/
def toDailyClicks (rows : List (NaiveDate × Int)) : List DailyClicks :=
  rows.map fun row => ⟨row.1, asU64 row.2⟩

namespace Postgres

/-- `get_link_totals` -/
def getLinkTotals (pg : Postgres) (shortCode : String) :
    Except DbError (Int × Option DateTime) :=
  match pg.links.get shortCode with
  | some row => .ok (row.clickCount, row.lastClickedAt)
  | none => .error .notFound

/-- `get_link_stats`, ordered by day. -/
def getLinkStats (pg : Postgres) (shortCode : String) (days : Int) (now : DateTime) :
    List (NaiveDate × Int) :=
  let rows := pg.linkDailyClicks.filter fun k => k.1 = shortCode ∧ dayBefore now days ≤ k.2
  ((rows.keys.image Prod.snd).sort (· ≤ ·)).map fun day => (day, rows.val (shortCode, day))

end Postgres

/-! ## A request among merges -/

/-- Where the request is, with what it has read and the clicks merged since. -/
inductive StatsStage where
  | getLinkTotals
  | getLinkStats (totalClicks : Int) (lastClickedAt : Option DateTime) (added : Int)
  | done (result : Except StatsError GetLinkStatsResponse) (added : Int)
  deriving DecidableEq

/-- The tables and the request. -/
structure StatsState where
  pg : Postgres
  stage : StatsStage

/-- The clicks merged between the two reads. -/
def StatsStage.merged (growth : Int) : StatsStage → StatsStage
  | .getLinkStats totalClicks lastClickedAt added =>
    .getLinkStats totalClicks lastClickedAt (added + growth)
  | stage => stage

/-- A merge commits, or the request makes its next query, which may fail. -/
inductive StatsAction where
  /-- A merge commits. -/
  | merge (s : RedisSnapshot)
  | getLinkTotals
  | getLinkStats (now : DateTime)
  /-- The query of the request fails. -/
  | queryFails

def StatsState.step (request : GetLinkStatsRequest) (st : StatsState) :
    StatsAction → Option StatsState
  | .merge s =>
    if s.NonNegative then
      match mergeSnapshot st.pg s with
      | .ok (pg, _) => some
        ⟨pg, st.stage.merged (pg.linkSum request.shortCode - st.pg.linkSum request.shortCode)⟩
      | .error _ => none
    else none
  | .getLinkTotals =>
    match st.stage with
    | .getLinkTotals =>
      match st.pg.getLinkTotals request.shortCode with
      | .ok (totalClicks, lastClickedAt) =>
        some { st with stage := .getLinkStats totalClicks lastClickedAt 0 }
      | .error .notFound => some { st with stage := .done (.error .notFound) 0 }
      | .error _ => some { st with stage := .done (.error .internal) 0 }
    | _ => none
  | .getLinkStats now =>
    match st.stage with
    | .getLinkStats totalClicks lastClickedAt added =>
      let daily := st.pg.getLinkStats request.shortCode (clampDays request.days) now
      some { st with stage := .done (.ok
        { shortCode := request.shortCode
          totalClicks := asU64 totalClicks
          dailyClicks := toDailyClicks daily
          lastClickedAt := lastClickedAt }) added }
    | _ => none
  | .queryFails =>
    match st.stage with
    | .done _ _ => none
    | _ => some { st with stage := .done (.error .internal) 0 }

def linkStats (request : GetLinkStatsRequest) : Machine StatsState StatsAction where
  step := StatsState.step request

/-- **What each step does.** -/
inductive StatsState.Step (request : GetLinkStatsRequest) (st : StatsState) :
    StatsAction → StatsState → Prop
  | merge {s : RedisSnapshot} {pg : Postgres} {outcome : MergeOutcome} (hs : s.NonNegative)
      (hmerge : mergeSnapshot st.pg s = .ok (pg, outcome)) :
      Step request st (.merge s)
        ⟨pg, st.stage.merged (pg.linkSum request.shortCode - st.pg.linkSum request.shortCode)⟩
  | found {row : LinkRow} (hstage : st.stage = .getLinkTotals)
      (hrow : st.pg.links.get request.shortCode = some row) :
      Step request st .getLinkTotals
        { st with stage := .getLinkStats row.clickCount row.lastClickedAt 0 }
  | missing (hstage : st.stage = .getLinkTotals)
      (hrow : st.pg.links.get request.shortCode = none) :
      Step request st .getLinkTotals { st with stage := .done (.error .notFound) 0 }
  | getLinkStats {totalClicks : Int} {lastClickedAt : Option DateTime} {added : Int} (now : DateTime)
      (hstage : st.stage = .getLinkStats totalClicks lastClickedAt added) :
      Step request st (.getLinkStats now) { st with
        stage := .done (.ok
          { shortCode := request.shortCode
            totalClicks := asU64 totalClicks
            dailyClicks :=
              toDailyClicks (st.pg.getLinkStats request.shortCode (clampDays request.days) now)
            lastClickedAt := lastClickedAt }) added }
  | queryFails : Step request st .queryFails { st with stage := .done (.error .internal) 0 }

/-- **Every step is one of these.** `get_link_totals` has the row or finds none. -/
theorem StatsState.Step.of_step {request : GetLinkStatsRequest} {st st' : StatsState}
    {a : StatsAction} (h : (linkStats request).step st a = some st') : st.Step request a st' := by
  change st.step request a = some st' at h
  cases a with
  | merge s =>
    simp only [step] at h
    split at h
    · next hs =>
      split at h
      · next pg outcome hmerge =>
        obtain rfl := Option.some.inj h
        exact .merge hs hmerge
      · cases h
    · cases h
  | getLinkTotals =>
    simp only [step] at h
    split at h
    · next hstage =>
      cases hrow : st.pg.links.get request.shortCode with
      | none =>
        simp only [Postgres.getLinkTotals, hrow] at h
        obtain rfl := Option.some.inj h
        exact .missing hstage hrow
      | some row =>
        simp only [Postgres.getLinkTotals, hrow] at h
        obtain rfl := Option.some.inj h
        exact .found hstage hrow
    · cases h
  | getLinkStats now =>
    simp only [step] at h
    split at h
    · next hstage =>
      obtain rfl := Option.some.inj h
      exact .getLinkStats now hstage
    · cases h
  | queryFails =>
    simp only [step] at h
    split at h
    · cases h
    · obtain rfl := Option.some.inj h
      exact .queryFails

/-- The clicks that a merge adds to the link do not wrap. -/
def addsFit (request : GetLinkStatsRequest) (st : StatsState) : StatsAction → Bool
  | .merge s => decide (linkGrowth st.pg s request.shortCode ≤ i64Max)
  | _ => true

/-! ## Reads -/

section Reads

variable {pg : Postgres}

theorem asU64_of_nonneg {n : Int} (h : 0 ≤ n) : (asU64 n : Int) = n := by
  unfold asU64
  rw [if_pos h]
  omega

/-- The sum of the daily rows that a request reads. -/
theorem sum_getLinkStats (hpg : pg.NonNegative) (shortCode : String) (days : Int) (now : DateTime) :
    (((toDailyClicks (pg.getLinkStats shortCode days now)).map DailyClicks.clicks).sum : Int) =
      pg.linkDailyClicks.sumWhere fun k => k.1 = shortCode ∧ dayBefore now days ≤ k.2 := by
  set rows := pg.linkDailyClicks.filter fun k => k.1 = shortCode ∧ dayBefore now days ≤ k.2
    with hrows
  have hkeys : rows.keys = pg.linkDailyClicks.keys.filter
      fun k => k.1 = shortCode ∧ dayBefore now days ≤ k.2 := by
    rw [hrows]
    simp [Table.filter]
  have hval : ∀ k ∈ rows.keys, (asU64 (rows.val (shortCode, k.2)) : Int) =
      pg.linkDailyClicks.val k := by
    intro k hk
    rw [hkeys, Finset.mem_filter] at hk
    obtain ⟨-, rfl, hday⟩ := hk
    have hrow : rows.val (k.1, k.2) = pg.linkDailyClicks.val k := by
      simp [hrows, Table.val, Table.get_filter, hday]
    rw [hrow, asU64_of_nonneg (hpg.linkDailyClicks k)]
  -- the list is sorted and free of duplicates, so it lists the days of the rows
  have hlist : (((toDailyClicks (pg.getLinkStats shortCode days now)).map DailyClicks.clicks).sum :
      Int) = ∑ day ∈ rows.keys.image Prod.snd, (asU64 (rows.val (shortCode, day)) : Int) := by
    have hsort := List.sum_toFinset (fun day => (asU64 (rows.val (shortCode, day)) : Int))
      (Finset.sort_nodup (rows.keys.image Prod.snd) (· ≤ ·))
    rw [Finset.sort_toFinset] at hsort
    rw [hsort, Nat.cast_list_sum]
    simp only [toDailyClicks, Postgres.getLinkStats, List.map_map]
    rfl
  have hinj : Set.InjOn Prod.snd (rows.keys : Set (String × NaiveDate)) := by
    intro k hk k' hk' hday
    rw [hkeys, Finset.coe_filter] at hk hk'
    exact Prod.ext (hk.2.1.trans hk'.2.1.symm) hday
  rw [hlist, Finset.sum_image hinj, Finset.sum_congr rfl hval, hkeys]
  rfl

/-- They are some of the rows of the link. -/
theorem sum_getLinkStats_le (hpg : pg.NonNegative) (shortCode : String) (days : Int) (now : DateTime) :
    (((toDailyClicks (pg.getLinkStats shortCode days now)).map DailyClicks.clicks).sum : Int) ≤
      pg.linkSum shortCode := by
  rw [sum_getLinkStats hpg]
  refine Finset.sum_le_sum_of_subset_of_nonneg (fun k hk => ?_) fun k _ _ => hpg.linkDailyClicks k
  rw [Finset.mem_filter] at hk ⊢
  exact ⟨hk.1, hk.2.1⟩

end Reads

/-! ## Runs -/

section Runs

variable {request : GetLinkStatsRequest} {st st' : StatsState}

/-- What holds at each point of the request. -/
def StatsStage.Inv (request : GetLinkStatsRequest) (pg : Postgres) : StatsStage → Prop
  | .getLinkTotals => True
  | .getLinkStats totalClicks _ added =>
    0 ≤ totalClicks ∧ totalClicks + added = pg.linkSum request.shortCode
  | .done (.ok response) added =>
    ((response.dailyClicks.map DailyClicks.clicks).sum : Int) ≤ response.totalClicks + added
  | .done (.error _) _ => True

/-- The click count of the link is the sum of its rows, and what the request has read of it is short
of that by what was merged since. -/
structure StatsInv (request : GetLinkStatsRequest) (st : StatsState) : Prop where
  nonNegative : st.pg.NonNegative
  clickCount : ∀ row, st.pg.links.get request.shortCode = some row →
    row.clickCount = st.pg.linkSum request.shortCode
  stage : st.stage.Inv request st.pg

theorem StatsInv.merge (h : StatsInv request st) {s : RedisSnapshot} (hs : s.NonNegative)
    (hfit : linkGrowth st.pg s request.shortCode ≤ i64Max) : StatsInv request
      ⟨st.pg.mergedWrapping s, st.stage.merged
        ((st.pg.mergedWrapping s).linkSum request.shortCode - st.pg.linkSum request.shortCode)⟩ where
  nonNegative := nonNegative_mergedWrapping h.nonNegative hs
  clickCount := by
    intro row hrow
    change (st.pg.mergedWrapping s).links.get request.shortCode = some row at hrow
    have hexists : st.pg.linkExists request.shortCode = true := by
      rw [← linkExists_mergedWrapping st.pg s]
      exact linkExists_of_get hrow
    obtain ⟨old, hold⟩ := Option.isSome_iff_exists.mp hexists
    obtain ⟨row', hrow', hcount, -⟩ := get_links_merged hs hold
    rw [get_links_mergedWrapping hs hfit] at hrow
    obtain rfl := Option.some.inj (hrow.symm.trans hrow')
    have hgrow : linkGrowth st.pg s request.shortCode =
        (st.pg.mergedWrapping s).linkSum request.shortCode - st.pg.linkSum request.shortCode := rfl
    rw [hcount, h.clickCount old hold, hgrow]
    exact add_sub_cancel _ _
  stage := by
    have hstage := h.stage
    -- from the read of the total on, what a merge adds goes into `added`
    cases hst : st.stage with
    | getLinkTotals => trivial
    | getLinkStats totalClicks lastClickedAt added =>
      rw [hst] at hstage
      obtain ⟨hpos, hsum⟩ := hstage
      refine ⟨hpos, ?_⟩
      show totalClicks + (added + _) = (st.pg.mergedWrapping s).linkSum request.shortCode
      omega
    | done result added =>
      rw [hst] at hstage
      cases result with
      | ok response => exact hstage
      | error e => trivial

/-- **Step lemma.** A merge moves the rows, the count and `added` together; a query reads the count
or a part of the rows. -/
theorem StatsInv.step (h : StatsInv request st) {a : StatsAction}
    (hfit : addsFit request st a = true) (hstep : (linkStats request).step st a = some st') :
    StatsInv request st' := by
  cases StatsState.Step.of_step hstep with
  | merge hs hmerge =>
    -- a merge leaves click counts that are the sums of their rows, as `mergedWrapping` says
    obtain ⟨rfl, -, -⟩ := mergeSnapshot_ok h.nonNegative hs hmerge
    exact h.merge hs (by simpa [addsFit] using hfit)
  | missing _ _ => exact ⟨h.nonNegative, h.clickCount, trivial⟩
  | @found row _ hrow =>
    -- the first query: the total is the sum of the rows as they are now
    have hcount := h.clickCount row hrow
    refine ⟨h.nonNegative, h.clickCount, h.nonNegative.clickCount _ row hrow, ?_⟩
    show row.clickCount + 0 = st.pg.linkSum request.shortCode
    omega
  | @getLinkStats totalClicks _ added now hst =>
    -- the second query sums part of the rows, which have only grown
    have hstage := h.stage
    rw [hst] at hstage
    obtain ⟨hpos, hsum⟩ := hstage
    refine ⟨h.nonNegative, h.clickCount, ?_⟩
    have hle := sum_getLinkStats_le h.nonNegative request.shortCode (clampDays request.days) now
    show _ ≤ (asU64 totalClicks : Int) + added
    rw [asU64_of_nonneg hpos, hsum]
    exact hle
  | queryFails => exact ⟨h.nonNegative, h.clickCount, trivial⟩

end Runs

/-- **The total covers the daily rows but for the clicks merged in between.** In every run of a
request among merges, from tables in which the click counts are the sums of the daily rows, the
daily clicks of the response sum up to at most its total and the clicks that merges added to the
link after the totals were read and before the daily rows were. -/
theorem sum_dailyClicks_le {request : GetLinkStatsRequest} {pg : Postgres} (hpg : pg.NonNegative)
    (hcounts : ∀ c row, pg.links.get c = some row → row.clickCount = pg.linkSum c)
    {as : List StatsAction}
    (hfit : (linkStats request).Meets (fun st a => addsFit request st a = true)
      ⟨pg, .getLinkTotals⟩ as) {st : StatsState}
    (hrun : (linkStats request).run ⟨pg, .getLinkTotals⟩ as = some st)
    {response : GetLinkStatsResponse} {added : Int} (hdone : st.stage = .done (.ok response) added) :
    ((response.dailyClicks.map DailyClicks.clicks).sum : Int) ≤ response.totalClicks + added := by
  have hinit : StatsInv request ⟨pg, .getLinkTotals⟩ := ⟨hpg, hcounts _, trivial⟩
  have hinv := (linkStats request).run_invariant_of_meets
    (fun _ _ _ h hc hs => StatsInv.step h hc hs) hfit hrun hinit
  have hstage := hinv.stage
  rwa [hdone] at hstage

/-- One link without clicks. -/
def unclicked : Postgres :=
  { Postgres.empty with links := Table.empty.set "a" (Postgres.newLink "https://example.org" none) }

theorem nonNegative_unclicked : unclicked.NonNegative where
  globalDailyClicks := fun _ => le_refl _
  linkDailyClicks := fun _ => le_refl _
  clickCount := by
    intro c row hrow
    have hall := Table.forall_rows (t := unclicked.links) (p := fun _ row => decide (0 ≤ row.clickCount))
      (by decide) hrow
    simpa using hall
  totalClicks := le_refl _

/-- Five clicks are merged between the two reads. -/
def mergeBetween : List StatsAction :=
  [.getLinkTotals, .merge fiveClicks, .getLinkStats DateTime.unixEpoch]

theorem run_mergeBetween : ((linkStats ⟨"a", none⟩).run ⟨unclicked, .getLinkTotals⟩ mergeBetween).map
    StatsState.stage = some (.done (.ok ⟨"a", 0, [⟨0, 5⟩], none⟩) 5) := by
  decide +kernel

theorem sum_dailyClicks_le_mergeBetween : ∃ st response added,
    (linkStats ⟨"a", none⟩).run ⟨unclicked, .getLinkTotals⟩ mergeBetween = some st ∧
      st.stage = .done (.ok response) added ∧ added = 5 ∧
      ((response.dailyClicks.map DailyClicks.clicks).sum : Int) ≤ response.totalClicks + added := by
  obtain ⟨st, hrun, hdone⟩ := Option.map_eq_some_iff.mp run_mergeBetween
  have hcounts : ∀ c row, unclicked.links.get c = some row →
      row.clickCount = unclicked.linkSum c := by
    intro c row hrow
    have hall := Table.forall_rows (t := unclicked.links)
      (p := fun c row => decide (row.clickCount = unclicked.linkSum c)) (by decide) hrow
    simpa using hall
  exact ⟨st, _, _, hrun, hdone, rfl,
    sum_dailyClicks_le nonNegative_unclicked hcounts (by decide) hrun hdone⟩

/-- The response says zero clicks in total and five on one day. -/
theorem mergeBetween_exceeds_total : ∃ st response added,
    (linkStats ⟨"a", none⟩).run ⟨unclicked, .getLinkTotals⟩ mergeBetween = some st ∧
      st.stage = .done (.ok response) added ∧
      response.totalClicks < (response.dailyClicks.map DailyClicks.clicks).sum := by
  obtain ⟨st, hrun, hdone⟩ := Option.map_eq_some_iff.mp run_mergeBetween
  exact ⟨st, _, _, hrun, hdone, by decide⟩

end Kurl
