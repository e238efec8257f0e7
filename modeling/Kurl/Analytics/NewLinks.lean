import Kurl.Analytics.FlushExact
import Kurl.Analytics.LastClicked

/-!
# Kurl — a link from its insertion

The writer and the services around it with a clock, and for every code when its row was inserted and
how many entries had been appended by then. No step of the writer reads either.

The counters of a code are kept under the code in Redis and outlive its link: `delete_link` clears
the cache entry and the daily rows, and not the stats hash. So a link that takes the code again gets
the counts of the one before (`recreated_link_keeps_counts`). `StartsFresh` leaves that out, and a
click in the very millisecond of the insertion, whose timestamp is rounded to before it.

`DatedInv` says of every code in use that no entry for it was appended before the insertion, and of
every click on it that it is not before the insertion either. The counts and the last click of the
link are then those of clicks after its insertion, by the invariants of `LinkAccount` and
`LastClicked` (`new_link_starts_from_zero`).
-/

namespace Kurl

open Lib

/-! ## The machine -/

/-- When a row of `links` was inserted, and how many entries had been appended by then. -/
structure Insertion where
  time : DateTime
  appended : Nat
  deriving DecidableEq

/-- The writer with the clock, and for each code when its row was inserted and how many entries
there were. -/
structure DatedState where
  writer : WriterState
  now : DateTime
  inserted : String → Option Insertion

/-- A step of the writer, with the clock at that step. -/
structure DatedAction where
  time : DateTime
  action : WriterAction

/-- A click carries the time at which it is appended. -/
def WriterAction.Dated (serde : SerdeJson) (time : DateTime) : WriterAction → Prop
  | .append entry => ∀ event ∈ parseClickEvent serde entry, event.atTime = time
  | _ => True

instance (serde : SerdeJson) (time : DateTime) : DecidablePred (WriterAction.Dated serde time)
  | .append entry =>
    inferInstanceAs (Decidable (∀ event ∈ parseClickEvent serde entry, event.atTime = time))
  | .createLink _ _ _ | .deleteLink _ | .loseData | .start | .stop | .ensureConsumerGroup
  | .selectGlobal _ _ | .selectLinks _ | .call _ | .rehydrated | .readStream _ _
  | .drainPendingBatch _ | .processEntry _ | .endBatch | .flush _ | .scan _ | .captureGlobal
  | .assemble _ | .exec | .commit _ _ | .commitUnknown _ | .flushFails | .flushReturns =>
    isTrue trivial

namespace DatedState

def init : DatedState := ⟨WriterState.init, DateTime.unixEpoch, fun _ => none⟩

def step (serde : SerdeJson) (st : DatedState) (a : DatedAction) : Option DatedState :=
  if st.now ≤ a.time ∧ a.action.Dated serde a.time then
    (st.writer.step serde a.action).map fun writer =>
      { writer := writer
        now := a.time
        inserted := fun code =>
          if st.writer.pg.linkExists code = false ∧ writer.pg.linkExists code = true then
            some ⟨a.time, (writer.lost ++ writer.log).length⟩
          else st.inserted code }
  else none

/-- The clicks on a code appended after the first `n` entries. -/
def clicksAfter (serde : SerdeJson) (st : DatedState) (code : String) (n : Nat) : Int :=
  countWhere ((st.writer.lost ++ st.writer.log).drop n) (clickOn serde code)

/-- A click on a link is in a millisecond that does not begin before the insertion of its row. -/
def ClicksLater (serde : SerdeJson) (st : DatedState) (a : DatedAction) : Prop :=
  match a.action with
  | .append entry => ∀ event ∈ parseClickEvent serde entry,
    st.writer.pg.linkExists event.shortCode = true → ∀ i ∈ st.inserted event.shortCode,
      i.time.nanos ≤ a.time.timestampMillis * 1000000
  | _ => True

/-- No link is created for a code that has been clicked. -/
def StartsFresh (serde : SerdeJson) (st : DatedState) (a : DatedAction) : Prop :=
  st.writer.CreatesFresh serde a.action ∧ st.ClicksLater serde a

end DatedState

def datedWriter (serde : SerdeJson) : Machine DatedState DatedAction where
  step := DatedState.step serde

instance (serde : SerdeJson) (st : DatedState) : DecidablePred (st.ClicksLater serde)
  | ⟨time, .append entry⟩ => inferInstanceAs (Decidable (∀ event ∈ parseClickEvent serde entry,
      st.writer.pg.linkExists event.shortCode = true → ∀ i ∈ st.inserted event.shortCode,
        i.time.nanos ≤ time.timestampMillis * 1000000))
  | ⟨_, .createLink _ _ _⟩ | ⟨_, .deleteLink _⟩ | ⟨_, .loseData⟩ | ⟨_, .start⟩ | ⟨_, .stop⟩
  | ⟨_, .ensureConsumerGroup⟩ | ⟨_, .selectGlobal _ _⟩ | ⟨_, .selectLinks _⟩ | ⟨_, .call _⟩
  | ⟨_, .rehydrated⟩ | ⟨_, .readStream _ _⟩ | ⟨_, .drainPendingBatch _⟩ | ⟨_, .processEntry _⟩
  | ⟨_, .endBatch⟩ | ⟨_, .flush _⟩ | ⟨_, .scan _⟩ | ⟨_, .captureGlobal⟩ | ⟨_, .assemble _⟩
  | ⟨_, .exec⟩ | ⟨_, .commit _ _⟩ | ⟨_, .commitUnknown _⟩ | ⟨_, .flushFails⟩ | ⟨_, .flushReturns⟩ =>
    isTrue trivial

instance (serde : SerdeJson) (st : DatedState) (a : DatedAction) :
    Decidable (st.StartsFresh serde a) :=
  inferInstanceAs (Decidable (_ ∧ _))

/-- **Inversion of a step.** -/
theorem DatedState.step_cases {serde : SerdeJson} {st st' : DatedState} {a : DatedAction}
    (h : (datedWriter serde).step st a = some st') :
    a.action.Dated serde a.time ∧ st.writer.Step serde a.action st'.writer ∧
      st'.inserted = fun code =>
        if st.writer.pg.linkExists code = false ∧ st'.writer.pg.linkExists code = true then
          some ⟨a.time, (st'.writer.lost ++ st'.writer.log).length⟩
        else st.inserted code := by
  change st.step serde a = some st' at h
  unfold step at h
  split at h
  · next hguard =>
    obtain ⟨w, hw, rfl⟩ := Option.map_eq_some_iff.mp h
    exact ⟨hguard.2, WriterState.Step.of_step hw, rfl⟩
  · cases h

/-! ## The invariant -/

/-- The insertion of the row of a live link. -/
structure Insertion.Inv (serde : SerdeJson) (entries : List StreamId) (code : String)
    (i : Insertion) : Prop where
  appended_le : i.appended ≤ entries.length
  fresh : ∀ e ∈ entries.take i.appended, clickOn serde code e = false
  later : ∀ e ∈ entries, ∀ event, parseClickEvent serde e = some event →
    event.shortCode = code → i.time.nanos ≤ event.atTime.timestampMillis * 1000000

/-- The invariants of the writer, and for each link the one of its insertion. -/
structure DatedInv (serde : SerdeJson) (st : DatedState) : Prop where
  writer : WriterInv serde (fun _ => 0) st.writer
  links : LinkInv st.writer
  clicks : ClickInv serde st.writer
  inserted : ∀ c, st.writer.pg.linkExists c = true → ∃ i, st.inserted c = some i ∧
    i.Inv serde (st.writer.lost ++ st.writer.log) c

section Steps

variable {serde : SerdeJson}

/-- Only a creation adds a row. -/
theorem WriterState.Step.linkExists_of {st st' : WriterState} {a : WriterAction}
    (hframe : ∀ tx, st.phase = .merging tx → TxFrame st.pg tx) (hstep : st.Step serde a st')
    {c : String} (h : st'.pg.linkExists c = true) : st.pg.linkExists c = true ∨
      st'.lost ++ st'.log = st.lost ++ st.log ∧
        ∃ target expiration, a = .createLink c target expiration := by
  cases hstep with
  | @createLink code target expiration pg hcreate =>
    obtain ⟨-, rfl⟩ := Postgres.createLink_ok hcreate
    change ((st.pg.links.set code _).get c).isSome = true at h
    rw [Table.get_set] at h
    split at h
    · next hc =>
      subst hc
      exact Or.inr ⟨rfl, target, expiration, rfl⟩
    · exact Or.inl h
  | @deleteLink code pg hfree hdelete =>
    obtain rfl := Postgres.deleteLink_ok hdelete
    change ((st.pg.links.erase code).get c).isSome = true at h
    rw [Table.get_erase] at h
    split at h
    · cases h
    · exact Or.inl h
  | commit connected hphase hstage horder =>
    exact Or.inl (((hframe _ hphase).linkExists c).symm.trans h)
  | commitApplied hphase hstage => exact Or.inl (((hframe _ hphase).linkExists c).symm.trans h)
  | _ => exact Or.inl h

/-- Only an append adds an entry. -/
theorem WriterState.Step.log_cases {st st' : WriterState} {a : WriterAction}
    (hstep : st.Step serde a st') : st'.lost ++ st'.log = st.lost ++ st.log ∨
      ∃ entry, a = .append entry ∧ st'.lost ++ st'.log = st.lost ++ st.log ++ [entry] := by
  cases hstep with
  | append entry hadd => exact Or.inr ⟨entry, rfl, (List.append_assoc _ _ _).symm⟩
  | loseData => exact Or.inl (List.append_nil _)
  | _ => exact Or.inl rfl

/-- An entry is appended that is not too early for the link. -/
theorem Insertion.Inv.append {entries : List StreamId} {code : String} {i : Insertion}
    (h : i.Inv serde entries code) {entry : StreamId}
    (hentry : ∀ event, parseClickEvent serde entry = some event → event.shortCode = code →
      i.time.nanos ≤ event.atTime.timestampMillis * 1000000) :
    i.Inv serde (entries ++ [entry]) code where
  appended_le := h.appended_le.trans (by rw [List.length_append]; exact Nat.le_add_right _ _)
  fresh := by
    rw [List.take_append_of_le_length h.appended_le]
    exact h.fresh
  later := by
    intro e he event hparse hcode
    rcases List.mem_append.mp he with he | he
    · exact h.later e he event hparse hcode
    · obtain rfl := List.mem_singleton.mp he
      exact hentry event hparse hcode

/-- A row inserted where the code has not been clicked. -/
theorem Insertion.Inv.of_fresh {entries : List StreamId} {code : String} {time : DateTime}
    (h : ∀ e ∈ entries, clickOn serde code e = false) :
    Insertion.Inv serde entries code ⟨time, entries.length⟩ where
  appended_le := le_refl _
  fresh := fun e he => h e (List.mem_of_mem_take he)
  later := by
    intro e he event hparse hcode
    have hclick := clickOn_iff.mpr ⟨event, hparse, hcode⟩
    rw [h e he] at hclick
    cases hclick

variable {st st' : DatedState} {a : DatedAction}

/-- **Step lemma.** An insertion notes where the log was; every later entry comes after it, and the
condition is about the earlier ones and the clock of the new. -/
theorem DatedInv.step (hevents : st.writer.events serde < 2 ^ 53) (h : DatedInv serde st)
    (hfresh : st.StartsFresh serde a) (hlose : a.action ≠ .loseData)
    (hstep : (datedWriter serde).step st a = some st') : DatedInv serde st' := by
  obtain ⟨hdated, hstep, hinserted⟩ := DatedState.step_cases hstep
  have hfit := WriterState.CountsFit.of_events hevents
  refine ⟨h.writer.step hfit hstep, h.links.step h.writer hevents hfresh.1 hstep,
    h.clicks.step h.writer hfit h.links hlose hstep, fun c hc => ?_⟩
  rw [hinserted]
  cases hbefore : st.writer.pg.linkExists c with
  | false =>
    -- the row has just been inserted
    rcases hstep.linkExists_of h.writer.frame hc with hlink | ⟨hlog, target, expiration, haction⟩
    · rw [hbefore] at hlink
      cases hlink
    · have hcreates := hfresh.1
      rw [haction] at hcreates
      have hunclicked := hcreates.resolve_left (by rw [hbefore]; exact Bool.false_ne_true)
      refine ⟨_, if_pos ⟨hbefore, hc⟩, Insertion.Inv.of_fresh ?_⟩
      rw [hlog]
      exact hunclicked
  | true =>
    obtain ⟨i, hi, hinv⟩ := h.inserted c hbefore
    refine ⟨i, (if_neg fun hnew => by rw [hbefore] at hnew; cases hnew.1).trans hi, ?_⟩
    rcases hstep.log_cases with hlog | ⟨entry, haction, hlog⟩
    · rw [hlog]
      exact hinv
    · rw [hlog]
      refine hinv.append fun event hparse hcode => ?_
      have hlater := hfresh.2
      unfold DatedState.ClicksLater at hlater
      rw [haction] at hdated hlater
      subst hcode
      rw [hdated event hparse]
      exact hlater event hparse hbefore i hi

theorem DatedInv.init (serde : SerdeJson) : DatedInv serde DatedState.init where
  writer := WriterInv.init serde
  links := LinkInv.init
  clicks := ClickInv.init serde
  inserted := fun _ hc => by cases hc

/-- **Run lemma**, while Redis keeps its data: the invariants of the writer and that of the
insertions together. -/
theorem dated_inv {as : List DatedAction} (hrun : (datedWriter serde).run .init as = some st)
    (hfresh : (datedWriter serde).Meets (fun st a => st.StartsFresh serde a) .init as)
    (hkeep : .loseData ∉ as.map DatedAction.action) (hevents : st.writer.events serde < 2 ^ 53) :
    DatedInv serde st := by
  have hkeeps : (datedWriter serde).Meets (fun _ a => a.action ≠ .loseData) .init as :=
    Machine.meets_of_forall _ (C := fun a : DatedAction => a.action ≠ .loseData)
      (fun a ha heq => hkeep (heq ▸ List.mem_map_of_mem ha)) _
  have hinv : st.writer.events serde < 2 ^ 53 → DatedInv serde st := by
    apply (datedWriter serde).run_invariant_of_meets (I := fun st => st.writer.events serde < 2 ^ 53 →
      DatedInv serde st) _ (Machine.Meets.and _ hfresh hkeeps) hrun (fun _ => DatedInv.init serde)
    intro s a s' hs ha hstep hevents'
    have hgrow := (DatedState.step_cases hstep).2.1.countWhere_le fun e =>
      (parseClickEvent serde e).isSome
    have hevents : s.writer.events serde < 2 ^ 53 := lt_of_le_of_lt hgrow hevents'
    exact (hs hevents).step hevents ha.1 ha.2 hstep
  exact hinv hevents

end Steps

/-- **A link starts from zero** when its code has not been clicked before. -/
theorem new_link_starts_from_zero {serde : SerdeJson} {as : List DatedAction} {st : DatedState}
    (hrun : (datedWriter serde).run .init as = some st)
    (hfresh : (datedWriter serde).Meets (fun st a => st.StartsFresh serde a) .init as)
    (hkeep : .loseData ∉ as.map DatedAction.action) (hevents : st.writer.events serde < 2 ^ 53)
    {c : String} {row : LinkRow} (hrow : st.writer.pg.links.get c = some row) :
    ∃ i, st.inserted c = some i ∧ row.clickCount ≤ st.clicksAfter serde c i.appended ∧
      st.writer.pg.linkSum c ≤ st.clicksAfter serde c i.appended ∧
      ∀ t, row.lastClickedAt = some t → i.time ≤ t := by
  have hinv := dated_inv hrun hfresh hkeep hevents
  obtain ⟨i, hi, hins⟩ := hinv.inserted c (linkExists_of_get hrow)
  have hcount : row.clickCount + 0 = st.writer.pg.linkSum c := hinv.links.counts.clickCount c row hrow
  have hclicks : st.writer.clicks serde c = st.clicksAfter serde c i.appended := by
    unfold WriterState.clicks DatedState.clicksAfter
    have hsplit := countWhere_append ((st.writer.lost ++ st.writer.log).take i.appended)
      ((st.writer.lost ++ st.writer.log).drop i.appended) (clickOn serde c)
    rw [List.take_append_drop, countWhere_eq_zero hins.fresh, zero_add] at hsplit
    exact hsplit
  have hsum : st.writer.pg.linkSum c ≤ st.clicksAfter serde c i.appended :=
    hclicks ▸ hinv.writer.linkSum_le c
  refine ⟨i, hi, by omega, hsum, fun t ht => ?_⟩
  obtain ⟨e, he, event, hparse, hcode, hle⟩ := hinv.clicks.rows c row t hrow ht
  exact DateTime.le_iff.mpr
    ((hins.later e (List.mem_append_right _ he) event hparse hcode).trans hle)

/-- One second after the epoch. -/
def oneSecond : DateTime := ⟨1000000000, by decide, by decide⟩

/-- A link is created, clicked and flushed. -/
def clickOfNewLink : List DatedAction :=
  (clickRecorded ++ clickMerged ++ clickFlushed).map (DatedAction.mk DateTime.unixEpoch)

theorem new_link_starts_from_zero_click : ∃ st row i,
    (datedWriter epochSerde).run .init clickOfNewLink = some st ∧
      st.writer.pg.links.get "a" = some row ∧ row.clickCount = 1 ∧
      st.inserted "a" = some i ∧ row.clickCount ≤ st.clicksAfter epochSerde "a" i.appended := by
  have hvalues : ((datedWriter epochSerde).run .init clickOfNewLink).map (fun st =>
      ((st.writer.pg.links.get "a").map LinkRow.clickCount,
        decide (st.writer.events epochSerde < 2 ^ 53))) = some (some 1, true) := by
    decide
  obtain ⟨st, hrun, hst⟩ := Option.map_eq_some_iff.mp hvalues
  simp only [Prod.mk.injEq, decide_eq_true_eq] at hst
  obtain ⟨row, hrow, hcount⟩ := Option.map_eq_some_iff.mp hst.1
  obtain ⟨i, hi, hle, -⟩ := new_link_starts_from_zero hrun (by decide)
    (by simp [clickOfNewLink, clickRecorded, clickMerged, clickFlushed]) hst.2 hrow
  exact ⟨st, row, i, hrun, hrow, hcount, hi, hle⟩

/-- The click is recorded, its link deleted, and the code taken by a new link a second later. -/
def recreatedLink : List DatedAction :=
  (clickRecorded ++ [WriterAction.deleteLink "a"]).map (DatedAction.mk DateTime.unixEpoch) ++
    (WriterAction.createLink "a" "https://example.org" none :: clickMerged ++ clickFlushed).map
      (DatedAction.mk oneSecond)

/-- The next flush pays the click in to the new link, which nobody has clicked. -/
theorem recreated_link_keeps_counts : ∃ st row i,
    (datedWriter epochSerde).run .init recreatedLink = some st ∧
      st.writer.pg.links.get "a" = some row ∧ st.inserted "a" = some i ∧
      row.clickCount = 1 ∧ st.writer.pg.linkSum "a" = 1 ∧
      st.clicksAfter epochSerde "a" i.appended = 0 ∧
      row.lastClickedAt = some DateTime.unixEpoch ∧ DateTime.unixEpoch < i.time := by
  have hvalues : ((datedWriter epochSerde).run .init recreatedLink).map (fun st =>
      (st.writer.pg.links.get "a", st.inserted "a", st.writer.pg.linkSum "a",
        st.clicksAfter epochSerde "a" 1)) =
      some (some ⟨"https://example.org", none, 1, some DateTime.unixEpoch⟩, some ⟨oneSecond, 1⟩,
        1, 0) := by
    decide
  obtain ⟨st, hrun, hst⟩ := Option.map_eq_some_iff.mp hvalues
  simp only [Prod.mk.injEq] at hst
  obtain ⟨hrow, hinserted, hsum, hafter⟩ := hst
  exact ⟨st, _, _, hrun, hrow, hinserted, rfl, hsum, hafter, rfl, by decide⟩

end Kurl
