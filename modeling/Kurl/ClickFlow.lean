import Kurl.Analytics.ConsumerShutdown
import Kurl.Analytics.LinkAccount
import Kurl.Analytics.RedisWipe
import Kurl.Gateway.ClickEvents

/-!
# Kurl — from the redirects to the statistics

Gateways and instances of the analytics service on the same stores. A gateway answers redirects and
spawns their click tasks; a task that reaches Redis appends its event as JSON, which is the only way
an entry gets into the stream; the instances record the entries and flush the counts.

At every point the entries ever appended are the events that the gateways sent, and these with the
click tasks still waiting are the redirects given (`System.Traced`). So no statistic is ever more
than the redirects (`counts_le_redirects`), and when nothing is under way any more it is their
number (`counts_eq_redirects`).

The two halves are proved apart. `Gateway.Balanced` relates the redirects of a gateway to the events
it has sent, and the writer's invariants relate the entries to the counts. `System.Traced` is the
joint between them: an event that is appended is parsed to itself by the consumer, which is the
round trip of `serde_json` and an assumption here (`System.Sound`), as is that no session of a
writing instance ends.
-/

namespace Kurl

open Lib

/-- `XADD key * event ..`, with the JSON of the event as Redis returns it. -/
def ClickEvent.entry (toJson : ClickEvent → List UInt8) (event : ClickEvent) (id : Nat) :
    StreamId :=
  ⟨id, HashMap.empty.insert "event" (.bulkString (toJson event))⟩

/-- The gateways, and the instances of the analytics service with the stores. -/
structure System where
  gateways : List Gateway
  fleet : Fleet

/-- A gateway starts or moves, a click task appends its event, or the instances move. -/
inductive SystemAction where
  /-- A gateway starts. -/
  | start (maxInFlight : Nat)
  /-- Any action of a gateway but an append. -/
  | gateway (g : Nat) (a : GatewayAction)
  /-- `inner_send_click_event` of a click task reaches Redis. -/
  | append (g click : Nat) (now : DateTime) (id : Nat)
  /-- Any action of the analytics service and the stores but an append. -/
  | fleet (a : FleetAction)

namespace System

def init : System := ⟨[], .init⟩

variable (serde : SerdeJson) (toJson : ClickEvent → List UInt8) (count : Nat)

def step (st : System) : SystemAction → Option System
  | .start maxInFlight => some { st with gateways := st.gateways ++ [.init maxInFlight] }
  | .gateway _ (.append _ _) => none
  | .gateway g a => (st.gateways[g]?).bind fun gw => (gw.step a).map fun gw =>
      { st with gateways := st.gateways.set g gw }
  | .append g click now id => (st.gateways[g]?).bind fun gw =>
      (gw.clicks[click]?).bind fun shortCode => (gw.step (.append click now)).bind fun gw =>
        (st.fleet.step serde count
          (.environment (.append (ClickEvent.entry toJson ⟨shortCode, now⟩ id)))).map fun fleet =>
            ⟨st.gateways.set g gw, fleet⟩
  | .fleet (.environment (.append _)) => none
  | .fleet a => (st.fleet.step serde count a).map fun fleet => { st with fleet := fleet }

end System

def system (serde : SerdeJson) (toJson : ClickEvent → List UInt8) (count : Nat) :
    Machine System SystemAction where
  step := System.step serde toJson count

/-- **What each step does.** -/
inductive System.Step (serde : SerdeJson) (toJson : ClickEvent → List UInt8) (count : Nat)
    (st : System) : SystemAction → System → Prop
  | start (maxInFlight : Nat) : Step serde toJson count st (.start maxInFlight)
      { st with gateways := st.gateways ++ [.init maxInFlight] }
  | gateway {g : Nat} {gw gw' : Gateway} {a : GatewayAction} (hgw : st.gateways[g]? = some gw)
      (ha : ∀ click now, a ≠ .append click now) (hstep : Kurl.gateway.step gw a = some gw') :
      Step serde toJson count st (.gateway g a) { st with gateways := st.gateways.set g gw' }
  | append {g click id : Nat} {gw gw' : Gateway} {shortCode : String} {now : DateTime}
      {fleet : Fleet} (hgw : st.gateways[g]? = some gw)
      (hclick : gw.clicks[click]? = some shortCode)
      (hgateway : Kurl.gateway.step gw (.append click now) = some gw')
      (hfleet : (Kurl.fleet serde count).step st.fleet
        (.environment (.append (ClickEvent.entry toJson ⟨shortCode, now⟩ id))) = some fleet) :
      Step serde toJson count st (.append g click now id) ⟨st.gateways.set g gw', fleet⟩
  | fleet {a : FleetAction} {fleet : Fleet} (ha : ∀ entry, a ≠ .environment (.append entry))
      (hstep : (Kurl.fleet serde count).step st.fleet a = some fleet) :
      Step serde toJson count st (.fleet a) { st with fleet := fleet }

theorem System.Step.of_step {serde : SerdeJson} {toJson : ClickEvent → List UInt8} {count : Nat}
    {st st' : System} {a : SystemAction} (h : (system serde toJson count).step st a = some st') :
    st.Step serde toJson count a st' := by
  change st.step serde toJson count a = some st' at h
  cases a with
  | start maxInFlight =>
    obtain rfl := Option.some.inj h
    exact .start maxInFlight
  | gateway g a =>
    have hplain (ha : ∀ click now, a ≠ .append click now)
        (h : ((st.gateways[g]?).bind fun gw => (gw.step a).map fun gw =>
          { st with gateways := st.gateways.set g gw }) = some st') :
        st.Step serde toJson count (.gateway g a) st' := by
      obtain ⟨gw, hgw, h⟩ := Option.bind_eq_some_iff.mp h
      obtain ⟨gw', hstep, rfl⟩ := Option.map_eq_some_iff.mp h
      exact .gateway hgw ha hstep
    cases a with
    | append click now => cases h
    | _ => exact hplain (fun _ _ heq => by cases heq) h
  | append g click now id =>
    obtain ⟨gw, hgw, h⟩ := Option.bind_eq_some_iff.mp h
    obtain ⟨shortCode, hclick, h⟩ := Option.bind_eq_some_iff.mp h
    obtain ⟨gw', hgateway, h⟩ := Option.bind_eq_some_iff.mp h
    obtain ⟨fleet, hfleet, rfl⟩ := Option.map_eq_some_iff.mp h
    exact .append hgw hclick hgateway hfleet
  | fleet a =>
    have hplain (ha : ∀ entry, a ≠ .environment (.append entry))
        (h : (st.fleet.step serde count a).map (fun fleet => { st with fleet := fleet }) =
          some st') : st.Step serde toJson count (.fleet a) st' := by
      obtain ⟨fleet, hstep, rfl⟩ := Option.map_eq_some_iff.mp h
      exact .fleet ha hstep
    cases a with
    | environment b =>
      cases b with
      | append entry => cases h
      | _ => exact hplain (fun _ heq => by cases heq) h
    | _ => exact hplain (fun _ heq => by cases heq) h

/-! ## The redirects, the events and the entries -/

namespace Gateway

/-- The codes of the redirects given, one for each. -/
def redirected (st : Gateway) : List String :=
  (st.requests.filter fun r => r.redirected r.shortCode).map RedirectRequest.shortCode

theorem count_redirected (st : Gateway) (code : String) :
    st.redirected.count code = st.redirects code := by
  unfold redirected redirects
  rw [List.count_eq_countP, List.countP_map, List.countP_filter]
  refine List.countP_congr fun r _ => ?_
  unfold RedirectRequest.redirected
  split <;> simp

/-- Events and click tasks make up the redirects. -/
theorem Balanced.perm {st : Gateway} (h : st.Balanced) :
    (st.events.map ClickEvent.shortCode ++ st.clicks).Perm st.redirected := by
  refine List.perm_iff_count.mpr fun code => ?_
  rw [count_redirected, ← h code, List.count_append, List.count_eq_countP, List.countP_map]
  unfold appended
  congr 1

/-- Only an append changes the events. -/
theorem events_of_step {st st' : Gateway} {a : GatewayAction} (h : gateway.step st a = some st')
    (ha : ∀ click now, a ≠ .append click now) : st'.events = st.events := by
  cases (Step.of_step h).2 with
  | append _ _ => exact absurd rfl (ha _ _)
  | _ => rfl

theorem events_of_append {st st' : Gateway} {click : Nat} {now : DateTime} {code : String}
    (h : gateway.step st (.append click now) = some st') (hclick : st.clicks[click]? = some code) :
    st'.events = st.events ++ [⟨code, now⟩] := by
  change st.step (.append click now) = some st' at h
  unfold step at h
  split at h
  · cases h
  · simp only [hclick] at h
    obtain rfl := Option.some.inj h
    rfl

end Gateway

/-- Only an append adds to the entries ever appended. -/
theorem WriterState.Step.trace {serde : SerdeJson} {st st' : WriterState} {a : WriterAction}
    (h : st.Step serde a st') (ha : ∀ entry, a ≠ .append entry) :
    st'.lost ++ st'.log = st.lost ++ st.log := by
  cases h with
  | append entry _ => exact absurd rfl (ha entry)
  | loseData => exact List.append_nil _
  | _ => rfl

theorem WriterState.Performs.trace {serde : SerdeJson} {st st' : WriterState}
    (h : st.Performs serde st') : st'.lost ++ st'.log = st.lost ++ st.log := by
  obtain ⟨as, hrun, hinner⟩ := h
  refine (writer serde).run_invariant_of_meets (C := fun _ a => a.inner = true)
    (I := fun w => w.lost ++ w.log = st.lost ++ st.log) (fun w a w' hw ha hstep => ?_)
    (Machine.meets_of_forall _ hinner st) hrun rfl
  rw [← hw]
  exact (WriterState.Step.of_step hstep).trace fun entry heq => by
    rw [heq] at ha
    cases ha

theorem Fleet.Step.trace {serde : SerdeJson} {count : Nat} {st st' : Fleet} {a : FleetAction}
    (h : st.Step serde count a st') (ha : ∀ entry, a ≠ .environment (.append entry)) :
    st'.stores.lost ++ st'.stores.log = st.stores.lost ++ st.stores.log := by
  cases h with
  | inner _ hinner => exact (InnerStage.step_refines hinner).trace
  | environment _ _ hstep =>
    have hwriter : (st.stores.at .stopped).Step serde _ _ := .of_step hstep
    exact hwriter.trace fun entry heq => ha entry (congrArg _ heq)
  | _ => rfl

theorem Fleet.trace_append {serde : SerdeJson} {count : Nat} {st st' : Fleet} {entry : StreamId}
    (h : (fleet serde count).step st (.environment (.append entry)) = some st') :
    st'.stores.lost ++ st'.stores.log = (st.stores.lost ++ st.stores.log) ++ [entry] := by
  cases Fleet.Step.of_step h with
  | environment _ _ hstep =>
    obtain ⟨r, -, rfl⟩ := Option.map_eq_some_iff.mp hstep
    exact (List.append_assoc _ _ _).symm

namespace System

def redirected (st : System) : List String := st.gateways.flatMap Gateway.redirected

/-- The events that the gateways sent. -/
def events (st : System) : List ClickEvent := st.gateways.flatMap Gateway.events

/-- The click tasks that have not appended their event. -/
def clicks (st : System) : List String := st.gateways.flatMap Gateway.clicks

/-- The entries ever appended. -/
def entries (st : System) : List StreamId := st.fleet.stores.lost ++ st.fleet.stores.log

/-- The entries are the events that were sent, and these are of redirects. -/
structure Traced (serde : SerdeJson) (st : System) : Prop where
  balanced : ∀ gw ∈ st.gateways, gw.Balanced
  sent : (st.entries.filterMap (parseClickEvent serde)).Perm st.events
  wellFormed : ∀ e ∈ st.entries, (parseClickEvent serde e).isSome = true

/-- `serde_json` parses what it wrote, and no session ends whose instance writes. -/
def Sound (serde : SerdeJson) (toJson : ClickEvent → List UInt8) (st : System) :
    SystemAction → Prop
  | .append g click now _ => ∀ gw ∈ st.gateways[g]?, ∀ code ∈ gw.clicks[click]?,
    serde.fromSlice (toJson ⟨code, now⟩) = some ⟨code, now⟩
  | .fleet a => st.fleet.KeepsGuard a
  | _ => True

instance (serde : SerdeJson) (toJson : ClickEvent → List UInt8) (st : System) :
    DecidablePred (st.Sound serde toJson)
  | .append g click now _ => inferInstanceAs (Decidable (∀ gw ∈ st.gateways[g]?,
      ∀ code ∈ gw.clicks[click]?, serde.fromSlice (toJson ⟨code, now⟩) = some ⟨code, now⟩))
  | .fleet a => inferInstanceAs (Decidable (st.fleet.KeepsGuard a))
  | .start _ | .gateway _ _ => isTrue trivial

end System

section Steps

variable {serde : SerdeJson} {toJson : ClickEvent → List UInt8} {count : Nat} {st st' : System}
  {a : SystemAction}

/-- The consumer parses the entry of an event. -/
theorem parse_entry {event : ClickEvent} (h : serde.fromSlice (toJson event) = some event)
    (id : Nat) : parseClickEvent serde (event.entry toJson id) = some event := by
  unfold parseClickEvent ClickEvent.entry
  simpa using h

theorem System.Traced.init (serde : SerdeJson) : System.init.Traced serde where
  balanced := fun _ hgw => by cases hgw
  sent := List.Perm.refl _
  wellFormed := fun _ he => by cases he

/-- One gateway changes, and has sent these events since. -/
theorem System.Traced.set (h : st.Traced serde) {g : Nat} {gw gw' : Gateway} {fleet : Fleet}
    (new : List ClickEvent) (hgw : st.gateways[g]? = some gw) (hbalanced : gw'.Balanced)
    (hevents : gw'.events = gw.events ++ new)
    (hsent : ((fleet.stores.lost ++ fleet.stores.log).filterMap (parseClickEvent serde)) =
      st.entries.filterMap (parseClickEvent serde) ++ new)
    (hwellFormed : ∀ e ∈ fleet.stores.lost ++ fleet.stores.log,
      (parseClickEvent serde e).isSome = true) :
    System.Traced serde ⟨st.gateways.set g gw', fleet⟩ where
  balanced := by
    intro other hother
    rcases List.mem_or_eq_of_mem_set hother with hold | rfl
    · exact h.balanced other hold
    · exact hbalanced
  sent := by
    have hflow := flatMap_set_perm (f := Gateway.events) hgw (List.Perm.of_eq hevents)
    unfold entries
    rw [hsent]
    exact (h.sent.append_right new).trans hflow.symm
  wellFormed := hwellFormed

/-- **Step lemma.** A step of a gateway moves its own account; an append moves an event from it into
the log; the instances only move entries. -/
theorem System.Traced.step (h : st.Traced serde) (hsound : st.Sound serde toJson a)
    (hstep : st.Step serde toJson count a st') : st'.Traced serde := by
  cases hstep with
  | start maxInFlight =>
    -- a gateway that starts has given no redirect and sent no event
    refine ⟨fun gw hgw => ?_, ?_, h.wellFormed⟩
    · rcases List.mem_append.mp hgw with hgw | hgw
      · exact h.balanced gw hgw
      · rw [List.mem_singleton.mp hgw]
        exact fun code => rfl
    · show (st.entries.filterMap _).Perm ((st.gateways ++ [_]).flatMap Gateway.events)
      rw [List.flatMap_append]
      exact h.sent.trans (List.Perm.of_eq (List.append_nil _).symm)
  | gateway hgw ha hstep =>
    -- its own events are the same, as this is no append
    refine h.set [] hgw ((h.balanced _ (List.mem_of_getElem? hgw)).step hstep) ?_ ?_
      h.wellFormed
    · rw [List.append_nil]
      exact Gateway.events_of_step hstep ha
    · exact (List.append_nil _).symm
  | @append g click id gw gw' code now fleet hgw hclick hgateway hfleet =>
    -- the event and the entry come into being in the same step
    have hparse := parse_entry (hsound gw hgw code hclick) id
    have htrace := Fleet.trace_append hfleet
    refine h.set [_] hgw ((h.balanced _ (List.mem_of_getElem? hgw)).step hgateway)
      (Gateway.events_of_append hgateway hclick) ?_ ?_
    · rw [htrace, List.filterMap_append]
      simp [hparse, System.entries]
    · rw [htrace]
      intro e he
      rcases List.mem_append.mp he with he | he
      · exact h.wellFormed e he
      · rw [List.mem_singleton.mp he, hparse]
        rfl
  | fleet ha hstep =>
    -- entries are moved between the log and the lost ones, not made
    have htrace := (Fleet.Step.of_step hstep).trace ha
    refine ⟨h.balanced, ?_, ?_⟩
    · unfold System.entries
      rw [htrace]
      exact h.sent
    · unfold System.entries
      rw [htrace]
      exact h.wellFormed

end Steps

/-! ## Runs -/

section Runs

variable {serde : SerdeJson} {toJson : ClickEvent → List UInt8} {count : Nat} {st st' : System}
  {as : List SystemAction}

/-- **Run lemma.** From any traced state on, in runs whose steps are sound. -/
theorem traced_of_run (hmeets : (system serde toJson count).Meets (System.Sound serde toJson) st as)
    (hrun : (system serde toJson count).run st as = some st') (h : st.Traced serde) :
    st'.Traced serde :=
  (system serde toJson count).run_invariant_of_meets
    (fun _ _ _ h hsound hstep => h.step hsound (System.Step.of_step hstep)) hmeets hrun h

/-- What an action does to the analytics service. -/
def SystemAction.OnFleet : SystemAction → FleetAction → Prop
  | .append _ _ _ _, b => ∃ entry, b = .environment (.append entry)
  | .fleet a, b => a = b
  | _, _ => False

/-- The analytics service in a run of the system. `D` is a condition on its steps that an append
meets. -/
theorem System.fleet_run {D : Fleet → FleetAction → Prop}
    (happend : ∀ fleet entry, D fleet (.environment (.append entry)))
    (hmeets : (system serde toJson count).Meets
      (fun st a => st.Sound serde toJson a ∧ ∀ b, a = .fleet b → D st.fleet b) st as)
    (hrun : (system serde toJson count).run st as = some st') :
    ∃ bs, (Kurl.fleet serde count).run st.fleet bs = some st'.fleet ∧
      (Kurl.fleet serde count).Meets (fun fl b => fl.KeepsGuard b ∧ D fl b) st.fleet bs ∧
      ∀ b ∈ bs, ∃ a ∈ as, a.OnFleet b := by
  obtain ⟨bs, w, hbs, rfl, hD, hmatch⟩ := Machine.run_simulates (n := Kurl.fleet serde count)
    (D := fun fl b => fl.KeepsGuard b ∧ D fl b) (R := fun st fleet => fleet = st.fleet)
    (L := fun a bs => ∀ b ∈ bs, a.OnFleet b)
    (by
      rintro s a s' w rfl ⟨hsound, hfleet⟩ hstep
      cases System.Step.of_step hstep with
      | start _ => exact ⟨[], s.fleet, rfl, rfl, trivial, by simp⟩
      | gateway _ _ _ => exact ⟨[], s.fleet, rfl, rfl, trivial, by simp⟩
      | append _ _ _ hmove =>
        refine ⟨[_], _, (Kurl.fleet serde count).run_cons_some.mpr ⟨_, hmove, rfl⟩, rfl,
          ⟨⟨trivial, happend _ _⟩, fun _ _ => trivial⟩, fun b hb => ?_⟩
        exact ⟨_, List.mem_singleton.mp hb⟩
      | fleet _ hmove =>
        refine ⟨[_], _, (Kurl.fleet serde count).run_cons_some.mpr ⟨_, hmove, rfl⟩, rfl,
          ⟨⟨hsound, hfleet _ rfl⟩, fun _ _ => trivial⟩, fun b hb => ?_⟩
        exact (List.mem_singleton.mp hb).symm)
    hmeets hrun rfl
  exact ⟨bs.flatten, hbs, hD, fun b hb => exists_of_mem_flatten hmatch hb⟩

/-- The same without a further condition. -/
theorem System.fleet_run_of_sound
    (hmeets : (system serde toJson count).Meets (System.Sound serde toJson) st as)
    (hrun : (system serde toJson count).run st as = some st') :
    ∃ bs, (Kurl.fleet serde count).run st.fleet bs = some st'.fleet ∧
      (Kurl.fleet serde count).Meets Fleet.KeepsGuard st.fleet bs ∧
      ∀ b ∈ bs, ∃ a ∈ as, a.OnFleet b := by
  obtain ⟨bs, hbs, hD, hmatch⟩ := System.fleet_run (D := fun _ _ => True) (fun _ _ => trivial)
    (Machine.Meets.mono _ (fun _ _ hsound => ⟨hsound, fun _ _ => trivial⟩) hmeets) hrun
  exact ⟨bs, hbs, Machine.Meets.mono _ (fun _ _ h => h.1) hD, hmatch⟩

/-- The events and the waiting click tasks of some gateways are their redirects. -/
theorem flatMap_balanced {gateways : List Gateway} (h : ∀ gw ∈ gateways, gw.Balanced) :
    ((gateways.flatMap Gateway.events).map ClickEvent.shortCode ++
      gateways.flatMap Gateway.clicks).Perm (gateways.flatMap Gateway.redirected) := by
  induction gateways with
  | nil => exact List.Perm.refl _
  | cons gw gateways ih =>
    have hrest := ih fun other hother => h other (List.mem_cons_of_mem gw hother)
    have hfirst := (h gw List.mem_cons_self).perm
    simp only [List.flatMap_cons, List.map_append]
    refine List.Perm.trans ?_ (hfirst.append hrest)
    simp only [List.append_assoc]
    refine List.Perm.append_left _ ?_
    rw [← List.append_assoc, ← List.append_assoc]
    exact List.perm_append_comm.append_right _

/-- The entries whose event satisfies `p`. -/
theorem System.Traced.countWhere_entries (h : st.Traced serde) (p : ClickEvent → Bool) :
    countWhere st.entries (fun e => (parseClickEvent serde e).any p) = st.events.countP p := by
  unfold countWhere
  rw [← h.sent.countP_eq p, List.countP_filterMap]
  congr 2
  funext e
  cases parseClickEvent serde e <;> rfl

/-- **The events are of redirects**: those of a code, and all of them. -/
theorem System.Traced.clicks_add (h : st.Traced serde) (code : String) :
    st.fleet.project.clicks serde code + st.clicks.count code = st.redirected.count code := by
  have hcount := (flatMap_balanced h.balanced).count_eq code
  rw [List.count_append, List.count_eq_countP (a := code), List.countP_map] at hcount
  have hentries := h.countWhere_entries fun event => event.shortCode = code
  have hsame : st.fleet.project.clicks serde code =
      countWhere st.entries fun e => (parseClickEvent serde e).any fun event =>
        event.shortCode = code := rfl
  rw [hsame, hentries]
  have hpred : st.events.countP (fun event => decide (event.shortCode = code)) =
      (st.gateways.flatMap Gateway.events).countP ((fun x => x == code) ∘ ClickEvent.shortCode) :=
    List.countP_congr fun event _ => by simp
  unfold System.clicks System.redirected
  rw [hpred]
  exact_mod_cast hcount

theorem System.Traced.events_add (h : st.Traced serde) :
    st.fleet.project.events serde + st.clicks.length = st.redirected.length := by
  have hlength := (flatMap_balanced h.balanced).length_eq
  rw [List.length_append, List.length_map] at hlength
  have hentries := h.countWhere_entries fun _ => true
  have hsame : st.fleet.project.events serde =
      countWhere st.entries fun e => (parseClickEvent serde e).any fun _ => true :=
    countWhere_congr fun e _ => by cases parseClickEvent serde e <;> rfl
  rw [hsame, hentries, List.countP_true]
  unfold System.clicks System.redirected System.events
  exact_mod_cast hlength

/-! ## The statistics -/

/-- The global daily rows are at most the well-formed entries. -/
theorem WriterInv.globalSum_le {w : WriterState} (h : WriterInv serde (fun _ => 0) w) :
    w.pg.globalDailyClicks.sum ≤ w.events serde := by
  have hle : w.pg.globalDailyClicks.sum ≤
      ∑ d ∈ w.pg.globalDailyClicks.keys with True, w.creditable serde (.global d) := by
    refine Finset.sum_le_sum fun d _ => ?_
    cases hrow : w.pg.globalDailyClicks.get d with
    | none =>
      rw [Table.val_of_none hrow]
      exact add_nonneg (countWhere_nonneg _ _) (ackedCount_nonneg serde _ _ _)
    | some v =>
      have hbound := (h.within (.global d) v (.pg hrow)).2
      rw [Table.val_of_get hrow]
      rwa [zero_add] at hbound
  exact hle.trans (w.sum_creditable_le serde _)

/-- What the runs of the system start from: nothing is counted, and the total is the sum. -/
theorem totalClicks_eq_sum {w : WriterState} {bs : List WriterAction}
    (hrun : (writer serde).run .init bs = some w) (hevents : w.events serde < 2 ^ 53) :
    w.pg.totalClicks = w.pg.globalDailyClicks.sum := by
  have hcount : ∀ b, Postgres.empty.count b = 0 := fun b => by cases b <;> rfl
  have hfit : w.CountsFit serde Postgres.empty.count := fun b => by
    rw [hcount b]
    exact ⟨le_refl _, by rw [zero_add]; exact lt_of_le_of_lt (w.appended_le_events b) hevents⟩
  have hwiped : (writer serde).run (wiped Postgres.empty) bs = some w := hrun
  have htotal := (total_inv hwiped hfit hevents).total
  have hzero : Postgres.empty.untracked = 0 := by
    unfold Postgres.untracked Postgres.empty Table.sum
    rw [Table.sumWhere_empty]
    rfl
  rw [hzero] at htotal
  unfold Postgres.untracked at htotal
  omega

/-- **Nothing is counted that was not redirected.** Whatever the gateways, the instances, the other
services and the stores do, while no session ends whose instance writes and `serde_json` parses
what it wrote, the total is the sum of the global daily rows and no more than the redirects
given, and the daily rows of a link are no more than the redirects given for its code. -/
theorem counts_le_redirects
    (hmeets : (system serde toJson count).Meets (System.Sound serde toJson) .init as)
    (hrun : (system serde toJson count).run .init as = some st)
    (hfit : st.redirected.length < 2 ^ 53) :
    st.fleet.stores.pg.totalClicks = st.fleet.stores.pg.globalDailyClicks.sum ∧
    st.fleet.stores.pg.totalClicks ≤ st.redirected.length ∧
    ∀ code, st.fleet.stores.pg.linkSum code ≤ st.redirected.count code := by
  have htraced := traced_of_run hmeets hrun (System.Traced.init serde)
  obtain ⟨fs, hfs, hkeeps, -⟩ := System.fleet_run_of_sound hmeets hrun
  obtain ⟨bs, hbs, -⟩ := Fleet.run_refines_of_keepsGuard hkeeps hfs Fleet.Guarded.init
  have hevents := htraced.events_add
  have hbound : st.fleet.project.events serde < 2 ^ 53 := by omega
  have hinv := writer_inv hbs (WriterInv.init serde) (WriterState.CountsFit.of_events hbound)
  have htotal : st.fleet.stores.pg.totalClicks = st.fleet.stores.pg.globalDailyClicks.sum :=
    totalClicks_eq_sum hbs hbound
  have hsum : st.fleet.stores.pg.globalDailyClicks.sum ≤ st.fleet.project.events serde :=
    hinv.globalSum_le
  refine ⟨htotal, by omega, fun code => ?_⟩
  have hlink : st.fleet.stores.pg.linkSum code ≤ st.fleet.project.clicks serde code :=
    hinv.linkSum_le code
  have hclicks := htraced.clicks_add code
  omega

/-- No link is created for a code that has been clicked. -/
def System.CreatesFresh (serde : SerdeJson) (st : System) : SystemAction → Prop
  | .fleet (.environment b) => st.fleet.project.CreatesFresh serde b
  | _ => True

instance (serde : SerdeJson) (st : System) : DecidablePred (st.CreatesFresh serde)
  | .fleet (.environment b) => inferInstanceAs (Decidable (st.fleet.project.CreatesFresh serde b))
  | .fleet .spawn | .fleet (.cancel _) | .fleet (.acquire _ _ _) | .fleet (.acquireFails _)
  | .fleet (.inner _ _) | .fleet (.release _ _) | .fleet (.retry _) | .fleet (.returns _)
  | .fleet (.endSession _) | .fleet (.crash _) | .start _ | .gateway _ _ | .append _ _ _ _ =>
    isTrue trivial

/-- **Run lemma** for the click counts of the writer, with the bound on the number of clicks asked
of the last state. -/
theorem link_inv {w : WriterState} {bs : List WriterAction}
    (hrun : (writer serde).run .init bs = some w)
    (hfresh : (writer serde).Meets (WriterState.CreatesFresh serde) .init bs)
    (hevents : w.events serde < 2 ^ 53) : LinkInv w := by
  have hboth : w.events serde < 2 ^ 53 → WriterInv serde (fun _ => 0) w ∧ LinkInv w := by
    apply (writer serde).run_invariant_of_meets (I := fun w => w.events serde < 2 ^ 53 →
      WriterInv serde (fun _ => 0) w ∧ LinkInv w) _ hfresh hrun
      (fun _ => ⟨WriterInv.init serde, LinkInv.init⟩)
    intro s a s' hs hfresh hstep hevents'
    have hstep := WriterState.Step.of_step hstep
    have hevents : s.events serde < 2 ^ 53 := lt_of_le_of_lt (hstep.countWhere_le _) hevents'
    obtain ⟨hinv, hlinks⟩ := hs hevents
    exact ⟨hinv.step (WriterState.CountsFit.of_events hevents) hstep,
      hlinks.step hinv hevents hfresh hstep⟩
  exact (hboth hevents).2

/-- **The click count of a link** is the sum of its daily rows and no more than the redirects given
for its code, in a run in which no link is created for a code that has been clicked. -/
theorem clickCount_le_redirects
    (hmeets : (system serde toJson count).Meets
      (fun st a => st.Sound serde toJson a ∧ st.CreatesFresh serde a) .init as)
    (hrun : (system serde toJson count).run .init as = some st)
    (hfit : st.redirected.length < 2 ^ 53) {code : String} {row : LinkRow}
    (hrow : st.fleet.stores.pg.links.get code = some row) :
    row.clickCount = st.fleet.stores.pg.linkSum code ∧
      row.clickCount ≤ st.redirected.count code := by
  have hsound := Machine.Meets.mono _ (fun _ _ h => h.1) hmeets
  have htraced := traced_of_run hsound hrun (System.Traced.init serde)
  -- from the system to its instances, and from these to the one writer
  obtain ⟨fs, hfs, hkeeps, -⟩ := System.fleet_run
    (D := fun fl b => ∀ c, b = .environment c → fl.project.CreatesFresh serde c)
    (fun _ _ c hc => by cases hc; trivial)
    (Machine.Meets.mono _ (fun st a h => ⟨h.1, by
      rintro b rfl c rfl
      exact h.2⟩) hmeets) hrun
  obtain ⟨bs, hbs, hfresh, -⟩ := Fleet.run_refines (D := WriterState.CreatesFresh serde)
    (fun w b hb => by cases b <;> trivial) hkeeps hfs Fleet.Guarded.init
  have hevents := htraced.events_add
  have hbound : st.fleet.project.events serde < 2 ^ 53 := by omega
  have hinv := writer_inv hbs (WriterInv.init serde) (WriterState.CountsFit.of_events hbound)
  have hcount := (link_inv hbs hfresh hbound).counts.clickCount code row hrow
  rw [add_zero] at hcount
  have hlink : st.fleet.stores.pg.linkSum code ≤ st.fleet.project.clicks serde code :=
    hinv.linkSum_le code
  have hclicks := htraced.clicks_add code
  refine ⟨hcount, ?_⟩
  rw [hcount]
  show st.fleet.stores.pg.linkSum code ≤ _
  omega

/-- A redirect is given and its event appended, and an instance records it and flushes, up to the
return of the last flush. -/
def redirectFlow : List SystemAction :=
  [.fleet (.environment (.createLink "a" "https://example.org" none)), .start 100,
    .gateway 0 (.redirect "a"), .gateway 0 (.cached 0 (some "https://example.org")),
    .append 0 0 DateTime.unixEpoch 1] ++
  (clickStopping.filter fun a => !(a matches .environment _)).map .fleet

theorem counts_le_redirects_flow : ∃ st,
    (system epochSerde (fun _ => epochPayload) 1).run .init redirectFlow = some st ∧
      st.redirected = ["a"] ∧ st.fleet.stores.pg.totalClicks = 1 ∧
      ∀ code, st.fleet.stores.pg.linkSum code ≤ st.redirected.count code := by
  have hvalues : ((system epochSerde (fun _ => epochPayload) 1).run .init redirectFlow).map
      (fun st => (st.redirected, st.fleet.stores.pg.totalClicks)) = some (["a"], 1) := by
    decide
  obtain ⟨st, hrun, hst⟩ := Option.map_eq_some_iff.mp hvalues
  obtain ⟨hredirected, htotal⟩ := Prod.mk.inj hst
  refine ⟨st, hrun, hredirected, htotal, (counts_le_redirects (by decide) hrun ?_).2.2⟩
  rw [hredirected]
  decide

theorem clickCount_le_redirects_flow : ∃ st row,
    (system epochSerde (fun _ => epochPayload) 1).run .init redirectFlow = some st ∧
      st.fleet.stores.pg.links.get "a" = some row ∧ row.clickCount = 1 ∧
      row.clickCount ≤ st.redirected.count "a" := by
  have hvalues : ((system epochSerde (fun _ => epochPayload) 1).run .init redirectFlow).map
      (fun st => (st.redirected, (st.fleet.stores.pg.links.get "a").map LinkRow.clickCount)) =
      some (["a"], some 1) := by
    decide
  obtain ⟨st, hrun, hst⟩ := Option.map_eq_some_iff.mp hvalues
  obtain ⟨hredirected, hcount⟩ := Prod.mk.inj hst
  obtain ⟨row, hrow, hone⟩ := Option.map_eq_some_iff.mp hcount
  refine ⟨st, row, hrun, hrow, hone, (clickCount_le_redirects (by decide) hrun ?_ hrow).2⟩
  rw [hredirected]
  decide

end Runs

end Kurl
