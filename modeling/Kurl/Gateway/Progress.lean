import Kurl.Gateway.CoreClient
import Kurl.Lib.Progress

/-!
# Kurl — no call of `get_link` hangs (`gateway/src/grpc/core_client.rs`)

A caller waits for a task, and the task waits for a permit and for the core service. `work` counts
the steps that are left: every step takes some of it away, except a new call, so all that goes on
comes to an end (`work_step`). What is left to look at are the states in which the tasks and the
callers can do nothing (`CoreClient.stuck_iff`): there every call has returned or was cancelled and
every task is over. A flight that waits for a permit finds one, since every flight that holds one
gives it back (`flights_of_stuck`), and a caller has a flight, whose reply or whose end it sees
(`callers_of_stuck`).

The RPC of a flight is answered: it has a timeout. The expired timeout and a crash of the core
service are among the replies.

What counts as a step of the client itself is `CoreClientAction.own`. Calls begin and are cancelled,
and tasks are aborted, from outside: such steps may occur in a run, and none has to.
-/

namespace Kurl

open Lib

/-! ## What is left to do -/

/-- The steps that a task still takes. -/
def FlightStage.work : FlightStage → Nat
  | .queued => 5
  | .calling => 4
  | .answered _ => 3
  | .released _ => 2
  | .published _ => 1
  | .finished _ | .died => 0

/-- The steps that a call still takes. -/
def CallerStage.work : CallerStage → Nat
  | .waiting => 2
  | .stopped => 1
  | .returned _ | .cancelled => 0

def CoreClient.work (st : CoreClient) : Nat :=
  (st.flights.map fun f => f.stage.work).sum + (st.callers.map fun c => c.stage.work).sum

/-- What a call brings: a task, itself and the step in which it begins. -/
def CoreClientAction.brings : CoreClientAction → Nat
  | .getLink _ => 8
  | _ => 0

/-- A step of a task or of a call that goes on. Calls begin and are cancelled, and tasks are
dropped, from outside. -/
def CoreClientAction.own : CoreClientAction → Prop
  | .getLink _ | .cancel _ | .die _ => False
  | _ => True

theorem CoreClientAction.brings_of_not_call {a : CoreClientAction} (h : ∀ code, a ≠ .getLink code) :
    a.brings = 0 := by
  cases a with
  | getLink code => exact absurd rfl (h code)
  | _ => rfl

/-- The call goes on. -/
def CallerStage.pending : CallerStage → Bool
  | .waiting | .stopped => true
  | .returned _ | .cancelled => false

/-- A task that holds a permit is not over. -/
theorem FlightStage.running_of_holdsPermit {stage : FlightStage} (h : stage.holdsPermit = true) :
    stage.running = true := by
  cases stage with
  | calling => rfl
  | answered reply => rfl
  | _ => cases h

namespace CoreClient

section Steps

variable {maxInFlight : Nat} {st st' : CoreClient} {a : CoreClientAction}

/-- A flight moves. -/
theorem work_setFlight {i : Nat} {key : String} {stage : FlightStage}
    (hflight : st.flights[i]? = some ⟨key, stage⟩) (stage' : FlightStage) :
    (st.setFlight i key stage').work + stage.work = st.work + stage'.work := by
  have hsum := sum_map_set_of_getElem? hflight ⟨key, stage'⟩ fun f => f.stage.work
  simp only [work, setFlight] at hsum ⊢
  omega

/-- A call moves. -/
theorem work_setCaller {k : Nat} {caller : Caller} (hcaller : st.callers[k]? = some caller)
    (stage : CallerStage) :
    (st.setCaller k caller stage).work + caller.stage.work = st.work + stage.work := by
  have hsum := sum_map_set_of_getElem? hcaller { caller with stage := stage }
    fun c => c.stage.work
  simp only [work, setCaller] at hsum ⊢
  omega

/-- Every step takes work away, and a call brings some. -/
theorem work_step (h : coreClient.step st a = some st') : st'.work + 1 ≤ st.work + a.brings := by
  -- the map and the permits do not count
  have hflight {i : Nat} {key : String} {stage : FlightStage}
      (hi : st.flights[i]? = some ⟨key, stage⟩) (stage' : FlightStage)
      (hless : stage'.work + 1 ≤ stage.work) :
      (st.setFlight i key stage').work + 1 ≤ st.work + 0 := by
    have hwork := work_setFlight hi stage'
    omega
  have hcall {k : Nat} {caller : Caller} (hk : st.callers[k]? = some caller)
      (stage : CallerStage) (hless : stage.work + 1 ≤ caller.stage.work) :
      (st.setCaller k caller stage).work + 1 ≤ st.work + 0 := by
    have hwork := work_setCaller hk stage
    omega
  cases Step.of_step h with
  | join _ =>
    simp only [work, CoreClientAction.brings, List.map_append, List.sum_append, List.map_cons,
      List.map_nil, List.sum_cons, List.sum_nil, CallerStage.work]
    omega
  | spawn _ =>
    simp only [work, CoreClientAction.brings, List.map_append, List.sum_append, List.map_cons,
      List.map_nil, List.sum_cons, List.sum_nil, CallerStage.work, FlightStage.work]
    omega
  | returns hk _ _ => exact hcall hk _ (by simp only [CallerStage.work]; omega)
  | stops hk _ => exact hcall hk _ (by simp only [CallerStage.work]; omega)
  | giveUp hk => exact hcall hk _ (by simp only [CallerStage.work]; omega)
  | cancel hk => exact hcall hk _ (by simp only [CallerStage.work]; omega)
  | acquire hi _ => exact hflight hi _ (by simp only [FlightStage.work]; omega)
  | respond hi _ => exact hflight hi _ (by simp only [FlightStage.work]; omega)
  | release hi => exact hflight hi _ (by simp only [FlightStage.work]; omega)
  | publish hi => exact hflight hi _ (by simp only [FlightStage.work]; omega)
  | remove hi => exact hflight hi _ (by simp only [FlightStage.work]; omega)
  | @die _ _ stage hi hactive =>
    refine hflight hi .died ?_
    cases stage with
    | published reply => cases hactive
    | finished reply => cases hactive
    | died => cases hactive
    | _ => simp only [FlightStage.work]; omega

/-! ## Where the tasks and the calls can do nothing -/

/-- A flight that is neither over nor waiting for a permit has a step. -/
theorem stage_of_stuck (hstuck : coreClient.Stuck CoreClientAction.own st) {i : Nat} {key : String}
    {stage : FlightStage} (hflight : st.flights[i]? = some ⟨key, stage⟩) :
    stage = .queued ∨ stage.running = false := by
  cases stage with
  | queued => exact .inl rfl
  | finished reply => exact .inr rfl
  | died => exact .inr rfl
  | calling =>
    -- any reply will do
    have hnone := hstuck (.respond i flightStopped) trivial
    simp only [coreClient, step, hflight] at hnone
    cases hnone
  | answered reply =>
    have hnone := hstuck (.release i) trivial
    simp only [coreClient, step, hflight] at hnone
    cases hnone
  | released reply =>
    have hnone := hstuck (.publish i) trivial
    simp only [coreClient, step, hflight] at hnone
    cases hnone
  | published reply =>
    have hnone := hstuck (.remove i) trivial
    simp only [coreClient, step, hflight] at hnone
    cases hnone

/-- All tasks are over. The permits are all there, so none waits for one. -/
theorem flights_of_stuck (hpos : 0 < maxInFlight) (hinv : CoreClientInv maxInFlight st)
    (hstuck : coreClient.Stuck CoreClientAction.own st) :
    ∀ f ∈ st.flights, f.stage.running = false := by
  -- a flight with a permit could move, so no permit is out
  have hheld : st.flights.countP (fun f => f.stage.holdsPermit) = 0 := by
    rw [List.countP_eq_zero]
    intro f hf hholds
    obtain ⟨i, hi⟩ := List.mem_iff_getElem?.mp hf
    rcases stage_of_stuck hstuck hi with hqueued | hover
    · rw [hqueued] at hholds
      cases hholds
    · rw [FlightStage.running_of_holdsPermit hholds] at hover
      cases hover
  have hpermits := hinv.permits
  intro f hf
  obtain ⟨i, hi⟩ := List.mem_iff_getElem?.mp hf
  refine (stage_of_stuck hstuck hi).resolve_left fun hqueued => ?_
  obtain ⟨key, stage⟩ := f
  -- then one is free for a flight that waits
  obtain rfl : stage = .queued := hqueued
  have hnone := hstuck (.acquire i) trivial
  simp only [coreClient, step, hi] at hnone
  rw [if_pos (by omega)] at hnone
  cases hnone

/-- All calls have returned or were cancelled: a flight that is over has sent its reply or died,
and its callers see which. -/
theorem callers_of_stuck (hinv : CoreClientInv maxInFlight st)
    (hstuck : coreClient.Stuck CoreClientAction.own st)
    (hover : ∀ f ∈ st.flights, f.stage.running = false) :
    ∀ caller ∈ st.callers, caller.stage.pending = false := by
  intro caller hmem
  obtain ⟨k, hk⟩ := List.mem_iff_getElem?.mp hmem
  obtain ⟨flight, hflight, -⟩ := hinv.callers caller hmem
  obtain ⟨code, i, stage⟩ := caller
  cases stage with
  | returned reply => rfl
  | cancelled => rfl
  | stopped =>
    -- it saw the closed channel and can drop the entry
    have hnone := hstuck (.giveUp k) trivial
    simp only [coreClient, step, hk] at hnone
    cases hnone
  | waiting =>
    -- its flight is over, so there is a value or a closed channel to see
    have hnone := hstuck (.wake k) trivial
    have hflight_over := hover _ (List.mem_of_getElem? hflight)
    cases flight with
    | died =>
      simp only [coreClient, step, hk, hflight] at hnone
      cases hnone
    | finished reply =>
      simp only [coreClient, step, hk, hflight] at hnone
      cases hnone
    | _ => cases hflight_over

/-- **Where nothing moves, nothing is left.** -/
theorem stuck_iff (hpos : 0 < maxInFlight) (hinv : CoreClientInv maxInFlight st) :
    coreClient.Stuck CoreClientAction.own st ↔
      (∀ f ∈ st.flights, f.stage.running = false) ∧
        ∀ caller ∈ st.callers, caller.stage.pending = false := by
  constructor
  · intro hstuck
    have hover := flights_of_stuck hpos hinv hstuck
    exact ⟨hover, callers_of_stuck hinv hstuck hover⟩
  · rintro ⟨hflights, hcallers⟩ a hown
    have hflight {i : Nat} {f : Flight} (hi : st.flights[i]? = some f)
        (hrunning : f.stage.running = true) : False := by
      rw [hflights f (List.mem_of_getElem? hi)] at hrunning
      cases hrunning
    have hcaller {k : Nat} {caller : Caller} (hk : st.callers[k]? = some caller)
        (hpending : caller.stage.pending = true) : False := by
      rw [hcallers caller (List.mem_of_getElem? hk)] at hpending
      cases hpending
    by_contra hsome
    obtain ⟨st', hstep⟩ := Option.ne_none_iff_exists'.mp hsome
    cases Step.of_step hstep with
    | join _ => exact hown
    | spawn _ => exact hown
    | cancel _ => exact hown
    | die _ _ => exact hown
    | returns hk _ _ => exact hcaller hk rfl
    | stops hk _ => exact hcaller hk rfl
    | giveUp hk => exact hcaller hk rfl
    | acquire hi _ => exact hflight hi rfl
    | respond hi _ => exact hflight hi rfl
    | release hi => exact hflight hi rfl
    | publish hi => exact hflight hi rfl
    | remove hi => exact hflight hi rfl

/-! ## Callers -/

/-- A caller keeps its position, its code and its flight, and only `cancel` cancels it. -/
theorem Step.caller (h : st.Step a st') {k : Nat} {caller : Caller}
    (hcaller : st.callers[k]? = some caller) :
    ∃ stage, st'.callers[k]? = some { caller with stage := stage } ∧
      (stage = .cancelled → caller.stage = .cancelled ∨ a = .cancel k) := by
  have hset {j : Nat} {other : Caller} (hj : st.callers[j]? = some other) (stage : CallerStage)
      (hcancelled : stage = .cancelled → a = .cancel j) :
      ∃ stage', (st.callers.set j { other with stage := stage })[k]? =
          some { caller with stage := stage' } ∧
        (stage' = .cancelled → caller.stage = .cancelled ∨ a = .cancel k) := by
    rw [getElem?_set_of_getElem? hj]
    by_cases hkj : k = j
    · subst hkj
      obtain rfl := Option.some.inj (hcaller.symm.trans hj)
      exact ⟨stage, if_pos rfl, fun hstage => .inr (hcancelled hstage)⟩
    · exact ⟨caller.stage, by rw [if_neg hkj]; exact hcaller, .inl⟩
  have happend (other : Caller) :
      ∃ stage, (st.callers ++ [other])[k]? = some { caller with stage := stage } ∧
        (stage = .cancelled → caller.stage = .cancelled ∨ a = .cancel k) := by
    rw [List.getElem?_append_left (List.getElem?_eq_some_iff.mp hcaller).1]
    exact ⟨caller.stage, hcaller, .inl⟩
  cases h with
  | join _ => exact happend _
  | spawn _ => exact happend _
  | returns hj _ _ => exact hset hj _ fun hstage => by cases hstage
  | stops hj _ => exact hset hj _ fun hstage => by cases hstage
  | giveUp hj => exact hset hj _ fun hstage => by cases hstage
  | cancel hj => exact hset hj _ fun _ => rfl
  | _ => exact ⟨caller.stage, hcaller, .inl⟩

/-- A call that goes on went on before, or has just begun. -/
theorem Step.pending (h : st.Step a st') {k : Nat} {caller : Caller}
    (hcaller : st'.callers[k]? = some caller) (hpending : caller.stage.pending = true) :
    (∃ old, st.callers[k]? = some old ∧ old.stage.pending = true ∧ a ≠ .cancel k) ∨
      k = st.callers.length ∧ ∃ code, a = .getLink code := by
  have hset {j : Nat} {other : Caller} {stage : CallerStage}
      (hj : st.callers[j]? = some other) (hbefore : other.stage.pending = true)
      (hnot : stage.pending = true → a ≠ .cancel j) (hcancel : ∀ i, a = .cancel i → i = j)
      (hk : (st.callers.set j { other with stage := stage })[k]? = some caller) :
      ∃ old, st.callers[k]? = some old ∧ old.stage.pending = true ∧ a ≠ .cancel k := by
    rcases getElem?_set_cases hk with ⟨rfl, rfl⟩ | ⟨hne, hold⟩
    · exact ⟨other, hj, hbefore, hnot hpending⟩
    · exact ⟨caller, hold, hpending, fun heq => hne (hcancel k heq)⟩
  have happend {other : Caller} {code : String} (ha : a = .getLink code)
      (hk : (st.callers ++ [other])[k]? = some caller) :
      (∃ old, st.callers[k]? = some old ∧ old.stage.pending = true ∧ a ≠ .cancel k) ∨
        k = st.callers.length ∧ ∃ code, a = .getLink code := by
    by_cases hlt : k < st.callers.length
    · rw [List.getElem?_append_left hlt] at hk
      exact .inl ⟨caller, hk, hpending, by rw [ha]; exact fun heq => by cases heq⟩
    · have hle := (List.getElem?_eq_some_iff.mp hk).1
      rw [List.length_append, List.length_singleton] at hle
      exact .inr ⟨by omega, code, ha⟩
  -- a call begins at the end of the list; the others change the stage of a call at most
  cases h with
  | join _ => exact happend rfl hcaller
  | spawn _ => exact happend rfl hcaller
  | returns hj _ _ =>
    exact .inl (hset hj rfl (fun _ heq => by cases heq) (fun _ heq => by cases heq) hcaller)
  | stops hj _ =>
    exact .inl (hset hj rfl (fun _ heq => by cases heq) (fun _ heq => by cases heq) hcaller)
  | giveUp hj =>
    exact .inl (hset hj rfl (fun _ heq => by cases heq) (fun _ heq => by cases heq) hcaller)
  | cancel hj =>
    exact .inl (hset hj rfl (fun hp => by cases hp)
      (fun _ heq => (CoreClientAction.cancel.inj heq).symm) hcaller)
  | _ => exact .inl ⟨caller, hcaller, hpending, fun heq => by cases heq⟩

/-- The caller of a new call, and the flight it waits for. -/
theorem getLink_caller (st : CoreClient) (code : String) :
    ∃ i, (st.getLink code).callers[st.callers.length]? = some ⟨code, i, .waiting⟩ ∧
      (st.getLink code).inFlight.get code = some i := by
  unfold getLink
  split
  · next i hentry => exact ⟨i, by simp, hentry⟩
  · exact ⟨st.flights.length, by simp, by simp⟩

end Steps

end CoreClient

/-! ## Calls -/

/-- Nothing goes on in the client: the permits are all there, and an entry of the map is one of a
task that died, which the next caller of its code removes. -/
structure CoreClient.Idle (maxInFlight : Nat) (st : CoreClient) : Prop where
  flights : ∀ f ∈ st.flights, f.stage.running = false
  callers : ∀ caller ∈ st.callers, caller.stage.pending = false
  permits : st.permits = maxInFlight
  entries : ∀ (code : String) (i : Nat), st.inFlight.get code = some i →
    st.flights[i]? = some ⟨code, .died⟩

section Calls

variable {maxInFlight : Nat} {as : List CoreClientAction} {st : CoreClient}

theorem CoreClientInv.idle (h : CoreClientInv maxInFlight st)
    (hflights : ∀ f ∈ st.flights, f.stage.running = false)
    (hcallers : ∀ caller ∈ st.callers, caller.stage.pending = false) : st.Idle maxInFlight where
  flights := hflights
  callers := hcallers
  permits := by
    have hheld : st.flights.countP (fun f => f.stage.holdsPermit) = 0 := by
      rw [List.countP_eq_zero]
      intro f hf hholds
      have hrunning := FlightStage.running_of_holdsPermit hholds
      rw [hflights f hf] at hrunning
      cases hrunning
    have hpermits := h.permits
    omega
  entries := by
    intro code i hentry
    obtain ⟨stage, hflight, hfinished⟩ := h.entry code i hentry
    have hover := hflights _ (List.mem_of_getElem? hflight)
    cases stage with
    | died => exact hflight
    | finished reply => exact absurd rfl (hfinished reply)
    | _ => cases hover

theorem CoreClient.idle_of_stuck (hpos : 0 < maxInFlight) (hinv : CoreClientInv maxInFlight st)
    (hstuck : coreClient.Stuck CoreClientAction.own st) : st.Idle maxInFlight := by
  obtain ⟨hflights, hcallers⟩ := (CoreClient.stuck_iff hpos hinv).mp hstuck
  exact hinv.idle hflights hcallers

/-- **No call hangs.** A run has at most eight steps for every call, so when no more calls come it
ends. Where the tasks and the calls can do nothing, and only there, every call has returned or was
cancelled and every permit is back, whatever died and whoever was cancelled before; and there is
always a way to such a state. -/
theorem getLink_ends (hpos : 0 < maxInFlight)
    (hrun : coreClient.run (.withMaxInFlight maxInFlight) as = some st) :
    as.length + st.work ≤ (as.map CoreClientAction.brings).sum ∧
      (coreClient.Stuck CoreClientAction.own st ↔ st.Idle maxInFlight) ∧
      ∃ bs t, (∀ b ∈ bs, CoreClientAction.own b) ∧ coreClient.run st bs = some t ∧
        t.Idle maxInFlight := by
  have hinv : CoreClientInv maxInFlight st :=
    coreClient.run_invariant (fun _ _ _ hinv hstep => hinv.step hstep) hrun (.init maxInFlight)
  refine ⟨?_, ⟨CoreClient.idle_of_stuck hpos hinv, fun hidle => ?_⟩, ?_⟩
  · have hlength := coreClient.run_length_le CoreClient.work CoreClientAction.brings
      (I := fun _ => True) (fun _ _ _ _ _ => trivial)
      (fun _ _ _ _ hstep => CoreClient.work_step hstep) hrun trivial
    rwa [show (CoreClient.withMaxInFlight maxInFlight).work = 0 from rfl, Nat.zero_add] at hlength
  · exact (CoreClient.stuck_iff hpos hinv).mpr ⟨hidle.flights, hidle.callers⟩
  · obtain ⟨bs, t, hown, hrest, hstuck⟩ := coreClient.exists_stuck
      (I := CoreClientInv maxInFlight) CoreClientAction.own CoreClient.work
      (fun _ _ _ hinv hstep => hinv.step hstep)
      (fun u a u' _ hown hstep => by
        have hwork := CoreClient.work_step hstep
        have hbrings : a.brings = 0 := by
          cases a with
          | getLink code => exact hown.elim
          | _ => rfl
        omega) hinv
    refine ⟨bs, t, hown, hrest, CoreClient.idle_of_stuck hpos ?_ hstuck⟩
    exact coreClient.run_invariant (fun _ _ _ hinv hstep => hinv.step hstep) hrest hinv

/-- With one permit: a task that holds it dies while another waits for it. -/
def diesWithPermit : List CoreClientAction :=
  [.getLink "a", .getLink "b", .acquire 0, .getLink "a", .die 0, .cancel 0]

theorem getLink_ends_diesWithPermit : ∃ st,
    coreClient.run (.withMaxInFlight 1) diesWithPermit = some st ∧
      ∃ bs t, (∀ b ∈ bs, CoreClientAction.own b) ∧ coreClient.run st bs = some t ∧
        t.Idle 1 := by
  have hsome : (coreClient.run (.withMaxInFlight 1) diesWithPermit).isSome = true := by decide
  obtain ⟨st, hst⟩ := Option.isSome_iff_exists.mp hsome
  exact ⟨st, hst, (getLink_ends (by decide) hst).2.2⟩

end Calls

end Kurl
