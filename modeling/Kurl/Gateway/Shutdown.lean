import Kurl.Gateway.ClickEvents
import Kurl.Gateway.Progress

/-!
# Kurl — the shutdown of the gateway ends (`gateway/src/main.rs`)

The gateway here serves redirects, the route `/s/{code}`, and nothing else. `main` waits for the
requests and for the tasks of the tracker. A request asks Redis and then waits for a call of its
own, and no other request does (`Gateway.Paired`): a call that goes on keeps its request open, and a
request that is open keeps `main` from returning, but not for ever, since the calls end
(`Kurl.Gateway.Progress`).

As there, the result has two halves: `Gateway.work_step` (every step takes work away, and only a
request brings some) and `GatewayInv.stuck_iff` (where nothing moves, nothing is left). A request's
work covers the call it will make, so a cache miss moves work into the client and adds none.

Requests of the other routes keep `main` waiting as well. Their calls of the core service and of the
analytics service have no such client in between, and those of the statistics have no timeout, so
nothing is said here about a gateway with such a request.

`redis_query` returns, with a value or with an error that is logged.
-/

namespace Kurl

open Lib

/-! ## The calls of the requests -/

/-- The requests in `get_link` and the calls that go on belong together, one to one. -/
structure Gateway.Paired (st : Gateway) : Prop where
  fetching : ∀ (r : Nat) (code : String) (k : Nat), st.requests[r]? = some ⟨code, .fetching k⟩ →
    ∃ caller, st.client.callers[k]? = some caller ∧ caller.stage ≠ .cancelled
  unique : ∀ (r r' : Nat) (code code' : String) (k : Nat),
    st.requests[r]? = some ⟨code, .fetching k⟩ →
      st.requests[r']? = some ⟨code', .fetching k⟩ → r = r'
  pending : ∀ (k : Nat) (caller : Caller), st.client.callers[k]? = some caller →
    caller.stage.pending = true → ∃ (r : Nat) (code : String),
      st.requests[r]? = some ⟨code, .fetching k⟩

section Gateways

variable {maxInFlight : Nat} {st st' : Gateway} {a : GatewayAction}

theorem Gateway.Paired.init (maxInFlight : Nat) : (Gateway.init maxInFlight).Paired where
  fetching := fun _ _ _ hr => by cases hr
  unique := fun _ _ _ _ _ hr => by cases hr
  pending := fun _ _ hk => by cases hk

/-- The client moves, and cancels nothing. -/
theorem Gateway.Paired.setClient (h : st.Paired) {b : CoreClientAction} {client : CoreClient}
    (hcancel : ∀ k, b ≠ .cancel k) (hcall : ∀ code, b ≠ .getLink code)
    (hstep : st.client.Step b client) : Gateway.Paired { st with client := client } where
  fetching := by
    intro r code k hr
    obtain ⟨caller, hk, hlive⟩ := h.fetching r code k hr
    obtain ⟨stage, hk', hcancelled⟩ := hstep.caller hk
    exact ⟨_, hk', fun hstage => (hcancelled hstage).elim hlive (hcancel k)⟩
  unique := h.unique
  pending := by
    intro k caller hk hpending
    rcases hstep.pending hk hpending with ⟨old, hold, hbefore, -⟩ | ⟨-, code, rfl⟩
    · exact h.pending k old hold hbefore
    · exact absurd rfl (hcall code)

/-- A request is over: what it waited for does not go on, and the other calls do. -/
theorem Gateway.Paired.settle (h : st.Paired) {r : Nat} {code : String}
    {stage stage' : RequestStage} (hrequest : st.requests[r]? = some ⟨code, stage⟩)
    (hstage' : ∀ k, stage' ≠ .fetching k)
    {client : CoreClient}
    (hkeeps : ∀ k caller, stage ≠ .fetching k → st.client.callers[k]? = some caller →
      caller.stage ≠ .cancelled →
        ∃ caller', client.callers[k]? = some caller' ∧ caller'.stage ≠ .cancelled)
    (hover : ∀ k caller, client.callers[k]? = some caller → caller.stage.pending = true →
      stage ≠ .fetching k ∧
        ∃ old, st.client.callers[k]? = some old ∧ old.stage.pending = true) :
    Gateway.Paired { st with client := client, requests := st.requests.set r ⟨code, stage'⟩ } where
  fetching := by
    intro r' code' k hr'
    rcases getElem?_set_cases hr' with ⟨-, heq⟩ | ⟨hne, hold⟩
    · exact absurd (congrArg RedirectRequest.stage heq).symm (hstage' k)
    · obtain ⟨caller, hk, hlive⟩ := h.fetching r' code' k hold
      refine hkeeps k caller ?_ hk hlive
      rintro rfl
      exact hne (h.unique r' r code' code k hold hrequest)
  unique := by
    intro r₁ r₂ code₁ code₂ k hr₁ hr₂
    rcases getElem?_set_cases hr₁ with ⟨-, heq⟩ | ⟨-, hold₁⟩
    · exact absurd (congrArg RedirectRequest.stage heq).symm (hstage' k)
    rcases getElem?_set_cases hr₂ with ⟨-, heq⟩ | ⟨-, hold₂⟩
    · exact absurd (congrArg RedirectRequest.stage heq).symm (hstage' k)
    exact h.unique r₁ r₂ code₁ code₂ k hold₁ hold₂
  pending := by
    intro k caller hk hpending
    obtain ⟨hne, old, hold, hbefore⟩ := hover k caller hk hpending
    obtain ⟨r', code', hr'⟩ := h.pending k old hold hbefore
    refine ⟨r', code', ?_⟩
    show (st.requests.set r ⟨code, stage'⟩)[r']? = _
    rw [getElem?_set_of_getElem? hrequest, if_neg]
    · exact hr'
    · rintro rfl
      have heq := Option.some.inj (hrequest.symm.trans hr')
      exact hne (congrArg RedirectRequest.stage heq)

/-- A request misses the cache and calls `get_link`. -/
theorem Gateway.Paired.miss (h : st.Paired) {r : Nat} {code : String}
    (hrequest : st.requests[r]? = some ⟨code, .querying⟩) : Gateway.Paired
      { st with
        client := st.client.getLink code
        requests := st.requests.set r ⟨code, .fetching st.client.callers.length⟩ } := by
  have hstep : st.client.Step (.getLink code) (st.client.getLink code) := .of_step rfl
  -- the call of no request of before
  have hnew {r' : Nat} {code' : String} (hr' : st.requests[r']? = some
      ⟨code', .fetching st.client.callers.length⟩) : False := by
    obtain ⟨caller, hk, -⟩ := h.fetching r' code' _ hr'
    have hlt := (List.getElem?_eq_some_iff.mp hk).1
    omega
  refine ⟨fun r' code' k hr' => ?_, fun r₁ r₂ code₁ code₂ k hr₁ hr₂ => ?_,
    fun k caller hk hpending => ?_⟩
  · -- the new call is there and goes on, and the others are as they were
    rcases getElem?_set_cases hr' with ⟨-, heq⟩ | ⟨-, hold⟩
    · obtain rfl := RequestStage.fetching.inj (congrArg RedirectRequest.stage heq)
      obtain ⟨i, hcaller, -⟩ := st.client.getLink_caller code
      exact ⟨_, hcaller, fun hstage => by cases hstage⟩
    · obtain ⟨caller, hk, hlive⟩ := h.fetching r' code' k hold
      obtain ⟨stage, hk', hcancelled⟩ := hstep.caller hk
      exact ⟨_, hk', fun hstage => (hcancelled hstage).elim hlive fun heq => by cases heq⟩
  · -- no two requests share a call: the new one is at a position no request had
    rcases getElem?_set_cases hr₁ with ⟨rfl, heq₁⟩ | ⟨-, hold₁⟩
    · obtain rfl := RequestStage.fetching.inj (congrArg RedirectRequest.stage heq₁)
      rcases getElem?_set_cases hr₂ with ⟨rfl, -⟩ | ⟨-, hold₂⟩
      · rfl
      · exact (hnew hold₂).elim
    · rcases getElem?_set_cases hr₂ with ⟨rfl, heq₂⟩ | ⟨-, hold₂⟩
      · obtain rfl := RequestStage.fetching.inj (congrArg RedirectRequest.stage heq₂)
        exact (hnew hold₁).elim
      · exact h.unique r₁ r₂ code₁ code₂ k hold₁ hold₂
  · -- a call that goes on has its request: the one that misses, or one of before
    have hset (r' : Nat) := getElem?_set_of_getElem? hrequest
      ⟨code, .fetching st.client.callers.length⟩ r'
    rcases hstep.pending hk hpending with ⟨old, hold, hbefore, -⟩ | ⟨rfl, -⟩
    · obtain ⟨r', code', hr'⟩ := h.pending k old hold hbefore
      refine ⟨r', code', ?_⟩
      rw [hset, if_neg]
      · exact hr'
      · rintro rfl
        cases Option.some.inj (hrequest.symm.trans hr')
    · refine ⟨r, code, ?_⟩
      rw [hset, if_pos rfl]

/-- **Step lemma.** A request in `get_link` and its call come together in the step of a cache miss,
and part when the call has returned or the request is dropped with it. -/
theorem Gateway.Paired.step (h : st.Paired) (hstep : gateway.step st a = some st') :
    st'.Paired := by
  cases Gateway.Moves.of_step hstep with
  | redirect code =>
    -- a request that has just arrived waits for no call
    have happend {r : Nat} {code' : String} {k : Nat}
        (hr : (st.requests ++ [⟨code, .querying⟩])[r]? = some ⟨code', .fetching k⟩) :
        st.requests[r]? = some ⟨code', .fetching k⟩ :=
      (getElem?_append_cases hr).resolve_right fun heq => by cases heq
    refine ⟨fun r code' k hr => h.fetching r code' k (happend hr),
      fun r r' c c' k hr hr' => h.unique r r' c c' k (happend hr) (happend hr'),
      fun k caller hk hpending => ?_⟩
    obtain ⟨r, code', hr⟩ := h.pending k caller hk hpending
    refine ⟨r, code', ?_⟩
    show (st.requests ++ [_])[r]? = _
    rw [List.getElem?_append_left (List.getElem?_eq_some_iff.mp hr).1]
    exact hr
  | @hit r code hrequest url =>
    have hsettle : Gateway.Paired
        { st with requests := st.requests.set r ⟨code, .responded (.ok ⟨url⟩)⟩ } :=
      h.settle hrequest (fun _ heq => by cases heq)
        (fun _ caller _ hk hlive => ⟨caller, hk, hlive⟩)
        fun _ caller hk hpending => ⟨(fun heq => by cases heq), caller, hk, hpending⟩
    exact ⟨hsettle.fetching, hsettle.unique, hsettle.pending⟩
  | miss hrequest => exact h.miss hrequest
  | client hcancel hcall hclient => exact h.setClient hcancel hcall (.of_step hclient)
  | @fetched r k code caller reply hrequest hcaller hreturned =>
    have hsettle : Gateway.Paired
        { st with requests := st.requests.set r ⟨code, .responded (redirectReply reply)⟩ } := by
      refine h.settle hrequest (fun _ heq => by cases heq)
        (fun _ caller _ hk hlive => ⟨caller, hk, hlive⟩)
        fun k' caller' hk' hpending => ⟨fun heq => ?_, caller', hk', hpending⟩
      -- its call has returned
      obtain rfl := RequestStage.fetching.inj heq
      obtain rfl := Option.some.inj (hcaller.symm.trans hk')
      rw [hreturned] at hpending
      cases hpending
    exact ⟨hsettle.fetching, hsettle.unique, hsettle.pending⟩
  | drop hrequest =>
    exact h.settle hrequest (fun _ heq => by cases heq)
      (fun _ caller _ hk hlive => ⟨caller, hk, hlive⟩)
      fun _ caller hk hpending => ⟨(fun heq => by cases heq), caller, hk, hpending⟩
  | @cancel r k code client hrequest hclient =>
    -- the request is dropped together with its call, and only that one is cancelled
    have hmoves := CoreClient.Step.of_step hclient
    refine h.settle hrequest (fun _ heq => by cases heq) (fun k' caller hne hk' hlive => ?_)
      fun k' caller hk' hpending => ?_
    · obtain ⟨stage, hafter, hcancelled⟩ := hmoves.caller hk'
      refine ⟨_, hafter, fun hstage => ?_⟩
      rcases hcancelled hstage with hbefore | heq
      · exact hlive hbefore
      · exact hne (congrArg RequestStage.fetching (CoreClientAction.cancel.inj heq))
    · rcases hmoves.pending hk' hpending with ⟨old, hold, hbefore, hother⟩ | ⟨-, _, heq⟩
      · refine ⟨fun heq => hother ?_, old, hold, hbefore⟩
        exact congrArg CoreClientAction.cancel (RequestStage.fetching.inj heq)
      · cases heq
  -- click tasks and `main` touch neither a request nor a call
  | append _ _ => exact ⟨h.fetching, h.unique, h.pending⟩
  | shutdown _ => exact ⟨h.fetching, h.unique, h.pending⟩
  | exit _ _ _ => exact ⟨h.fetching, h.unique, h.pending⟩

/-! ## What a gateway has left to do -/

/-- The steps that a request still takes, its call and its click task included. -/
def RequestStage.work : RequestStage → Nat
  | .querying => 10
  | .fetching _ => 2
  | .responded _ | .dropped => 0

def MainStage.work : MainStage → Nat
  | .serving => 2
  | .draining => 1
  | .exited => 0

def Gateway.work (st : Gateway) : Nat :=
  st.client.work + (st.requests.map fun r => r.stage.work).sum + st.clicks.length + st.main.work

/-- What a request brings: its own steps and the one in which it arrives. -/
def GatewayAction.brings : GatewayAction → Nat
  | .redirect _ => 11
  | _ => 0

/-- A step of the gateway itself. Requests arrive and are closed from outside, and the signal
comes from there; the click tasks are left out too, since nothing waits for them. -/
def GatewayAction.own : GatewayAction → Prop
  | .client a => a.own
  | .cached _ _ | .fetched _ | .exit => True
  | .redirect _ | .disconnect _ | .append _ _ | .shutdown => False

/-- A request takes another stage. -/
theorem Gateway.work_setRequest {i : Nat} {code : String} {stage : RequestStage}
    (hrequest : st.requests[i]? = some ⟨code, stage⟩) (stage' : RequestStage) :
    ((st.requests.set i ⟨code, stage'⟩).map fun r => r.stage.work).sum + stage.work =
      (st.requests.map fun r => r.stage.work).sum + stage'.work :=
  sum_map_set_of_getElem? hrequest ⟨code, stage'⟩ fun r => r.stage.work

/-- A response leaves at most its click task. -/
theorem Gateway.work_respond {i : Nat} {code : String} {stage : RequestStage}
    (hrequest : st.requests[i]? = some ⟨code, stage⟩) (hstage : 2 ≤ stage.work)
    (result : Except StatusCode Redirect) : (st.respond i code result).work + 1 ≤ st.work := by
  have hsum := Gateway.work_setRequest hrequest (.responded result)
  have hresponded : (RequestStage.responded result).work = 0 := rfl
  cases result with
  | ok target =>
    simp only [Gateway.work, Gateway.respond, List.length_append, List.length_singleton]
    omega
  | error status =>
    simp only [Gateway.work, Gateway.respond]
    omega

/-- Every step takes work away, and a request brings some. -/
theorem Gateway.work_step (h : gateway.step st a = some st') :
    st'.work + 1 ≤ st.work + a.brings := by
  cases Gateway.Moves.of_step h with
  | redirect code =>
    simp only [Gateway.work, GatewayAction.brings, List.map_append, List.sum_append, List.map_cons,
      List.map_nil, List.sum_cons, List.sum_nil, RequestStage.work]
    omega
  | hit hrequest url => exact Gateway.work_respond hrequest (by decide) _
  | fetched hrequest _ _ => exact Gateway.work_respond hrequest (le_refl 2) _
  | @miss r code hrequest =>
    -- the call and its task take over what is left of the request
    have hcall : (st.client.getLink code).work + 1 ≤ st.client.work + 8 :=
      CoreClient.work_step (a := .getLink code) rfl
    have hsum := Gateway.work_setRequest hrequest (.fetching st.client.callers.length)
    change _ + 10 = _ + 2 at hsum
    simp only [Gateway.work, GatewayAction.brings]
    omega
  | client _ hcall hclient =>
    have hwork := CoreClient.work_step hclient
    rw [CoreClientAction.brings_of_not_call hcall] at hwork
    simp only [Gateway.work, GatewayAction.brings]
    omega
  | drop hrequest =>
    have hsum := Gateway.work_setRequest hrequest .dropped
    change _ + 10 = _ + 0 at hsum
    simp only [Gateway.work, GatewayAction.brings]
    omega
  | cancel hrequest hclient =>
    have hwork := CoreClient.work_step hclient
    have hsum := Gateway.work_setRequest hrequest .dropped
    change _ + 1 ≤ _ + 0 at hwork
    change _ + 2 = _ + 0 at hsum
    simp only [Gateway.work, GatewayAction.brings]
    omega
  | append hclick now =>
    obtain ⟨hlt, -⟩ := List.getElem?_eq_some_iff.mp hclick
    simp only [Gateway.work, GatewayAction.brings, List.length_eraseIdx_of_lt hlt]
    omega
  | shutdown hmain =>
    simp only [Gateway.work, GatewayAction.brings, hmain, MainStage.work]
    omega
  | exit hmain _ _ =>
    simp only [Gateway.work, GatewayAction.brings, hmain, MainStage.work]
    omega

/-! ## Where a gateway can do nothing -/

/-- What holds of every run of a gateway: the invariant of its client, the pairing of requests and
calls, and nothing open once `main` has returned. -/
structure GatewayInv (maxInFlight : Nat) (st : Gateway) : Prop where
  client : CoreClientInv maxInFlight st.client
  paired : st.Paired
  /-- `main` returned when the requests and the tasks were over. -/
  exited : st.main = .exited → (∀ r ∈ st.requests, r.settled = true) ∧
    ∀ f ∈ st.client.flights, f.stage.running = false

theorem GatewayInv.init (maxInFlight : Nat) : GatewayInv maxInFlight (.init maxInFlight) where
  client := .init maxInFlight
  paired := .init maxInFlight
  exited := fun hmain => by cases hmain

/-- **Step lemma.** The parts are those of the client and of the requests, and what `main` has
waited for. -/
theorem GatewayInv.step (h : GatewayInv maxInFlight st) (hstep : gateway.step st a = some st') :
    GatewayInv maxInFlight st' where
  client := by
    cases Gateway.Moves.of_step hstep with
    | miss hrequest => exact h.client.step (a := .getLink _) rfl
    | client _ _ hclient => exact h.client.step hclient
    | cancel _ hclient => exact h.client.step hclient
    | _ => exact h.client
  paired := h.paired.step hstep
  exited := by
    intro hmain
    rcases Gateway.main_of_step hstep with ⟨rfl, rfl⟩ | ⟨-, hrunning⟩
    · have hmoves : st.Moves .exit { st with main := .exited } := .of_step hstep
      cases hmoves with
      | exit _ hrequests hflights =>
        refine ⟨List.all_eq_true.mp hrequests, fun f hf => ?_⟩
        have hnot := List.all_eq_true.mp hflights f hf
        rwa [Bool.not_eq_true'] at hnot
    · exact absurd hmain hrunning

/-- Nothing goes on in the gateway, and `main` does not wait. -/
structure Gateway.Rests (maxInFlight : Nat) (st : Gateway) : Prop where
  main : st.main ≠ .draining
  requests : ∀ r ∈ st.requests, r.settled = true
  client : st.client.Idle maxInFlight

/-- A call that goes on is of a request that is not settled. -/
theorem GatewayInv.callers_of_settled (h : GatewayInv maxInFlight st)
    (hrequests : ∀ r ∈ st.requests, r.settled = true) :
    ∀ caller ∈ st.client.callers, caller.stage.pending = false := by
  intro caller hmem
  rw [← Bool.not_eq_true]
  intro hpending
  obtain ⟨k, hk⟩ := List.mem_iff_getElem?.mp hmem
  obtain ⟨r, code, hr⟩ := h.paired.pending k caller hk hpending
  have hsettled := hrequests _ (List.mem_of_getElem? hr)
  cases hsettled

/-- The client of a gateway that can do nothing can do nothing. -/
theorem Gateway.client_stuck (hmain : st.main ≠ .exited)
    (hstuck : gateway.Stuck GatewayAction.own st) :
    coreClient.Stuck CoreClientAction.own st.client := by
  intro a hown
  have hnone := hstuck (.client a) hown
  simp only [gateway, Gateway.step, if_neg hmain] at hnone
  cases a with
  | getLink code => exact hown.elim
  | cancel k => exact hown.elim
  | _ => exact Option.map_eq_none_iff.mp hnone

/-- **Where nothing moves, nothing is left**, and `main` does not wait. -/
theorem GatewayInv.stuck_iff (h : GatewayInv maxInFlight st) (hpos : 0 < maxInFlight) :
    gateway.Stuck GatewayAction.own st ↔ st.Rests maxInFlight := by
  constructor
  · intro hstuck
    by_cases hmain : st.main = .exited
    · obtain ⟨hrequests, hflights⟩ := h.exited hmain
      refine ⟨fun hdraining => ?_, hrequests, h.client.idle hflights
        (h.callers_of_settled hrequests)⟩
      rw [hmain] at hdraining
      cases hdraining
    · -- first the client: it can do nothing, so its calls are over
      have hidle := CoreClient.idle_of_stuck hpos h.client (Gateway.client_stuck hmain hstuck)
      -- then the requests: Redis answers, and a call that is over can be fetched
      have hrequests : ∀ r ∈ st.requests, r.settled = true := by
        intro r hr
        obtain ⟨i, hi⟩ := List.mem_iff_getElem?.mp hr
        obtain ⟨code, stage⟩ := r
        cases stage with
        | responded result => rfl
        | dropped => rfl
        | querying =>
          have hnone := hstuck (.cached i none) trivial
          simp only [gateway, Gateway.step, if_neg hmain, hi] at hnone
          cases hnone
        | fetching k =>
          -- its call has returned, and was not cancelled
          obtain ⟨caller, hk, hlive⟩ := h.paired.fetching i code k hi
          have hover := hidle.callers caller (List.mem_of_getElem? hk)
          have hnone := hstuck (.fetched i) trivial
          obtain ⟨callerCode, flight, stage⟩ := caller
          cases stage with
          | returned reply =>
            simp only [gateway, Gateway.step, if_neg hmain, hi, hk, Option.map_some] at hnone
            cases hnone
          | cancelled => exact absurd rfl hlive
          | waiting => cases hover
          | stopped => cases hover
      refine ⟨fun hdraining => ?_, hrequests, hidle⟩
      -- and with that `main`, if it drains, could return
      have hnone := hstuck .exit trivial
      simp only [gateway, Gateway.step, if_neg hmain] at hnone
      rw [if_pos ⟨hdraining, List.all_eq_true.mpr hrequests, List.all_eq_true.mpr fun f hf => by
        rw [hidle.flights f hf]; rfl⟩] at hnone
      cases hnone
  · intro hrests a hown
    by_contra hsome
    obtain ⟨st', hstep⟩ := Option.ne_none_iff_exists'.mp hsome
    have hopen {i : Nat} {code : String} {stage : RequestStage}
        (hi : st.requests[i]? = some ⟨code, stage⟩) :
        (⟨code, stage⟩ : RedirectRequest).settled = true :=
      hrests.requests _ (List.mem_of_getElem? hi)
    -- a gateway that rests has no open request, no running flight and no `main` that waits
    cases Gateway.Moves.of_step hstep with
    | redirect code => exact hown
    | hit hrequest url => cases hopen hrequest
    | miss hrequest => cases hopen hrequest
    | fetched hrequest _ _ => cases hopen hrequest
    | drop _ => exact hown
    | cancel _ _ => exact hown
    | append _ _ => exact hown
    | shutdown _ => exact hown
    | exit hmain _ _ => exact hrests.main hmain
    | client _ _ hclient =>
      have hnone := (CoreClient.stuck_iff hpos h.client).mpr
        ⟨hrests.client.flights, hrests.client.callers⟩ _ hown
      rw [hnone] at hclient
      cases hclient

/-- The gateway does not go back to serving. -/
theorem Gateway.main_ne_serving (h : st.main ≠ .serving) (hstep : gateway.step st a = some st') :
    st'.main ≠ .serving := by
  cases Gateway.Moves.of_step hstep with
  | shutdown _ => exact fun heq => by cases heq
  | exit _ _ _ => exact fun heq => by cases heq
  | _ => exact h

/-- **The shutdown of a gateway that serves redirects ends.** A run has at most eleven steps for every
request and two for `main`. Where the gateway can do nothing by itself, and only there, `main` does
not wait, every request was answered or closed and nothing goes on in the client; and there is always
a way to such a state, in which `main` has returned if the shutdown had begun. -/
theorem gateway_shutdown_ends {as : List GatewayAction} (hpos : 0 < maxInFlight)
    (hrun : gateway.run (.init maxInFlight) as = some st) :
    as.length + st.work ≤ 2 + (as.map GatewayAction.brings).sum ∧
      (gateway.Stuck GatewayAction.own st ↔ st.Rests maxInFlight) ∧
      ∃ bs t, (∀ b ∈ bs, GatewayAction.own b) ∧ gateway.run st bs = some t ∧
        t.Rests maxInFlight ∧ (st.main ≠ .serving → t.main = .exited) := by
  have hinv : GatewayInv maxInFlight st :=
    gateway.run_invariant (fun _ _ _ h hstep => h.step hstep) hrun (.init maxInFlight)
  refine ⟨?_, hinv.stuck_iff hpos, ?_⟩
  · exact gateway.run_length_le Gateway.work GatewayAction.brings (I := fun _ => True)
      (fun _ _ _ _ _ => trivial) (fun _ _ _ _ hstep => Gateway.work_step hstep) hrun trivial
  · -- the gateway goes on by itself for as long as it can, with nothing new from outside
    obtain ⟨bs, t, hown, hrest, hstuck⟩ := gateway.exists_stuck
      (I := GatewayInv maxInFlight) GatewayAction.own Gateway.work
      (fun _ _ _ h hstep => h.step hstep)
      (fun u a u' _ hown hstep => by
        have hwork := Gateway.work_step hstep
        have hbrings : a.brings = 0 := by
          cases a with
          | redirect code => exact hown.elim
          | _ => rfl
        omega) hinv
    have hrests : t.Rests maxInFlight := by
      refine (GatewayInv.stuck_iff ?_ hpos).mp hstuck
      exact gateway.run_invariant (fun _ _ _ h hstep => h.step hstep) hrest hinv
    refine ⟨bs, t, hown, hrest, hrests, fun hbegun => ?_⟩
    -- once the shutdown has begun, a `main` that does not wait has returned
    have hlater : t.main ≠ .serving :=
      gateway.run_invariant (I := fun u => u.main ≠ .serving)
        (fun _ _ _ h hstep => Gateway.main_ne_serving h hstep) hrest hbegun
    cases hmain : t.main with
    | serving => exact absurd hmain hlater
    | draining => exact absurd hmain hrests.main
    | exited => rfl

end Gateways

/-- The signal comes while one request asks Redis, and two wait for a flight whose task dies. -/
def shutdownWhileFetching : List GatewayAction :=
  [.redirect "a", .redirect "a", .redirect "b", .cached 0 none, .cached 1 none,
    .client (.acquire 0), .shutdown, .disconnect 0, .client (.die 0)]

theorem gateway_shutdown_ends_whileFetching : ∃ st,
    gateway.run (.init 1) shutdownWhileFetching = some st ∧
      ∃ bs t, (∀ b ∈ bs, GatewayAction.own b) ∧ gateway.run st bs = some t ∧
        t.Rests 1 ∧ (st.main ≠ .serving → t.main = .exited) := by
  have hsome : (gateway.run (.init 1) shutdownWhileFetching).isSome = true := by decide
  obtain ⟨st, hst⟩ := Option.isSome_iff_exists.mp hsome
  exact ⟨st, hst, (gateway_shutdown_ends (by decide) hst).2.2⟩

end Kurl
