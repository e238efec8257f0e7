import Kurl.Gateway.CoreClient
import Kurl.RedisStats

/-!
# Kurl — redirects and their click events (`gateway/src/api/redirect.rs`, `gateway/src/cache.rs`)

The gateway from its start to the end of `main`: redirect requests, the coalesced calls they make
on a cache miss, the click tasks they spawn and the shutdown. `send_click_event` spawns a task
and does not wait for it. `main` waits for the requests and for the tasks of the tracker, which
are the flights; the click tasks are in neither, and the ones that have not appended their event
when `main` returns are dropped.

At every point the events appended and the tasks waiting make up the redirects given
(`Gateway.Balanced`), so the events are those of the redirects exactly if no click task is
waiting when `main` returns (`appended_eq_redirects_iff`).

`Gateway.Moves` lists what each step does, with the call it belongs to; for the events the coarser
`Gateway.Step` is enough.
-/

namespace Kurl

open Lib

/-- `Redirect::permanent`, a 308 to this location. -/
structure Redirect where
  location : String
  deriving DecidableEq

/-- Where a redirect request is: `querying` the cache, `fetching` with the call at this position,
answered, or `dropped` by a client that has gone. -/
inductive RequestStage where
  /-- In `redis_query`. -/
  | querying
  /-- In `CoreClient::get_link`, as this caller. -/
  | fetching (caller : Nat)
  | responded (result : Except StatusCode Redirect)
  /-- The connection was closed before the response. -/
  | dropped
  deriving DecidableEq

/-- A request of the route `/s/{code}`. -/
structure RedirectRequest where
  shortCode : String
  stage : RequestStage
  deriving DecidableEq

/-- The response is a redirect for the code. -/
def RedirectRequest.redirected (request : RedirectRequest) (code : String) : Bool :=
  match request.stage with
  | .responded (.ok _) => request.shortCode = code
  | _ => false

/-- The request is over. -/
def RedirectRequest.settled (request : RedirectRequest) : Bool :=
  match request.stage with
  | .responded _ | .dropped => true
  | _ => false

/-- Where `main` is. -/
inductive MainStage where
  | serving
  /-- The shutdown future has resolved: no request is accepted any more. -/
  | draining
  | exited
  deriving DecidableEq

/-- The gateway, as far as it serves the route `/s/{code}`: its requests are redirects. -/
structure Gateway where
  main : MainStage
  client : CoreClient
  requests : List RedirectRequest
  /-- The codes of the click tasks that have not appended their event. -/
  clicks : List String
  /-- The click events appended to the stream. -/
  events : List ClickEvent

def Gateway.init (maxInFlight : Nat) : Gateway := ⟨.serving, .withMaxInFlight maxInFlight, [], [], []⟩

/-- The match of `redirect` on the reply of the core service. -/
def redirectReply : GetLinkReply → Except StatusCode Redirect
  | .ok response => .ok ⟨response.target⟩
  | .error status =>
    match status.code with
    | .notFound => .error .notFound
    | .failedPrecondition => .error .gone
    | _ => .error .internalServerError

/-- What happens in a gateway: requests arrive and move, the client moves, click tasks append, and
the signal comes. -/
inductive GatewayAction where
  /-- A request for a code arrives. -/
  | redirect (shortCode : String)
  /-- `redis_query` of a request returns. -/
  | cached (request : Nat) (url : Option String)
  /-- A step of a flight, or of a caller that its channel wakes. -/
  | client (a : CoreClientAction)
  /-- `get_link` of a request returns. -/
  | fetched (request : Nat)
  /-- The connection of a request is closed. -/
  | disconnect (request : Nat)
  /-- `inner_send_click_event` of a click task. -/
  | append (click : Nat) (now : DateTime)
  | shutdown
  /-- The requests and the tracked tasks are over, and `main` returns. -/
  | exit

namespace Gateway

/-- A response; with a redirect `send_click_event` has spawned a task. -/
def respond (st : Gateway) (i : Nat) (shortCode : String) (result : Except StatusCode Redirect) :
    Gateway :=
  { st with
    requests := st.requests.set i ⟨shortCode, .responded result⟩
    clicks := match result with
      | .ok _ => st.clicks ++ [shortCode]
      | .error _ => st.clicks }

def step (st : Gateway) (a : GatewayAction) : Option Gateway :=
  if st.main = .exited then none else match a with
  | .redirect shortCode =>
    if st.main = .serving then
      some { st with requests := st.requests ++ [⟨shortCode, .querying⟩] }
    else none
  | .cached i url =>
    match st.requests[i]? with
    | some ⟨shortCode, .querying⟩ =>
      match url with
      | some url => some (st.respond i shortCode (.ok ⟨url⟩))
      | none => some { st with
          client := st.client.getLink shortCode
          requests := st.requests.set i ⟨shortCode, .fetching st.client.callers.length⟩ }
    | _ => none
  | .client (.getLink _) => none
  | .client (.cancel _) => none
  | .client a => (coreClient.step st.client a).map fun client => { st with client := client }
  | .fetched i =>
    match st.requests[i]? with
    | some ⟨shortCode, .fetching k⟩ =>
      match (st.client.callers[k]?).map Caller.stage with
      | some (.returned reply) => some (st.respond i shortCode (redirectReply reply))
      | _ => none
    | _ => none
  | .disconnect i =>
    match st.requests[i]? with
    | some ⟨shortCode, .querying⟩ =>
      some { st with requests := st.requests.set i ⟨shortCode, .dropped⟩ }
    | some ⟨shortCode, .fetching k⟩ =>
      (coreClient.step st.client (.cancel k)).map fun client =>
        { st with client := client, requests := st.requests.set i ⟨shortCode, .dropped⟩ }
    | _ => none
  | .append j now =>
    match st.clicks[j]? with
    | some shortCode => some { st with
        clicks := st.clicks.eraseIdx j
        events := st.events ++ [⟨shortCode, now⟩] }
    | none => none
  | .shutdown => if st.main = .serving then some { st with main := .draining } else none
  | .exit =>
    if st.main = .draining ∧ st.requests.all RedirectRequest.settled ∧
        st.client.flights.all (fun f => !f.stage.running) then
      some { st with main := .exited }
    else none

end Gateway

def gateway : Machine Gateway GatewayAction where
  step := Gateway.step

/-- `main` does not return while a click task has not appended its event. -/
def waitsForClicks (st : Gateway) : GatewayAction → Bool
  | .exit => st.clicks.isEmpty
  | _ => true

namespace Gateway

/-- The redirects given for a code. -/
def redirects (st : Gateway) (code : String) : Nat := st.requests.countP fun r => r.redirected code

/-- The events appended for a code. -/
def appended (st : Gateway) (code : String) : Nat := st.events.countP fun e => e.shortCode = code

/-- Every redirect has its event appended or its task waiting. -/
def Balanced (st : Gateway) : Prop :=
  ∀ code, st.appended code + st.clicks.count code = st.redirects code

end Gateway

/-! ## Steps -/

/-- **What each step of a gateway does.** -/
inductive Gateway.Moves (st : Gateway) : GatewayAction → Gateway → Prop
  | redirect (code : String) :
      Moves st (.redirect code) { st with requests := st.requests ++ [⟨code, .querying⟩] }
  | hit {i : Nat} {code : String} (hrequest : st.requests[i]? = some ⟨code, .querying⟩)
      (url : String) : Moves st (.cached i (some url)) (st.respond i code (.ok ⟨url⟩))
  | miss {i : Nat} {code : String} (hrequest : st.requests[i]? = some ⟨code, .querying⟩) :
      Moves st (.cached i none)
        { st with
          client := st.client.getLink code
          requests := st.requests.set i ⟨code, .fetching st.client.callers.length⟩ }
  | client {a : CoreClientAction} {client : CoreClient} (hcancel : ∀ k, a ≠ .cancel k)
      (hcall : ∀ code, a ≠ .getLink code) (hstep : coreClient.step st.client a = some client) :
      Moves st (.client a) { st with client := client }
  | fetched {i k : Nat} {code : String} {caller : Caller} {reply : GetLinkReply}
      (hrequest : st.requests[i]? = some ⟨code, .fetching k⟩)
      (hcaller : st.client.callers[k]? = some caller) (hreturned : caller.stage = .returned reply) :
      Moves st (.fetched i) (st.respond i code (redirectReply reply))
  | drop {i : Nat} {code : String} (hrequest : st.requests[i]? = some ⟨code, .querying⟩) :
      Moves st (.disconnect i) { st with requests := st.requests.set i ⟨code, .dropped⟩ }
  | cancel {i k : Nat} {code : String} {client : CoreClient}
      (hrequest : st.requests[i]? = some ⟨code, .fetching k⟩)
      (hstep : coreClient.step st.client (.cancel k) = some client) :
      Moves st (.disconnect i)
        { st with client := client, requests := st.requests.set i ⟨code, .dropped⟩ }
  | append {j : Nat} {code : String} (hclick : st.clicks[j]? = some code) (now : DateTime) :
      Moves st (.append j now)
        { st with clicks := st.clicks.eraseIdx j, events := st.events ++ [⟨code, now⟩] }
  | shutdown (hmain : st.main = .serving) : Moves st .shutdown { st with main := .draining }
  | exit (hmain : st.main = .draining) (hrequests : st.requests.all RedirectRequest.settled = true)
      (hflights : st.client.flights.all (fun f => !f.stage.running) = true) :
      Moves st .exit { st with main := .exited }

/-- **Every step is one of these.** -/
theorem Gateway.Moves.of_step {st st' : Gateway} {a : GatewayAction} (h : st.step a = some st') :
    st.Moves a st' := by
  unfold Gateway.step at h
  split at h
  · cases h
  cases a with
  | redirect code =>
    simp only at h
    split at h
    · obtain rfl := Option.some.inj h
      exact .redirect code
    · cases h
  | cached i url =>
    simp only at h
    split at h
    · next code hrequest =>
      cases url with
      | some url =>
        obtain rfl := Option.some.inj h
        exact .hit hrequest url
      | none =>
        obtain rfl := Option.some.inj h
        exact .miss hrequest
    · cases h
  | client a =>
    have hcancel : ∀ k, a ≠ .cancel k := by
      rintro k rfl
      cases h
    have hcall : ∀ code, a ≠ .getLink code := by
      rintro code rfl
      cases h
    have hmap : (coreClient.step st.client a).map (fun client => { st with client := client }) =
        some st' := by
      cases a with
      | getLink code => cases h
      | cancel k => cases h
      | _ => exact h
    obtain ⟨client, hstep, rfl⟩ := Option.map_eq_some_iff.mp hmap
    exact .client hcancel hcall hstep
  | fetched i =>
    simp only at h
    split at h
    · next code k hrequest =>
      split at h
      · next reply hstage =>
        obtain rfl := Option.some.inj h
        obtain ⟨caller, hcaller, hreturned⟩ := Option.map_eq_some_iff.mp hstage
        exact .fetched hrequest hcaller hreturned
      · cases h
    · cases h
  | disconnect i =>
    simp only at h
    split at h
    · next code hrequest =>
      obtain rfl := Option.some.inj h
      exact .drop hrequest
    · next code k hrequest =>
      obtain ⟨client, hstep, rfl⟩ := Option.map_eq_some_iff.mp h
      exact .cancel hrequest hstep
    · cases h
  | append j now =>
    simp only at h
    split at h
    · next code hclick =>
      obtain rfl := Option.some.inj h
      exact .append hclick now
    · cases h
  | shutdown =>
    simp only at h
    split at h
    · next hserving =>
      obtain rfl := Option.some.inj h
      exact .shutdown hserving
    · cases h
  | exit =>
    simp only at h
    split at h
    · next hguard =>
      obtain rfl := Option.some.inj h
      exact .exit hguard.1 hguard.2.1 hguard.2.2
    · cases h

/-- The same by what it does to the requests, the click tasks and the events. Of the client only its
state is kept, since no event depends on it. -/
inductive Gateway.Step (st : Gateway) : GatewayAction → Gateway → Prop
  | redirect (code : String) (hmain : st.main = .serving) :
      Step st (.redirect code) { st with requests := st.requests ++ [⟨code, .querying⟩] }
  | respond {a : GatewayAction} {i : Nat} {code : String} {stage : RequestStage}
      (ha : a ≠ .exit) (hrequest : st.requests[i]? = some ⟨code, stage⟩)
      (hstage : ∀ result, stage ≠ .responded result) (result : Except StatusCode Redirect) :
      Step st a (st.respond i code result)
  | setRequest {a : GatewayAction} {i : Nat} {code : String} {stage stage' : RequestStage}
      (ha : a ≠ .exit) (hrequest : st.requests[i]? = some ⟨code, stage⟩)
      (hstage : ∀ result, stage ≠ .responded result)
      (hstage' : ∀ result, stage' ≠ .responded result) (client : CoreClient) :
      Step st a { st with client := client, requests := st.requests.set i ⟨code, stage'⟩ }
  | client (a : CoreClientAction) (client : CoreClient) :
      Step st (.client a) { st with client := client }
  | append {j : Nat} {code : String} (hclick : st.clicks[j]? = some code) (now : DateTime) :
      Step st (.append j now)
        { st with clicks := st.clicks.eraseIdx j, events := st.events ++ [⟨code, now⟩] }
  | shutdown (hmain : st.main = .serving) : Step st .shutdown { st with main := .draining }
  | exit (hmain : st.main = .draining) (hrequests : st.requests.all RedirectRequest.settled = true)
      (hflights : st.client.flights.all (fun f => !f.stage.running) = true) :
      Step st .exit { st with main := .exited }

/-- Requests are accepted by a gateway that serves, and a gateway that has returned does nothing. -/
theorem Gateway.Step.of_step {st st' : Gateway} {a : GatewayAction}
    (h : gateway.step st a = some st') : st.main ≠ .exited ∧ st.Step a st' := by
  change st.step a = some st' at h
  have hmain : st.main ≠ .exited := by
    intro hexited
    simp only [Gateway.step, if_pos hexited] at h
    cases h
  refine ⟨hmain, ?_⟩
  cases Gateway.Moves.of_step h with
  | redirect code =>
    have hserving : st.main = .serving := by
      by_contra hstopped
      simp only [Gateway.step, if_neg hmain, if_neg hstopped] at h
      cases h
    exact .redirect code hserving
  | hit hrequest url => exact .respond (by simp) hrequest (by simp) _
  | miss hrequest => exact .setRequest (by simp) hrequest (by simp) (by simp) _
  | client _ _ _ => exact .client _ _
  | fetched hrequest _ _ => exact .respond (by simp) hrequest (by simp) _
  | drop hrequest => exact .setRequest (by simp) hrequest (by simp) (by simp) _
  | cancel hrequest _ => exact .setRequest (by simp) hrequest (by simp) (by simp) _
  | append hclick now => exact .append hclick now
  | shutdown hserving => exact .shutdown hserving
  | exit hdraining hrequests hflights => exact .exit hdraining hrequests hflights

/-- Only `exit` ends `main`, and it leaves the click tasks. -/
theorem Gateway.main_of_step {st st' : Gateway} {a : GatewayAction}
    (h : gateway.step st a = some st') :
    a = .exit ∧ st' = { st with main := .exited } ∨ a ≠ .exit ∧ st'.main ≠ .exited := by
  obtain ⟨hmain, hstep⟩ := Gateway.Step.of_step h
  cases hstep with
  | exit _ _ _ => exact .inl ⟨rfl, rfl⟩
  | redirect _ _ => exact .inr ⟨by simp, hmain⟩
  | respond ha _ _ _ => exact .inr ⟨ha, hmain⟩
  | setRequest ha _ _ _ _ => exact .inr ⟨ha, hmain⟩
  | client _ _ => exact .inr ⟨by simp, hmain⟩
  | append _ _ => exact .inr ⟨by simp, hmain⟩
  | shutdown _ => exact .inr ⟨by simp, by simp⟩

section Steps

variable {st st' : Gateway} {a : GatewayAction}

/-- A request that has not been answered takes another stage. -/
theorem redirects_set {i : Nat} {code : String} {stage : RequestStage}
    (hrequest : st.requests[i]? = some ⟨code, stage⟩)
    (hstage : ∀ result, stage ≠ .responded result) (stage' : RequestStage) (c : String) :
    (st.requests.set i ⟨code, stage'⟩).countP (fun r => r.redirected c) =
      st.redirects c + if RedirectRequest.redirected ⟨code, stage'⟩ c then 1 else 0 := by
  have hcount := countP_set_of_getElem? hrequest ⟨code, stage'⟩ (fun r => r.redirected c)
  have hbefore : RedirectRequest.redirected ⟨code, stage⟩ c = false := by
    cases stage with
    | responded result => exact absurd rfl (hstage result)
    | _ => rfl
  rw [hbefore, if_neg (by simp), Nat.add_zero] at hcount
  exact hcount

/-- A response and its click task balance. -/
theorem Gateway.Balanced.respond (h : st.Balanced) {i : Nat} {code : String} {stage : RequestStage}
    (hrequest : st.requests[i]? = some ⟨code, stage⟩)
    (hstage : ∀ result, stage ≠ .responded result) (result : Except StatusCode Redirect) :
    (st.respond i code result).Balanced := by
  intro c
  have hredirects := redirects_set hrequest hstage (.responded result) c
  have hold := h c
  cases result with
  | error status =>
    show st.appended c + st.clicks.count c = (st.requests.set i _).countP _
    rw [hredirects, hold]
    rfl
  | ok target =>
    show st.appended c + (st.clicks ++ [code]).count c = (st.requests.set i _).countP _
    rw [hredirects, List.count_append, List.count_singleton, ← Nat.add_assoc, hold]
    simp [RedirectRequest.redirected]

/-- A request is not answered yet, and its step answers nothing. -/
theorem Gateway.Balanced.setRequest (h : st.Balanced) {i : Nat} {code : String}
    {stage stage' : RequestStage} (hrequest : st.requests[i]? = some ⟨code, stage⟩)
    (hstage : ∀ result, stage ≠ .responded result) (hstage' : ∀ result, stage' ≠ .responded result)
    (client : CoreClient) :
    Gateway.Balanced { st with client := client, requests := st.requests.set i ⟨code, stage'⟩ } := by
  intro c
  show st.appended c + st.clicks.count c = (st.requests.set i _).countP _
  have hafter : RedirectRequest.redirected ⟨code, stage'⟩ c = false := by
    cases stage' with
    | responded result => exact absurd rfl (hstage' result)
    | _ => rfl
  rw [redirects_set hrequest hstage, h c, hafter]
  rfl

/-- A click task appends its event. -/
theorem Gateway.Balanced.append (h : st.Balanced) {j : Nat} {code : String}
    (hclick : st.clicks[j]? = some code) (now : DateTime) : Gateway.Balanced
      { st with clicks := st.clicks.eraseIdx j, events := st.events ++ [⟨code, now⟩] } := by
  intro c
  have hold := h c
  obtain ⟨hlt, rfl⟩ := List.getElem?_eq_some_iff.mp hclick
  have herase := (List.getElem_cons_eraseIdx_perm hlt).count_eq c
  rw [List.count_cons] at herase
  show (st.events ++ [_]).countP _ + (st.clicks.eraseIdx j).count c = st.redirects c
  rw [List.countP_append, List.countP_singleton]
  unfold Gateway.appended at hold
  simp only [beq_iff_eq, decide_eq_true_eq] at herase ⊢
  omega

/-- **Step lemma.** A response with a redirect spawns one task, and a task appends one event. -/
theorem Gateway.Balanced.step (h : st.Balanced) (hstep : gateway.step st a = some st') :
    st'.Balanced := by
  -- a response brings a task along, and a task leaves an event: the rest moves nothing that
  -- counts
  cases (Gateway.Step.of_step hstep).2 with
  | redirect code _ =>
    intro c
    show st.appended c + st.clicks.count c = (st.requests ++ [_]).countP _
    rw [List.countP_append, h c]
    rfl
  | respond _ hrequest hstage result => exact h.respond hrequest hstage result
  | setRequest _ hrequest hstage hstage' client => exact h.setRequest hrequest hstage hstage' client
  | append hclick now => exact h.append hclick now
  | client _ _ => exact h
  | shutdown _ => exact h
  | exit _ _ _ => exact h

end Steps

/-! ## Runs -/

/-- `main` has waited for the click tasks exactly if none of them is left. -/
theorem meets_waitsForClicks_iff {st st' : Gateway} {as : List GatewayAction}
    (hmain : st.main ≠ .exited) (hrun : gateway.run st as = some st') (hexit : st'.main = .exited) :
    gateway.Meets (fun st a => waitsForClicks st a = true) st as ↔ st'.clicks = [] := by
  induction as generalizing st with
  | nil =>
    obtain rfl := Option.some.inj hrun
    exact absurd hexit hmain
  | cons a as ih =>
    obtain ⟨t, hstep, hrest⟩ := gateway.run_cons_some.mp hrun
    rw [gateway.meets_cons hstep]
    rcases Gateway.main_of_step hstep with ⟨rfl, rfl⟩ | ⟨hne, hopen⟩
    · -- nothing runs after `main` has returned
      cases as with
      | nil =>
        obtain rfl := Option.some.inj hrest
        show st.clicks.isEmpty = true ∧ True ↔ st.clicks = []
        rw [and_true, List.isEmpty_iff]
      | cons b bs =>
        obtain ⟨u, hu, -⟩ := gateway.run_cons_some.mp hrest
        exact absurd rfl (Gateway.Step.of_step hu).1
    · -- any other step meets the condition, and `main` goes on
      have hnow : waitsForClicks st a = true := by
        cases a with
        | exit => exact absurd rfl hne
        | _ => rfl
      rw [ih hopen hrest, hnow]
      simp

/-- **Events and redirects.** In a run that ends with the return of `main`, as many events were
appended for every code as redirects were given for it, exactly if no click task was waiting
when `main` returned. -/
theorem appended_eq_redirects_iff {maxInFlight : Nat} {as : List GatewayAction} {st : Gateway}
    (hrun : gateway.run (.init maxInFlight) as = some st) (hexit : st.main = .exited) :
    (∀ code, st.appended code = st.redirects code) ↔
      gateway.Meets (fun st a => waitsForClicks st a = true) (.init maxInFlight) as := by
  have hbalanced : st.Balanced :=
    gateway.run_invariant (fun _ _ _ h hs => h.step hs) hrun fun code => rfl
  rw [meets_waitsForClicks_iff (by simp [Gateway.init]) hrun hexit]
  constructor
  · intro hequal
    cases hclicks : st.clicks with
    | nil => rfl
    | cons code rest =>
      have hcount := hbalanced code
      rw [hclicks, List.count_cons_self, hequal code] at hcount
      omega
  · intro hnil code
    have hcount := hbalanced code
    rw [hnil] at hcount
    simpa using hcount

/-- A cache hit, whose click task appends its event before the shutdown, and a miss. -/
def oneRedirect : List GatewayAction :=
  [.redirect "a", .cached 0 (some "https://example.org"), .append 0 DateTime.unixEpoch,
    .redirect "b", .cached 1 none, .client (.acquire 0),
    .client (.respond 0 (.error ⟨.notFound, "Short code not found"⟩)), .client (.release 0),
    .client (.publish 0), .client (.wake 0), .client (.remove 0), .fetched 1, .shutdown, .exit]

theorem appended_eq_redirects_oneRedirect : ∃ st, gateway.run (.init 100) oneRedirect = some st ∧
    ∀ code, st.appended code = st.redirects code := by
  have hrun : ((gateway.run (.init 100) oneRedirect).map Gateway.main) = some .exited := by decide
  obtain ⟨st, hst, hexit⟩ := Option.map_eq_some_iff.mp hrun
  exact ⟨st, hst, (appended_eq_redirects_iff hst hexit).mpr (by decide)⟩

/-- A redirect is given, and `main` returns before its click task has run. -/
theorem redirect_without_event : (gateway.run (.init 100)
      [.redirect "a", .cached 0 (some "https://example.org"), .shutdown, .exit]).map
      (fun st => (st.main, st.redirects "a", st.appended "a")) = some (.exited, 1, 0) := by
  decide

end Kurl
