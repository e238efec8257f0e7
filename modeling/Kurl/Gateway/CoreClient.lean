import Kurl.Lib.Past
import Kurl.Lib.Count
import Kurl.Wire

/-!
# Kurl — coalesced calls of the core service (`gateway/src/grpc/core_client.rs`)

`get_link` shares one RPC among the callers of a code. The first of them puts a watch channel into
the map `in_flight` and spawns a task, the *flight*; the others find the channel and wait for the
value that the flight sends. A flight takes a permit, calls the core service, gives the permit back,
sends the result and removes its entry. It may die at an await before it sent anything; its callers
then see that the channel is closed, and the first of them removes the entry.

A channel is named by the position of its flight, so `same_channel` compares positions. The
operations on the map and on a channel are single steps, and everything between two of them
interleaves with the steps of the others.

`Step` lists what the steps do, and the results about runs use nothing else.

* **`CoreClientInv`** — relates the map, the flights, the permits and the callers: an entry names a
  flight of its code that has not finished, every running flight is the entry of its code (so there
  is one at most), the permits that are out are those of the flights, and a caller has seen nothing
  but what its flight sent.
* **`Replied`** — relates the flights to the run: a flight that did not die has the replies that its
  RPC gave, which are none yet or the one.

`SingleFlight` states what coalescing promises, of every state that a run leads to.
-/

namespace Kurl

open Lib

/-! ## Requests and replies -/

/-- `tonic::Result<GetLinkResponse>` -/
abbrev GetLinkReply := Except Status GetLinkResponse

/-- What a caller gets whose flight died. -/
def flightStopped : GetLinkReply := .error ⟨.unavailable, "in-flight gRPC task stopped"⟩

/-! ## State -/

/-- Where the task of a flight is. -/
inductive FlightStage where
  /-- Waiting for a permit. -/
  | queued
  /-- The RPC runs. -/
  | calling
  /-- The RPC returned; the permit is still held. -/
  | answered (reply : GetLinkReply)
  | released (reply : GetLinkReply)
  /-- The reply is in the channel; the entry is not removed yet. -/
  | published (reply : GetLinkReply)
  | finished (reply : GetLinkReply)
  /-- The task was dropped before it published. -/
  | died
  deriving DecidableEq

namespace FlightStage

def holdsPermit : FlightStage → Bool
  | calling | answered _ => true
  | _ => false

/-- The value in the channel. -/
def sent : FlightStage → Option GetLinkReply
  | published reply | finished reply => some reply
  | _ => none

/-- What the RPC has returned to the task. -/
def reply : FlightStage → Option GetLinkReply
  | answered reply | released reply | published reply | finished reply => some reply
  | _ => none

/-- Neither published nor died. -/
def active : FlightStage → Bool
  | queued | calling | answered _ | released _ => true
  | _ => false

/-- The task is running. -/
def running : FlightStage → Bool
  | finished _ | died => false
  | _ => true

end FlightStage

/-- A spawned task. `key` is the argument of its RPC. -/
structure Flight where
  key : String
  stage : FlightStage
  deriving DecidableEq

/-- Where a call of `get_link` is: it waits for the channel, saw it closed, has returned or was
cancelled. -/
inductive CallerStage where
  /-- In `wait_for`. -/
  | waiting
  /-- `wait_for` returned an error: the channel is closed. -/
  | stopped
  | returned (reply : GetLinkReply)
  | cancelled
  deriving DecidableEq

/-- A call of `get_link`, with the channel it holds. -/
structure Caller where
  code : String
  flight : Nat
  stage : CallerStage
  deriving DecidableEq

/-- `CoreClient`: the map `in_flight`, the permits that are left, and the flights and calls so far.
-/
structure CoreClient where
  inFlight : Table String Nat
  flights : List Flight
  permits : Nat
  callers : List Caller

/-- `CoreClient::with_max_in_flight` -/
def CoreClient.withMaxInFlight (maxInFlight : Nat) : CoreClient :=
  ⟨Table.empty, [], maxInFlight, []⟩

/-- `DashMap::remove_if` with `same_channel`. -/
def removeIf (inFlight : Table String Nat) (code : String) (channel : Nat) : Table String Nat :=
  if inFlight.get code = some channel then inFlight.erase code else inFlight

/-! ## Steps -/

/-- The steps: calls begin and are cancelled, flights move by themselves or die, callers wake. -/
inductive CoreClientAction where
  /-- A call begins: it joins the flight in the map, or spawns one. -/
  | getLink (code : String)
  /-- `wait_for` returns: a value was sent, or the channel is closed. -/
  | wake (caller : Nat)
  /-- `remove_if` of a caller whose flight stopped. -/
  | giveUp (caller : Nat)
  | cancel (caller : Nat)
  | acquire (flight : Nat)
  | respond (flight : Nat) (reply : GetLinkReply)
  | release (flight : Nat)
  | publish (flight : Nat)
  /-- `remove_if` of a flight that published. -/
  | remove (flight : Nat)
  | die (flight : Nat)

namespace CoreClient

def setFlight (st : CoreClient) (i : Nat) (key : String) (stage : FlightStage) : CoreClient :=
  { st with flights := st.flights.set i ⟨key, stage⟩ }

def setCaller (st : CoreClient) (k : Nat) (caller : Caller) (stage : CallerStage) : CoreClient :=
  { st with callers := st.callers.set k { caller with stage := stage } }

/-- `CoreClient::get_link` up to its await. -/
def getLink (st : CoreClient) (code : String) : CoreClient :=
  match st.inFlight.get code with
  | some i => { st with callers := st.callers ++ [⟨code, i, .waiting⟩] }
  | none =>
    { st with
      inFlight := st.inFlight.set code st.flights.length
      flights := st.flights ++ [⟨code, .queued⟩]
      callers := st.callers ++ [⟨code, st.flights.length, .waiting⟩] }

def step (st : CoreClient) : CoreClientAction → Option CoreClient
  | .getLink code => some (st.getLink code)
  | .wake k =>
    match st.callers[k]? with
    | some ⟨code, i, .waiting⟩ =>
      match st.flights[i]? with
      | some ⟨_, .died⟩ => some (st.setCaller k ⟨code, i, .waiting⟩ .stopped)
      | some ⟨_, stage⟩ => stage.sent.map fun reply =>
          st.setCaller k ⟨code, i, .waiting⟩ (.returned reply)
      | none => none
    | _ => none
  | .giveUp k =>
    match st.callers[k]? with
    | some ⟨code, i, .stopped⟩ => some
      { st.setCaller k ⟨code, i, .stopped⟩ (.returned flightStopped) with
        inFlight := removeIf st.inFlight code i }
    | _ => none
  | .cancel k =>
    match st.callers[k]? with
    | some ⟨code, i, .waiting⟩ => some (st.setCaller k ⟨code, i, .waiting⟩ .cancelled)
    | _ => none
  | .acquire i =>
    match st.flights[i]? with
    | some ⟨key, .queued⟩ =>
      if 0 < st.permits then some { st.setFlight i key .calling with permits := st.permits - 1 }
      else none
    | _ => none
  | .respond i reply =>
    match st.flights[i]? with
    | some ⟨key, .calling⟩ => some (st.setFlight i key (.answered reply))
    | _ => none
  | .release i =>
    match st.flights[i]? with
    | some ⟨key, .answered reply⟩ =>
      some { st.setFlight i key (.released reply) with permits := st.permits + 1 }
    | _ => none
  | .publish i =>
    match st.flights[i]? with
    | some ⟨key, .released reply⟩ => some (st.setFlight i key (.published reply))
    | _ => none
  | .remove i =>
    match st.flights[i]? with
    | some ⟨key, .published reply⟩ => some
      { st.setFlight i key (.finished reply) with inFlight := removeIf st.inFlight key i }
    | _ => none
  | .die i =>
    match st.flights[i]? with
    | some ⟨key, stage⟩ =>
      if stage.active then some
        { st.setFlight i key .died with
          permits := st.permits + if stage.holdsPermit then 1 else 0 }
      else none
    | none => none

end CoreClient

def coreClient : Machine CoreClient CoreClientAction where
  step := CoreClient.step

/-- **What each step does.** -/
inductive CoreClient.Step (st : CoreClient) : CoreClientAction → CoreClient → Prop
  | join {code : String} {i : Nat} (hentry : st.inFlight.get code = some i) :
      Step st (.getLink code) { st with callers := st.callers ++ [⟨code, i, .waiting⟩] }
  | spawn {code : String} (hentry : st.inFlight.get code = none) :
      Step st (.getLink code)
        { st with
          inFlight := st.inFlight.set code st.flights.length
          flights := st.flights ++ [⟨code, .queued⟩]
          callers := st.callers ++ [⟨code, st.flights.length, .waiting⟩] }
  | returns {k i : Nat} {code key : String} {stage : FlightStage} {reply : GetLinkReply}
      (hcaller : st.callers[k]? = some ⟨code, i, .waiting⟩)
      (hflight : st.flights[i]? = some ⟨key, stage⟩) (hsent : stage.sent = some reply) :
      Step st (.wake k) (st.setCaller k ⟨code, i, .waiting⟩ (.returned reply))
  | stops {k i : Nat} {code key : String}
      (hcaller : st.callers[k]? = some ⟨code, i, .waiting⟩)
      (hflight : st.flights[i]? = some ⟨key, .died⟩) :
      Step st (.wake k) (st.setCaller k ⟨code, i, .waiting⟩ .stopped)
  | giveUp {k i : Nat} {code : String} (hcaller : st.callers[k]? = some ⟨code, i, .stopped⟩) :
      Step st (.giveUp k) { st.setCaller k ⟨code, i, .stopped⟩ (.returned flightStopped) with
        inFlight := removeIf st.inFlight code i }
  | cancel {k i : Nat} {code : String} (hcaller : st.callers[k]? = some ⟨code, i, .waiting⟩) :
      Step st (.cancel k) (st.setCaller k ⟨code, i, .waiting⟩ .cancelled)
  | acquire {i : Nat} {key : String} (hflight : st.flights[i]? = some ⟨key, .queued⟩)
      (hpermit : 0 < st.permits) :
      Step st (.acquire i) { st.setFlight i key .calling with permits := st.permits - 1 }
  | respond {i : Nat} {key : String} (hflight : st.flights[i]? = some ⟨key, .calling⟩)
      (reply : GetLinkReply) : Step st (.respond i reply) (st.setFlight i key (.answered reply))
  | release {i : Nat} {key : String} {reply : GetLinkReply}
      (hflight : st.flights[i]? = some ⟨key, .answered reply⟩) :
      Step st (.release i) { st.setFlight i key (.released reply) with permits := st.permits + 1 }
  | publish {i : Nat} {key : String} {reply : GetLinkReply}
      (hflight : st.flights[i]? = some ⟨key, .released reply⟩) :
      Step st (.publish i) (st.setFlight i key (.published reply))
  | remove {i : Nat} {key : String} {reply : GetLinkReply}
      (hflight : st.flights[i]? = some ⟨key, .published reply⟩) :
      Step st (.remove i) { st.setFlight i key (.finished reply) with
        inFlight := removeIf st.inFlight key i }
  | die {i : Nat} {key : String} {stage : FlightStage}
      (hflight : st.flights[i]? = some ⟨key, stage⟩) (hactive : stage.active = true) :
      Step st (.die i) { st.setFlight i key .died with
        permits := st.permits + if stage.holdsPermit then 1 else 0 }

namespace CoreClient

/-- The inversion holds: one case for each action, with the stage that the flight or the caller has
to be in. -/
theorem Step.of_step {st st' : CoreClient} {a : CoreClientAction} (h : coreClient.step st a = some st') :
    st.Step a st' := by
  change st.step a = some st' at h
  cases a with
  | getLink code =>
    obtain rfl := Option.some.inj h
    unfold getLink
    split
    · next i hentry => exact .join hentry
    · next hentry => exact .spawn hentry
  | wake k =>
    -- a sent value wakes the caller, and so does a flight that died
    simp only [step] at h
    split at h
    · next code i hcaller =>
      split at h
      · next key hflight =>
        obtain rfl := Option.some.inj h
        exact .stops hcaller hflight
      · next key stage _ hflight =>
        obtain ⟨reply, hsent, rfl⟩ := Option.map_eq_some_iff.mp h
        exact .returns hcaller hflight hsent
      · cases h
    · cases h
  | giveUp k =>
    simp only [step] at h
    split at h
    · next code i hcaller =>
      obtain rfl := Option.some.inj h
      exact .giveUp hcaller
    · cases h
  | cancel k =>
    simp only [step] at h
    split at h
    · next code i hcaller =>
      obtain rfl := Option.some.inj h
      exact .cancel hcaller
    · cases h
  | acquire i =>
    simp only [step] at h
    split at h
    · next key hflight =>
      split at h
      · next hpermit =>
        obtain rfl := Option.some.inj h
        exact .acquire hflight hpermit
      · cases h
    · cases h
  | respond i reply =>
    simp only [step] at h
    split at h
    · next key hflight =>
      obtain rfl := Option.some.inj h
      exact .respond hflight reply
    · cases h
  | release i =>
    simp only [step] at h
    split at h
    · next key reply hflight =>
      obtain rfl := Option.some.inj h
      exact .release hflight
    · cases h
  | publish i =>
    simp only [step] at h
    split at h
    · next key reply hflight =>
      obtain rfl := Option.some.inj h
      exact .publish hflight
    · cases h
  | remove i =>
    simp only [step] at h
    split at h
    · next key reply hflight =>
      obtain rfl := Option.some.inj h
      exact .remove hflight
    · cases h
  | die i =>
    simp only [step] at h
    split at h
    · next key stage hflight =>
      split at h
      · next hactive =>
        obtain rfl := Option.some.inj h
        exact .die hflight hactive
      · cases h
    · cases h

/-- A flight keeps its position and its code. -/
theorem Step.keeps_key {st st' : CoreClient} {a : CoreClientAction} (h : st.Step a st') {j : Nat}
    {f : Flight} (hf : st.flights[j]? = some f) :
    ∃ stage, st'.flights[j]? = some ⟨f.key, stage⟩ := by
  have hset {i : Nat} {key : String} {stage : FlightStage} (hi : st.flights[i]? = some ⟨key, stage⟩)
      (stage' : FlightStage) :
      ∃ stage'', (st.flights.set i ⟨key, stage'⟩)[j]? = some ⟨f.key, stage''⟩ := by
    rw [getElem?_set_of_getElem? hi]
    split
    · next hij =>
      obtain rfl := Option.some.inj ((hij ▸ hi).symm.trans hf)
      exact ⟨stage', rfl⟩
    · exact ⟨f.stage, hf⟩
  cases h with
  | spawn _ =>
    refine ⟨f.stage, ?_⟩
    show (st.flights ++ [_])[j]? = _
    rw [List.getElem?_append_left (List.getElem?_eq_some_iff.mp hf).1]
    exact hf
  | join _ => exact ⟨f.stage, hf⟩
  | returns _ _ _ => exact ⟨f.stage, hf⟩
  | stops _ _ => exact ⟨f.stage, hf⟩
  | giveUp _ => exact ⟨f.stage, hf⟩
  | cancel _ => exact ⟨f.stage, hf⟩
  | acquire hi _ => exact hset hi _
  | respond hi _ => exact hset hi _
  | release hi => exact hset hi _
  | publish hi => exact hset hi _
  | remove hi => exact hset hi _
  | die hi _ => exact hset hi _

end CoreClient

/-! ## Entries of the map -/

theorem get_removeIf (inFlight : Table String Nat) (code : String) (channel : Nat) (c : String) :
    (removeIf inFlight code channel).get c =
      if c = code ∧ inFlight.get c = some channel then none else inFlight.get c := by
  unfold removeIf
  by_cases hentry : inFlight.get code = some channel
  · rw [if_pos hentry, Table.get_erase]
    by_cases hc : c = code
    · rw [if_pos hc, if_pos ⟨hc, hc ▸ hentry⟩]
    · rw [if_neg hc, if_neg fun hboth => hc hboth.1]
  · rw [if_neg hentry, if_neg]
    rintro ⟨rfl, hsome⟩
    exact hentry hsome

/-! ## The invariant -/

/-- What a caller may have seen of its flight. -/
def CallerStage.Saw (stage : CallerStage) (flight : FlightStage) : Prop :=
  match stage with
  | .waiting | .cancelled => True
  | .stopped => flight = .died
  | .returned reply => flight.sent = some reply ∨ reply = flightStopped ∧ flight = .died

/-- How the map, the flights, the permits and the callers belong together. -/
structure CoreClientInv (maxInFlight : Nat) (st : CoreClient) : Prop where
  /-- An entry is a channel of a flight of its code that has not removed it. -/
  entry : ∀ c i, st.inFlight.get c = some i → ∃ stage, st.flights[i]? = some ⟨c, stage⟩ ∧
    ∀ reply, stage ≠ .finished reply
  /-- A flight stays in the map until it removes its entry or dies. -/
  registered : ∀ i key stage, st.flights[i]? = some ⟨key, stage⟩ → stage.running = true →
    st.inFlight.get key = some i
  permits : st.permits + st.flights.countP (fun f => f.stage.holdsPermit) = maxInFlight
  callers : ∀ caller ∈ st.callers, ∃ stage, st.flights[caller.flight]? = some ⟨caller.code, stage⟩ ∧
    caller.stage.Saw stage

section Steps

variable {maxInFlight : Nat} {st st' : CoreClient}

theorem CoreClientInv.init (maxInFlight : Nat) :
    CoreClientInv maxInFlight (.withMaxInFlight maxInFlight) where
  entry := fun c i hentry => by simp [CoreClient.withMaxInFlight] at hentry
  registered := fun i key stage hflight => by simp [CoreClient.withMaxInFlight] at hflight
  permits := by simp [CoreClient.withMaxInFlight]
  callers := fun caller hmem => by simp [CoreClient.withMaxInFlight] at hmem

/-- A caller of an active flight has seen nothing. -/
theorem CallerStage.Saw.of_active {caller : CallerStage} {flight flight' : FlightStage}
    (h : caller.Saw flight) (hactive : flight.active = true) : caller.Saw flight' := by
  cases caller with
  | waiting => trivial
  | cancelled => trivial
  | stopped =>
    obtain rfl : flight = .died := h
    cases hactive
  | returned reply =>
    rcases h with hsent | ⟨-, rfl⟩
    · cases flight <;> cases hsent <;> cases hactive
    · cases hactive

/-- A step of an active flight that leaves the map alone. -/
theorem CoreClientInv.move (h : CoreClientInv maxInFlight st) {i permits : Nat} {key : String}
    {stage stage' : FlightStage} (hflight : st.flights[i]? = some ⟨key, stage⟩)
    (hactive : stage.active = true) (hfinished : ∀ reply, stage' ≠ .finished reply)
    (hpermits : permits + (if stage'.holdsPermit then 1 else 0) =
      st.permits + if stage.holdsPermit then 1 else 0) :
    CoreClientInv maxInFlight { st.setFlight i key stage' with permits := permits } := by
  have hget := getElem?_set_of_getElem? hflight ⟨key, stage'⟩
  refine ⟨fun c j hentry => ?_, fun j key' stage'' hj hrunning => ?_, ?_, fun caller hmem => ?_⟩
  · obtain ⟨stageⱼ, hj, hne⟩ := h.entry c j hentry
    show ∃ stage, (st.flights.set i ⟨key, stage'⟩)[j]? = some ⟨c, stage⟩ ∧ _
    rw [hget]
    by_cases hij : j = i
    · subst hij
      obtain ⟨rfl, -⟩ := Flight.mk.inj (Option.some.inj (hflight.symm.trans hj))
      exact ⟨stage', if_pos rfl, hfinished⟩
    · exact ⟨stageⱼ, by rw [if_neg hij]; exact hj, hne⟩
  · change (st.flights.set i ⟨key, stage'⟩)[j]? = some ⟨key', stage''⟩ at hj
    rw [hget] at hj
    split at hj
    · next hij =>
      obtain ⟨rfl, -⟩ := Flight.mk.inj (Option.some.inj hj)
      have hrunning' : stage.running = true := by
        cases stage <;> first | rfl | cases hactive
      exact hij ▸ h.registered i _ stage hflight hrunning'
    · exact h.registered j key' stage'' hj hrunning
  · have hcount := countP_set_of_getElem? hflight ⟨key, stage'⟩ (fun f => f.stage.holdsPermit)
    have hold := h.permits
    show permits + (st.flights.set i ⟨key, stage'⟩).countP (fun f => f.stage.holdsPermit) = _
    simp only at hcount
    omega
  · obtain ⟨stageₖ, hk, hsaw⟩ := h.callers caller hmem
    show ∃ stage, (st.flights.set i ⟨key, stage'⟩)[caller.flight]? = _ ∧ _
    rw [hget]
    by_cases hi : caller.flight = i
    · obtain ⟨rfl, rfl⟩ := Flight.mk.inj (Option.some.inj ((hi ▸ hflight).symm.trans hk))
      exact ⟨stage', if_pos hi, hsaw.of_active hactive⟩
    · exact ⟨stageₖ, by rw [if_neg hi]; exact hk, hsaw⟩

/-- A step of a caller that leaves the map alone. -/
theorem CoreClientInv.setCaller (h : CoreClientInv maxInFlight st) {k : Nat} {caller : Caller}
    {flight : FlightStage} (hflight : st.flights[caller.flight]? = some ⟨caller.code, flight⟩)
    {stage : CallerStage} (hsaw : stage.Saw flight) :
    CoreClientInv maxInFlight (st.setCaller k caller stage) where
  entry := h.entry
  registered := h.registered
  permits := h.permits
  callers := by
    intro other hmem
    rcases List.mem_or_eq_of_mem_set hmem with hold | rfl
    · exact h.callers other hold
    · exact ⟨flight, hflight, hsaw⟩

/-- A caller of a flight that died removes its entry, if it is still there. -/
theorem CoreClientInv.dropEntry (h : CoreClientInv maxInFlight st) {i : Nat} {code : String}
    (hflight : st.flights[i]? = some ⟨code, .died⟩) :
    CoreClientInv maxInFlight { st with inFlight := removeIf st.inFlight code i } where
  entry := by
    intro c j hentry
    change (removeIf st.inFlight code i).get c = some j at hentry
    rw [get_removeIf] at hentry
    split at hentry
    · cases hentry
    · exact h.entry c j hentry
  registered := by
    intro j key stage hj hrunning
    show (removeIf st.inFlight code i).get key = some j
    rw [get_removeIf, if_neg]
    · exact h.registered j key stage hj hrunning
    · -- the entry of a running flight is its own
      rintro ⟨rfl, hentry⟩
      have hown := h.registered j _ stage hj hrunning
      obtain rfl := Option.some.inj (hentry.symm.trans hown)
      obtain ⟨-, rfl⟩ := Flight.mk.inj (Option.some.inj (hflight.symm.trans hj))
      cases hrunning
  permits := h.permits
  callers := h.callers

/-- A flight that published removes its entry. -/
theorem CoreClientInv.remove (h : CoreClientInv maxInFlight st) {i : Nat} {key : String}
    {reply : GetLinkReply} (hflight : st.flights[i]? = some ⟨key, .published reply⟩) :
    CoreClientInv maxInFlight { st.setFlight i key (.finished reply) with
      inFlight := removeIf st.inFlight key i } := by
  have hget := getElem?_set_of_getElem? hflight ⟨key, .finished reply⟩
  have hown := h.registered i key _ hflight rfl
  refine ⟨fun c j hentry => ?_, fun j key' stage hj hrunning => ?_, ?_, fun caller hmem => ?_⟩
  · change (removeIf st.inFlight key i).get c = some j at hentry
    rw [get_removeIf] at hentry
    split at hentry
    · cases hentry
    · next hnot =>
      obtain ⟨stage, hj, hne⟩ := h.entry c j hentry
      -- the only entry of the flight was the one just removed
      have hij : j ≠ i := by
        rintro rfl
        obtain ⟨rfl, -⟩ := Flight.mk.inj (Option.some.inj (hflight.symm.trans hj))
        exact hnot ⟨rfl, hentry⟩
      refine ⟨stage, ?_, hne⟩
      show (st.flights.set i ⟨key, .finished reply⟩)[j]? = _
      rw [hget, if_neg hij]
      exact hj
  · -- the entries of the other running flights stay
    change (st.flights.set i ⟨key, .finished reply⟩)[j]? = some ⟨key', stage⟩ at hj
    show (removeIf st.inFlight key i).get key' = some j
    rw [hget] at hj
    split at hj
    · obtain ⟨rfl, rfl⟩ := Flight.mk.inj (Option.some.inj hj)
      cases hrunning
    · next hij =>
      rw [get_removeIf, if_neg]
      · exact h.registered j key' stage hj hrunning
      · rintro ⟨rfl, hentry⟩
        have hother := h.registered j _ stage hj hrunning
        exact hij (Option.some.inj (hother.symm.trans hentry))
  · -- a flight that has published holds no permit, before and after
    have hcount : (st.flights.set i ⟨key, .finished reply⟩).countP (fun f => f.stage.holdsPermit) + 0 =
        st.flights.countP (fun f => f.stage.holdsPermit) + 0 :=
      countP_set_of_getElem? hflight ⟨key, .finished reply⟩ fun f => f.stage.holdsPermit
    have hold := h.permits
    show st.permits + (st.flights.set i ⟨key, .finished reply⟩).countP
      (fun f => f.stage.holdsPermit) = _
    omega
  · -- what a caller has seen is still what was sent
    obtain ⟨stage, hk, hsaw⟩ := h.callers caller hmem
    show ∃ stage, (st.flights.set i ⟨key, .finished reply⟩)[caller.flight]? = _ ∧ _
    rw [hget]
    by_cases hi : caller.flight = i
    · obtain ⟨rfl, rfl⟩ := Flight.mk.inj (Option.some.inj ((hi ▸ hflight).symm.trans hk))
      refine ⟨.finished reply, if_pos hi, ?_⟩
      cases hstage : caller.stage with
      | waiting => trivial
      | cancelled => trivial
      | stopped => rw [hstage] at hsaw; cases hsaw
      | returned seen =>
        rw [hstage] at hsaw
        rcases hsaw with hsent | ⟨-, hdied⟩
        · exact .inl hsent
        · cases hdied
    · exact ⟨stage, by rw [if_neg hi]; exact hk, hsaw⟩

/-- A call joins the flight in the map. -/
theorem CoreClientInv.join (h : CoreClientInv maxInFlight st) {code : String} {i : Nat}
    (hentry : st.inFlight.get code = some i) :
    CoreClientInv maxInFlight { st with callers := st.callers ++ [⟨code, i, .waiting⟩] } where
  entry := h.entry
  registered := h.registered
  permits := h.permits
  callers := by
    intro caller hmem
    rcases List.mem_append.mp hmem with hold | hnew
    · exact h.callers caller hold
    · obtain rfl := List.mem_singleton.mp hnew
      obtain ⟨stage, hflight, -⟩ := h.entry code i hentry
      exact ⟨stage, hflight, trivial⟩

/-- A call spawns a flight. -/
theorem CoreClientInv.spawn (h : CoreClientInv maxInFlight st) {code : String}
    (hentry : st.inFlight.get code = none) :
    CoreClientInv maxInFlight
      { st with
        inFlight := st.inFlight.set code st.flights.length
        flights := st.flights ++ [⟨code, .queued⟩]
        callers := st.callers ++ [⟨code, st.flights.length, .waiting⟩] } := by
  have hold {j : Nat} {f : Flight} (hj : st.flights[j]? = some f) :
      (st.flights ++ [⟨code, .queued⟩])[j]? = some f := by
    rw [List.getElem?_append_left (List.getElem?_eq_some_iff.mp hj).1]
    exact hj
  have hnew : (st.flights ++ [⟨code, .queued⟩])[st.flights.length]? = some ⟨code, .queued⟩ := by
    simp
  refine ⟨fun c i hget => ?_, fun i key stage hi hrunning => ?_, ?_, fun caller hmem => ?_⟩
  · change (st.inFlight.set code st.flights.length).get c = some i at hget
    rw [Table.get_set] at hget
    split at hget
    · next hc =>
      obtain rfl := Option.some.inj hget
      exact ⟨.queued, hc ▸ hnew, fun reply heq => by cases heq⟩
    · obtain ⟨stage, hi, hne⟩ := h.entry c i hget
      exact ⟨stage, hold hi, hne⟩
  · change (st.flights ++ [⟨code, .queued⟩])[i]? = some ⟨key, stage⟩ at hi
    show (st.inFlight.set code st.flights.length).get key = some i
    rw [Table.get_set]
    -- an old flight keeps its entry; the new one has the entry of the code
    by_cases hlt : i < st.flights.length
    · rw [List.getElem?_append_left hlt] at hi
      have hown := h.registered i key stage hi hrunning
      -- the code had no entry
      rw [if_neg]
      · exact hown
      · rintro rfl
        rw [hentry] at hown
        cases hown
    · have heq : i = st.flights.length := by
        have hlen := (List.getElem?_eq_some_iff.mp hi).1
        simp only [List.length_append, List.length_singleton] at hlen
        omega
      subst heq
      obtain ⟨rfl, -⟩ := Flight.mk.inj (Option.some.inj (hnew.symm.trans hi))
      exact if_pos rfl
  · -- a queued flight holds no permit
    have hpermits := h.permits
    show st.permits + (st.flights ++ [Flight.mk code .queued]).countP
      (fun f => f.stage.holdsPermit) = _
    rw [List.countP_append]
    exact hpermits
  · rcases List.mem_append.mp hmem with hmem | hmem
    · obtain ⟨stage, hflight, hsaw⟩ := h.callers caller hmem
      exact ⟨stage, hold hflight, hsaw⟩
    · obtain rfl := List.mem_singleton.mp hmem
      exact ⟨.queued, hnew, trivial⟩

/-- **Step lemma.** One case for each step: a flight moves (`CoreClientInv.move`), a caller moves
(`CoreClientInv.setCaller`), an entry of the map comes or goes. -/
theorem CoreClientInv.step (h : CoreClientInv maxInFlight st) {a : CoreClientAction}
    (hstep : coreClient.step st a = some st') : CoreClientInv maxInFlight st' := by
  have hpublished : ∀ stage : FlightStage, stage.running = true ∨ stage = .died →
      ∀ reply, stage ≠ .finished reply := by
    rintro stage (hrunning | hdied) reply rfl
    · cases hrunning
    · cases hdied
  cases CoreClient.Step.of_step hstep with
  | join hentry => exact h.join hentry
  | spawn hentry => exact h.spawn hentry
  | returns hcaller hflight hsent =>
    obtain ⟨stage, hown, -⟩ := h.callers _ (List.mem_of_getElem? hcaller)
    obtain ⟨rfl, rfl⟩ := Flight.mk.inj (Option.some.inj (hflight.symm.trans hown))
    exact h.setCaller hflight (Or.inl hsent)
  | stops hcaller hflight =>
    obtain ⟨stage, hown, -⟩ := h.callers _ (List.mem_of_getElem? hcaller)
    obtain ⟨rfl, rfl⟩ := Flight.mk.inj (Option.some.inj (hflight.symm.trans hown))
    exact h.setCaller hflight rfl
  | giveUp hcaller =>
    obtain ⟨stage, hown, hsaw⟩ := h.callers _ (List.mem_of_getElem? hcaller)
    obtain rfl : stage = .died := hsaw
    have hreturned : (CallerStage.returned flightStopped).Saw .died := Or.inr ⟨rfl, rfl⟩
    exact (h.setCaller hown hreturned).dropEntry hown
  | cancel hcaller =>
    obtain ⟨stage, hown, -⟩ := h.callers _ (List.mem_of_getElem? hcaller)
    exact h.setCaller hown trivial
  | acquire hflight hpermit =>
    refine h.move hflight rfl (hpublished _ (.inl rfl)) ?_
    show st.permits - 1 + 1 = st.permits + 0
    omega
  | respond hflight reply => exact h.move hflight rfl (hpublished _ (.inl rfl)) rfl
  | release hflight => exact h.move hflight rfl (hpublished _ (.inl rfl)) rfl
  | publish hflight => exact h.move hflight rfl (hpublished _ (.inl rfl)) rfl
  | remove hflight => exact h.remove hflight
  | die hflight hactive => exact h.move hflight hactive (hpublished _ (.inr rfl)) rfl

end Steps

/-! ## Replies -/

/-- The reply of the RPC of a flight that an action is. -/
def CoreClientAction.replyOf (flight : Nat) : CoreClientAction → Option GetLinkReply
  | .respond i reply => if i = flight then some reply else none
  | _ => none

/-- The replies that the RPCs of a flight gave in a run. -/
def repliesOf (flight : Nat) (as : List CoreClientAction) : List GetLinkReply :=
  as.filterMap (CoreClientAction.replyOf flight)

/-- A flight that did not die has the replies of its RPC: none yet, or the one. -/
structure Replied (as : List CoreClientAction) (st : CoreClient) : Prop where
  flights : ∀ i f, st.flights[i]? = some f → f.stage = .died ∨
    repliesOf i as = f.stage.reply.toList
  later : ∀ i, st.flights.length ≤ i → repliesOf i as = []

section Replies

variable {as : List CoreClientAction} {a : CoreClientAction} {st st' : CoreClient}

theorem repliesOf_append (i : Nat) (as : List CoreClientAction) (a : CoreClientAction) :
    repliesOf i (as ++ [a]) = repliesOf i as ++ (a.replyOf i).toList := by
  unfold repliesOf
  rw [List.filterMap_append]
  cases hreply : a.replyOf i with
  | none => rw [List.filterMap_cons_none hreply]; rfl
  | some reply => rw [List.filterMap_cons_some hreply]; rfl

/-- A step of the callers. -/
theorem Replied.of_flights (h : Replied as st) (hflights : st'.flights = st.flights)
    (hsilent : ∀ i, a.replyOf i = none) : Replied (as ++ [a]) st' := by
  refine ⟨fun i f hf => ?_, fun i hi => ?_⟩
  · rw [repliesOf_append, hsilent, Option.toList_none, List.append_nil]
    exact h.flights i f (hflights ▸ hf)
  · rw [repliesOf_append, hsilent, Option.toList_none, List.append_nil]
    exact h.later i (hflights ▸ hi)

/-- A step of a flight that is not over: what it has of the reply comes from the step, and no other
flight gets any. -/
theorem Replied.move (h : Replied as st) {i : Nat} {key : String} {stage stage' : FlightStage}
    (hflight : st.flights[i]? = some ⟨key, stage⟩) (hdied : stage ≠ .died)
    (hflights : st'.flights = st.flights.set i ⟨key, stage'⟩)
    (hother : ∀ j, j ≠ i → a.replyOf j = none)
    (hreply : stage' = .died ∨ stage.reply.toList ++ (a.replyOf i).toList = stage'.reply.toList) :
    Replied (as ++ [a]) st' := by
  refine ⟨fun j f hf => ?_, fun j hj => ?_⟩
  · rw [hflights, getElem?_set_of_getElem? hflight] at hf
    rw [repliesOf_append]
    split at hf
    · next hji =>
      subst hji
      obtain rfl := Option.some.inj hf
      refine hreply.imp id fun heq => ?_
      rw [(h.flights j _ hflight).resolve_left hdied]
      exact heq
    · next hji =>
      rw [hother j hji, Option.toList_none, List.append_nil]
      exact h.flights j f hf
  · obtain ⟨hlt, -⟩ := List.getElem?_eq_some_iff.mp hflight
    rw [hflights, List.length_set] at hj
    rw [repliesOf_append, hother j (by omega), Option.toList_none, List.append_nil]
    exact h.later j hj

/-- **Step lemma.** The only step that a flight gets a reply from is `respond`, and it leaves its
stage with it. -/
theorem Replied.step (h : Replied as st) (hstep : coreClient.step st a = some st') :
    Replied (as ++ [a]) st' := by
  cases CoreClient.Step.of_step hstep with
  | join _ => exact h.of_flights rfl fun _ => rfl
  | returns _ _ _ => exact h.of_flights rfl fun _ => rfl
  | stops _ _ => exact h.of_flights rfl fun _ => rfl
  | giveUp _ => exact h.of_flights rfl fun _ => rfl
  | cancel _ => exact h.of_flights rfl fun _ => rfl
  | @spawn code _ =>
    -- a new flight comes behind all others, and there was no reply for it
    have hsilent (j : Nat) : repliesOf j (as ++ [.getLink code]) = repliesOf j as := by
      rw [repliesOf_append]
      exact List.append_nil _
    refine ⟨fun j f hf => ?_, fun j hj => ?_⟩
    · change (st.flights ++ [⟨code, .queued⟩])[j]? = some f at hf
      rw [hsilent]
      by_cases hlt : j < st.flights.length
      · rw [List.getElem?_append_left hlt] at hf
        exact h.flights j f hf
      · rw [List.getElem?_append_right (by omega)] at hf
        obtain rfl := List.mem_singleton.mp (List.mem_of_getElem? hf)
        exact .inr (h.later j (by omega))
    · change (st.flights ++ [Flight.mk code .queued]).length ≤ j at hj
      rw [List.length_append] at hj
      rw [hsilent]
      exact h.later j (by omega)
  | acquire hflight _ =>
    -- a step of a flight that neither gets a reply nor ends
    exact h.move hflight (fun heq => by cases heq) rfl (fun _ _ => rfl) (.inr rfl)
  | @respond i key hflight reply =>
    -- the one step that a reply comes from
    refine h.move hflight (fun heq => by cases heq) rfl (fun j hj => if_neg hj.symm) (.inr ?_)
    show [] ++ (if i = i then some reply else none : Option GetLinkReply).toList = [reply]
    rw [if_pos rfl]
    rfl
  | release hflight =>
    exact h.move hflight (fun heq => by cases heq) rfl (fun _ _ => rfl) (.inr rfl)
  | publish hflight =>
    exact h.move hflight (fun heq => by cases heq) rfl (fun _ _ => rfl) (.inr rfl)
  | remove hflight =>
    exact h.move hflight (fun heq => by cases heq) rfl (fun _ _ => rfl) (.inr rfl)
  | die hflight hactive =>
    -- nothing is claimed of a flight that died
    refine h.move hflight ?_ rfl (fun _ _ => rfl) (.inl rfl)
    rintro rfl
    cases hactive

theorem FlightStage.reply_of_sent {stage : FlightStage} {reply : GetLinkReply}
    (h : stage.sent = some reply) : stage.reply = some reply ∧ stage ≠ .died := by
  cases stage with
  | published _ => exact ⟨h, fun heq => by cases heq⟩
  | finished _ => exact ⟨h, fun heq => by cases heq⟩
  | _ => cases h

/-- What a flight has sent is the reply that its RPC gave. -/
theorem Replied.of_sent (h : Replied as st) {i : Nat} {key : String} {stage : FlightStage}
    {reply : GetLinkReply} (hflight : st.flights[i]? = some ⟨key, stage⟩)
    (hsent : stage.sent = some reply) : repliesOf i as = [reply] := by
  obtain ⟨hreply, hdied⟩ := FlightStage.reply_of_sent hsent
  rw [(h.flights i _ hflight).resolve_left hdied, hreply]
  rfl

end Replies

/-! ## Single flight -/

/-- What coalescing promises of a state that a run of the actions has led to. -/
structure SingleFlight (maxInFlight : Nat) (as : List CoreClientAction) (st : CoreClient) :
    Prop where
  /-- Two flights of a code are not active at once. -/
  activeUnique : ∀ (i j : Nat) (f g : Flight), st.flights[i]? = some f → st.flights[j]? = some g →
    f.key = g.key → f.stage.active = true → g.stage.active = true → i = j
  permitted : st.flights.countP (fun f => f.stage.holdsPermit) ≤ maxInFlight ∧
    st.flights.countP (fun f => f.stage = .calling) ≤ maxInFlight
  /-- A caller returns what its flight published, which is the one reply that the RPC of the flight
  gave, and that RPC was for its code; or `Unavailable` if the flight died. -/
  returned : ∀ caller ∈ st.callers, ∀ reply, caller.stage = .returned reply →
    ∃ stage, st.flights[caller.flight]? = some ⟨caller.code, stage⟩ ∧
      (stage.sent = some reply ∧ repliesOf caller.flight as = [reply] ∨
        reply = flightStopped ∧ stage = .died)
  /-- The next step takes an entry away only on behalf of the flight it belongs to. -/
  removed : ∀ a st', coreClient.step st a = some st' → ∀ c i, st.inFlight.get c = some i →
    st'.inFlight.get c ≠ some i → a = .remove i ∨
      ∃ k caller, a = .giveUp k ∧ st.callers[k]? = some caller ∧ caller.flight = i
  /-- Flights that are over leave no entry behind, except by dying. -/
  leftovers : (∀ f ∈ st.flights, f.stage.running = false) → ∀ c i, st.inFlight.get c = some i →
    st.flights[i]? = some ⟨c, .died⟩

/-- Which step takes an entry away. -/
theorem CoreClient.removed_cases {st st' : CoreClient} {a : CoreClientAction}
    (hstep : coreClient.step st a = some st') {c : String} {i : Nat}
    (hentry : st.inFlight.get c = some i) (hgone : st'.inFlight.get c ≠ some i) :
    a = .remove i ∨ ∃ k caller, a = .giveUp k ∧ st.callers[k]? = some caller ∧ caller.flight = i := by
  -- `remove_if` takes away the entry it names
  have hchannel : ∀ {code j}, (removeIf st.inFlight code j).get c ≠ some i → i = j := by
    intro code j hne
    rw [get_removeIf] at hne
    split at hne
    · next hboth => exact Option.some.inj (hentry.symm.trans hboth.2)
    · exact absurd hentry hne
  cases CoreClient.Step.of_step hstep with
  | spawn hnone =>
    refine absurd ?_ hgone
    show (st.inFlight.set _ _).get c = some i
    rw [Table.get_set, if_neg]
    · exact hentry
    · rintro rfl
      rw [hnone] at hentry
      cases hentry
  | giveUp hcaller =>
    obtain rfl := hchannel hgone
    exact .inr ⟨_, _, rfl, hcaller, rfl⟩
  | remove hflight =>
    obtain rfl := hchannel hgone
    exact .inl rfl
  | join _ => exact absurd hentry hgone
  | returns _ _ _ => exact absurd hentry hgone
  | stops _ _ => exact absurd hentry hgone
  | cancel _ => exact absurd hentry hgone
  | acquire _ _ => exact absurd hentry hgone
  | respond _ _ => exact absurd hentry hgone
  | release _ => exact absurd hentry hgone
  | publish _ => exact absurd hentry hgone
  | die _ _ => exact absurd hentry hgone

theorem FlightStage.running_of_active {stage : FlightStage} (h : stage.active = true) :
    stage.running = true := by
  cases stage <;> first | rfl | cases h

/-- **Coalescing is safe** in every state of every run of callers, flights and deaths. -/
theorem singleFlight_of_run {maxInFlight : Nat} {as : List CoreClientAction} {st : CoreClient}
    (hrun : coreClient.run (.withMaxInFlight maxInFlight) as = some st) :
    SingleFlight maxInFlight as st := by
  have h : CoreClientInv maxInFlight st :=
    coreClient.run_invariant (fun _ _ _ hinv hstep => hinv.step hstep) hrun
      (CoreClientInv.init maxInFlight)
  have hreplied : Replied as st :=
    Machine.run_invariant_of_past (I := Replied)
      ⟨fun _ _ hf => (by cases hf), fun _ _ => rfl⟩
      (fun _ _ _ _ _ hstep hbefore => hbefore.step hstep) hrun
  refine ⟨fun i j f g hf hg hkey hactive hactive' => ?_, ?_, fun caller hmem reply hreturned => ?_,
    fun a st' hstep c i => CoreClient.removed_cases hstep, fun hover c i hentry => ?_⟩
  · -- both are the flight of the one entry
    have hi := h.registered i f.key f.stage hf (FlightStage.running_of_active hactive)
    have hj := h.registered j g.key g.stage hg (FlightStage.running_of_active hactive')
    rw [hkey] at hi
    exact Option.some.inj (hi.symm.trans hj)
  · -- a flight that calls holds a permit
    have hpermits := h.permits
    have hcalls : st.flights.countP (fun f => f.stage = .calling) ≤
        st.flights.countP (fun f => f.stage.holdsPermit) := by
      refine List.countP_mono_left fun f _ hcalling => ?_
      rw [decide_eq_true_eq] at hcalling
      rw [hcalling]
      rfl
    omega
  · -- a caller returned what its flight has sent, which is the reply of the RPC
    obtain ⟨stage, hflight, hsaw⟩ := h.callers caller hmem
    rw [hreturned] at hsaw
    exact ⟨stage, hflight, hsaw.imp (fun hsent => ⟨hsent, hreplied.of_sent hflight hsent⟩) id⟩
  · -- an entry that is left belongs to a flight that died
    obtain ⟨stage, hflight, hfinished⟩ := h.entry c i hentry
    have hstopped := hover _ (List.mem_of_getElem? hflight)
    cases stage with
    | died => exact hflight
    | finished reply => exact absurd rfl (hfinished reply)
    | _ => cases hstopped

/-- A flight that dies, a caller that sees it, and a second flight with two callers. -/
def diesOnce : List CoreClientAction :=
  [.getLink "a", .acquire 0, .getLink "a", .die 0, .wake 0, .wake 1, .giveUp 1, .getLink "a",
    .giveUp 0, .getLink "a", .acquire 1, .respond 1 (.ok ⟨"https://example.org"⟩), .release 1,
    .publish 1, .wake 2, .remove 1, .wake 3]

theorem singleFlight_diesOnce : ∃ st, coreClient.run (.withMaxInFlight 1) diesOnce = some st ∧
    SingleFlight 1 diesOnce st := by
  have hsome : (coreClient.run (.withMaxInFlight 1) diesOnce).isSome = true := by decide
  obtain ⟨st, hst⟩ := Option.isSome_iff_exists.mp hsome
  exact ⟨st, hst, singleFlight_of_run hst⟩

/-- Each caller gets the answer of its flight. -/
example : (coreClient.run (.withMaxInFlight 1) diesOnce).map
    (fun st => st.callers.map Caller.stage) =
      some [.returned flightStopped, .returned flightStopped,
        .returned (.ok ⟨"https://example.org"⟩), .returned (.ok ⟨"https://example.org"⟩)] := by
  decide

end Kurl
