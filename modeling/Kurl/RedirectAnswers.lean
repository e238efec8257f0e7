import Kurl.Core.CacheCoherence
import Kurl.LinkFlow
import Kurl.Lib.Past

/-!
# Kurl — what a redirect answers

A redirect is answered from the cache or from the table, after requests, ops and flights that may
have been under way for long. `Truthful` follows a row from the statement that wrote or read it to
the answer: everything on the way says what a row of its code was. Which rows count is a parameter
`known`, and what is older than a given moment is left out (`Since`), so one step lemma serves both
results:

* with every row the code ever had, an answer was true of the table at some point of the run
  (`redirect_was_true`);
* with the row the code has now, and what is older left out, the answers are those of this row once
  nothing of an older row is under way and the entries of before are past their deadline
  (`redirects_current`).

The step lemma is put together from those of the parts. `CoreState.Truthful.step` is about the
table, the requests, the queue and the cache; `Frontend.Truthful.step` about a gateway and the
flights of its client; and `LinkSystem.Truthful.step` about what passes between them. In each,
`known` may only grow, and a part that a step does not touch is carried over (`mono`).

An answer is right if it is the target of a row of the code. Whether that row had expired by then is
not asked: a redirect from the cache may be the target of a link whose expiration has passed, as an
entry can outlive its link (`entry_outlives_link`).
-/

namespace Kurl

open Lib

/-! ## Answers -/

/-- The redirect handler may answer this about the row: its target, `NotFound` where there is none,
`Gone` where its expiration is past, or that something went wrong. The target may be that of a row
whose expiration is past too: the core service compares before it answers, and an entry of the cache
lives for a TTL that was computed before the worker set it. -/
def AnswerOf (row : Except DbError Postgres.Link) (now : Int) : Except StatusCode Redirect → Prop
  | .ok redirect => ∃ link, row = .ok link ∧ redirect.location = link.target
  | .error status => status = .notFound ∧ row = .error .notFound ∨
      status = .gone ∧ (∃ link expiration, row = .ok link ∧ link.expiration = some expiration ∧
        expiration.nanos ≤ now) ∨
      status = .internalServerError

/-- The rows that count for a code. -/
abbrev Rows := String → Except DbError Postgres.Link → Prop

/-- The answer is one about a row that counts. -/
def Answers (known : Rows) (now : Int) (code : String) (result : Except StatusCode Redirect) :
    Prop :=
  result = .error .internalServerError ∨ ∃ row, known code row ∧ AnswerOf row now result

/-- The reply to a flight is one about a row that counts, or says nothing about a row. -/
def Told (known : Rows) (now : Int) (key : String) (reply : GetLinkReply) : Prop :=
  (∃ t ≤ now, ∃ row, known key row ∧ reply = getLinkReply t row) ∨
    ∃ status, status.transport = true ∧ reply = .error status

section Answers

variable {known known' : Rows} {now now' : Int} {code : String}

theorem AnswerOf.mono {row : Except DbError Postgres.Link} {result : Except StatusCode Redirect}
    (h : AnswerOf row now result) (hnow : now ≤ now') : AnswerOf row now' result := by
  cases result with
  | ok redirect => exact h
  | error status =>
    rcases h with h | ⟨hstatus, link, expiration, hrow, hexpiration, hle⟩ | h
    · exact .inl h
    · exact .inr (.inl ⟨hstatus, link, expiration, hrow, hexpiration, hle.trans hnow⟩)
    · exact .inr (.inr h)

theorem Answers.mono {result : Except StatusCode Redirect} (h : Answers known now code result)
    (hknown : ∀ c row, known c row → known' c row) (hnow : now ≤ now') :
    Answers known' now' code result := by
  rcases h with h | ⟨row, hrow, hanswer⟩
  · exact .inl h
  · exact .inr ⟨row, hknown code row hrow, hanswer.mono hnow⟩

theorem Told.mono {reply : GetLinkReply} (h : Told known now code reply)
    (hknown : ∀ c row, known c row → known' c row) (hnow : now ≤ now') :
    Told known' now' code reply := by
  rcases h with ⟨t, ht, row, hrow, hreply⟩ | h
  · exact .inl ⟨t, ht.trans hnow, row, hknown code row hrow, hreply⟩
  · exact .inr h

/-- The handler passes on what the core service says about a row. -/
theorem answerOf_getLinkReply {t : Int} {row : Except DbError Postgres.Link} (ht : t ≤ now) :
    AnswerOf row now (redirectReply (getLinkReply t row)) := by
  cases row with
  | error e =>
    cases e with
    | notFound => exact .inl ⟨rfl, rfl⟩
    | _ => exact .inr (.inr rfl)
  | ok link =>
    simp only [getLinkReply]
    split
    · next hexpired =>
      obtain ⟨expiration, hexpiration, hle⟩ := (Option.any_eq_true _ _).mp hexpired
      exact .inr (.inl ⟨rfl, link, expiration, rfl, hexpiration,
        (of_decide_eq_true hle).trans ht⟩)
    · exact ⟨link, rfl, rfl⟩

/-- A status that says nothing about a row is an internal error to the client. -/
theorem redirectReply_of_transport {status : Status} (h : status.transport = true) :
    redirectReply (.error status) = .error .internalServerError := by
  obtain ⟨code, message⟩ := status
  cases code <;> first | rfl | cases h

theorem Answers.of_told {reply : GetLinkReply} (h : Told known now code reply) :
    Answers known now code (redirectReply reply) := by
  rcases h with ⟨t, ht, row, hrow, rfl⟩ | ⟨status, hstatus, rfl⟩
  · exact .inr ⟨row, hrow, answerOf_getLinkReply ht⟩
  · exact .inl (redirectReply_of_transport hstatus)

end Answers

/-! ## The core service -/

/-- What a request will send is about a row that counts. -/
def Pending.Truthful (known : Rows) : Pending → Prop
  | .created code target expiration =>
    known code (.ok ⟨target, expiration.map DateTime.toTimestamptz⟩)
  | .read code link => known code (.ok link)
  | .deleted _ => True

def CacheOp.Truthful (known : Rows) : CacheOp → Prop
  | .set key value _ _ => ∃ expiration, known key (.ok ⟨value, expiration⟩)
  | .del _ => True

/-- What the core service does not know better: entries past this deadline are left out. -/
structure CoreState.Truthful (known : Rows) (deadline : Option Int) (st : CoreState) : Prop where
  table : ∀ code, known code (st.pg.getLink code)
  requests : ∀ request ∈ st.requests, request.Truthful known
  queue : ∀ op ∈ st.queue, op.Truthful known
  cache : ∀ code entry, st.cache.get code = some entry → (∃ d ∈ deadline, entry.deadline ≤ d) ∨
    ∃ expiration, known code (.ok ⟨entry.value, expiration⟩)

section Core

variable {known known' : Rows} {deadline : Option Int} {cacheTtl : Nat} {st st' : CoreState}
  {a : CoreAction}

theorem Pending.Truthful.mono {request : Pending} (h : request.Truthful known)
    (hknown : ∀ c row, known c row → known' c row) : request.Truthful known' := by
  cases request with
  | created code target expiration => exact hknown _ _ h
  | read code link => exact hknown _ _ h
  | deleted code => trivial

theorem CacheOp.Truthful.mono {op : CacheOp} (h : op.Truthful known)
    (hknown : ∀ c row, known c row → known' c row) : op.Truthful known' := by
  cases op with
  | set key value ttl origin =>
    obtain ⟨expiration, hrow⟩ := h
    exact ⟨expiration, hknown _ _ hrow⟩
  | del key => trivial

/-- More rows count, the present ones among them. -/
theorem CoreState.Truthful.mono (h : st.Truthful known deadline)
    (hknown : ∀ c row, known c row → known' c row) : st.Truthful known' deadline where
  table := fun code => hknown _ _ (h.table code)
  requests := fun request hmem => (h.requests request hmem).mono hknown
  queue := fun op hmem => (h.queue op hmem).mono hknown
  cache := fun code entry hget => (h.cache code entry hget).imp_right fun ⟨expiration, hrow⟩ =>
    ⟨expiration, hknown _ _ hrow⟩

/-- What is sent is as truthful as the request. -/
theorem Pending.Truthful.ops {request : Pending} (h : request.Truthful known) {op : CacheOp}
    (hop : op ∈ request.ops cacheTtl st) : op.Truthful known := by
  rcases mem_ops hop with ⟨code, -, rfl⟩ | ⟨code, target, ttl, origin, rfl, hrequest⟩
  · trivial
  · rcases hrequest with ⟨expiration, rfl⟩ | ⟨expiration, rfl⟩
    · exact ⟨_, h⟩
    · exact ⟨_, h⟩

theorem CoreState.Truthful.work (h : st.Truthful known deadline) {op : CacheOp}
    {queue : List CacheOp} (hqueue : st.queue = op :: queue) : CoreState.Truthful known deadline
      { st with cache := processOp st.now st.cache op, queue := queue } where
  table := h.table
  requests := h.requests
  queue := fun op' hmem => h.queue op' (by rw [hqueue]; exact List.mem_cons_of_mem op hmem)
  cache := by
    intro code entry hget
    have hop : op.Truthful known := h.queue op (by rw [hqueue]; exact List.mem_cons_self)
    change (processOp st.now st.cache op).get code = some entry at hget
    cases op with
    | set key value ttl origin =>
      -- an entry is written only from the op, which is truthful; the other entries stay
      simp only [processOp] at hget
      split at hget
      · rw [Table.get_set] at hget
        split at hget
        · next hcode =>
          obtain rfl := Option.some.inj hget
          exact .inr (hcode ▸ hop)
        · exact h.cache code entry hget
      · exact h.cache code entry hget
    | del key =>
      change (st.cache.erase key).get code = some entry at hget
      rw [Table.get_erase] at hget
      split at hget
      · cases hget
      · exact h.cache code entry hget

/-- **Step lemma**, where the rows after the step count: a statement that writes or reads a row
passes it on to a request, a request to the queue, and the worker from there to the cache. -/
theorem CoreState.Truthful.step (h : st.Truthful known deadline) (hstep : st.Step cacheTtl a st')
    (htable : ∀ code, known code (st'.pg.getLink code)) : st'.Truthful known deadline := by
  have hmore {request : Pending} (hrequest : request.Truthful known) :
      ∀ other ∈ st.requests ++ [request], other.Truthful known := by
    intro other hmem
    rcases List.mem_append.mp hmem with hold | hnew
    · exact h.requests other hold
    · exact List.mem_singleton.mp hnew ▸ hrequest
  cases hstep with
  | refuse a => exact h
  | @create code target expiration pg hcreate =>
    -- the request remembers the row that it has just written
    refine ⟨htable, hmore ?_, h.queue, h.cache⟩
    have hrow := htable code
    rw [show pg.getLink code = .ok ⟨target, expiration.map DateTime.toTimestamptz⟩ from ?_] at hrow
    · exact hrow
    · have hwrite : (LinkWrite.createLink target expiration).commit st.pg code = .ok pg := hcreate
      rw [getLink_commit hwrite, if_pos rfl]
      rfl
  | @read code link hlink =>
    -- and here the row that it has just read
    refine ⟨htable, hmore ?_, h.queue, h.cache⟩
    have hrow := h.table code
    rw [hlink] at hrow
    exact hrow
  | delete hdelete => exact ⟨htable, hmore trivial, h.queue, h.cache⟩
  | send hrequest =>
    -- the op says what its request says
    refine ⟨htable, fun other hmem => h.requests other (List.mem_of_mem_eraseIdx hmem), ?_,
      h.cache⟩
    intro op hop
    rcases List.mem_append.mp hop with hold | hnew
    · exact h.queue op hold
    · exact (h.requests _ (List.mem_of_getElem? hrequest)).ops hnew
  | work hqueue => exact h.work hqueue
  | tick nanos => exact ⟨htable, h.requests, h.queue, h.cache⟩

theorem CoreState.Truthful.lose (h : st.Truthful known deadline) (hlose : st.Loses st') :
    st'.Truthful known deadline where
  table := by
    rw [hlose.pg]
    exact h.table
  requests := fun request hmem => h.requests request (hlose.requests request hmem)
  queue := fun op hmem => h.queue op (hlose.queue op hmem)
  cache := fun code entry hget => h.cache code entry (hlose.cache code entry hget)

/-- The clock does not go back. -/
theorem CoreState.Step.now_le (hstep : st.Step cacheTtl a st') : st.now ≤ st'.now := by
  cases hstep with
  | tick nanos =>
    show st.now ≤ st.now + nanos
    omega
  | _ => exact le_refl _

end Core

/-! ## Flights and callers -/

namespace CoreClient

variable {st st' : CoreClient} {a : CoreClientAction}

/-- Where a flight comes from: it is the one of before, which may just have got its reply, or it
was just spawned. -/
theorem Step.flight (h : st.Step a st') {i : Nat} {f : Flight} (hf : st'.flights[i]? = some f) :
    (∃ old, st.flights[i]? = some old ∧ old.key = f.key ∧
      (f.stage.running = true → old.stage.running = true) ∧
      ∀ reply, f.stage.reply = some reply → old.stage.reply = some reply ∨ a = .respond i reply) ∨
    (st.flights.length ≤ i ∧ f.stage = .queued) := by
  have hsame (hf : st.flights[i]? = some f) : ∃ old, st.flights[i]? = some old ∧ old.key = f.key ∧
      (f.stage.running = true → old.stage.running = true) ∧
      ∀ reply, f.stage.reply = some reply → old.stage.reply = some reply ∨ a = .respond i reply :=
    ⟨f, hf, rfl, fun hrunning => hrunning, fun _ hreply => .inl hreply⟩
  -- the flight that moves was running, and only `respond` gives it a reply
  have hset {j : Nat} {key : String} {stage stage' : FlightStage}
      (hj : st.flights[j]? = some ⟨key, stage⟩)
      (hf : (st.flights.set j ⟨key, stage'⟩)[i]? = some f) (hrunning : stage.running = true)
      (hreply : ∀ reply, stage'.reply = some reply → stage.reply = some reply ∨
        a = .respond j reply) :
      ∃ old, st.flights[i]? = some old ∧ old.key = f.key ∧
        (f.stage.running = true → old.stage.running = true) ∧
        ∀ reply, f.stage.reply = some reply → old.stage.reply = some reply ∨
          a = .respond i reply := by
    rcases getElem?_set_cases hf with ⟨rfl, rfl⟩ | ⟨-, hold⟩
    · exact ⟨_, hj, rfl, fun _ => hrunning, hreply⟩
    · exact hsame hold
  cases h with
  | spawn _ =>
    -- a flight behind the old ones is the new one
    change (st.flights ++ [_])[i]? = some f at hf
    by_cases hlt : i < st.flights.length
    · rw [List.getElem?_append_left hlt] at hf
      exact .inl (hsame hf)
    · rcases getElem?_append_cases hf with hold | rfl
      · exact absurd (List.getElem?_eq_some_iff.mp hold).1 hlt
      · exact .inr ⟨not_lt.mp hlt, rfl⟩
  | join _ => exact .inl (hsame hf)
  | returns _ _ _ => exact .inl (hsame hf)
  | stops _ _ => exact .inl (hsame hf)
  | giveUp _ => exact .inl (hsame hf)
  | cancel _ => exact .inl (hsame hf)
  | acquire hj _ => exact .inl (hset hj hf rfl fun _ hreply => by cases hreply)
  | respond hj reply =>
    exact .inl (hset hj hf rfl fun _ hreply => .inr (Option.some.inj hreply ▸ rfl))
  | release hj => exact .inl (hset hj hf rfl fun _ hreply => .inl hreply)
  | publish hj => exact .inl (hset hj hf rfl fun _ hreply => .inl hreply)
  | remove hj => exact .inl (hset hj hf rfl fun _ hreply => .inl hreply)
  | die hj hactive =>
    exact .inl (hset hj hf (FlightStage.running_of_active hactive) fun _ hreply => by cases hreply)

/-- A flight that is over stays as it is. -/
theorem Step.ended (h : st.Step a st') {i : Nat} {f : Flight} (hf : st.flights[i]? = some f)
    (hover : f.stage.running = false) : st'.flights[i]? = some f := by
  have hset {j : Nat} {key : String} {stage stage' : FlightStage}
      (hj : st.flights[j]? = some ⟨key, stage⟩) (hrunning : stage.running = true) :
      (st.flights.set j ⟨key, stage'⟩)[i]? = some f := by
    rw [getElem?_set_of_getElem? hj, if_neg]
    · exact hf
    · rintro rfl
      obtain rfl := Option.some.inj (hf.symm.trans hj)
      rw [hrunning] at hover
      cases hover
  cases h with
  | spawn _ =>
    show (st.flights ++ [_])[i]? = some f
    rw [List.getElem?_append_left (List.getElem?_eq_some_iff.mp hf).1]
    exact hf
  | acquire hj _ => exact hset hj rfl
  | respond hj _ => exact hset hj rfl
  | release hj => exact hset hj rfl
  | publish hj => exact hset hj rfl
  | remove hj => exact hset hj rfl
  | die hj hactive => exact hset hj (FlightStage.running_of_active hactive)
  | _ => exact hf

end CoreClient

/-! ## A gateway -/

/-- What the requests of a gateway are told. `ended` are flights that are left out, and over;
`old` are requests that are left out. -/
structure Frontend.Truthful (known : Rows) (ended old : Nat → Prop) (now : Int) (fe : Frontend) :
    Prop where
  client : ∃ maxInFlight, CoreClientInv maxInFlight fe.gateway.client
  /-- Only flights read. -/
  read : ∀ i row, fe.read i = some row → i < fe.gateway.client.flights.length
  rows : ∀ i f row, fe.gateway.client.flights[i]? = some f → f.stage.running = true →
    fe.read i = some row → known f.key row
  replies : ∀ i f reply, fe.gateway.client.flights[i]? = some f → f.stage.reply = some reply →
    ended i ∨ Told known now f.key reply
  stopped : ∀ i, ended i → ∃ f, fe.gateway.client.flights[i]? = some f ∧ f.stage.running = false
  /-- A request has joined no flight that is left out, unless it had died. -/
  fetching : ∀ r code k, fe.gateway.requests[r]? = some ⟨code, .fetching k⟩ → old r ∨
    ∃ caller, fe.gateway.client.callers[k]? = some caller ∧ caller.code = code ∧
      (ended caller.flight → ∃ key, fe.gateway.client.flights[caller.flight]? = some ⟨key, .died⟩)
  responded : ∀ r code result, fe.gateway.requests[r]? = some ⟨code, .responded result⟩ → old r ∨
    Answers known now code result

section Gateways

variable {known known' : Rows} {ended old : Nat → Prop} {now now' : Int} {fe : Frontend}

theorem Frontend.Truthful.mono (h : fe.Truthful known ended old now)
    (hknown : ∀ c row, known c row → known' c row) (hnow : now ≤ now') :
    fe.Truthful known' ended old now' where
  client := h.client
  read := h.read
  rows := fun i f row hf hrunning hread => hknown _ _ (h.rows i f row hf hrunning hread)
  replies := fun i f reply hf hreply => (h.replies i f reply hf hreply).imp_right
    fun htold => htold.mono hknown hnow
  stopped := h.stopped
  fetching := h.fetching
  responded := fun r code result hr => (h.responded r code result hr).imp_right
    fun hanswers => hanswers.mono hknown hnow

/-- A gateway that starts. -/
theorem Frontend.Truthful.start (maxInFlight : Nat) (hover : ∀ i, ¬ ended i) :
    Frontend.Truthful known ended old now ⟨.init maxInFlight, fun _ => none⟩ where
  client := ⟨maxInFlight, CoreClientInv.init maxInFlight⟩
  read := fun i row hread => by cases hread
  rows := fun i f row hf => by cases hf
  replies := fun i f reply hf => by cases hf
  stopped := fun i hi => absurd hi (hover i)
  fetching := fun r code k hr => by cases hr
  responded := fun r code result hr => by cases hr

/-- A step of the client. -/
theorem Frontend.Truthful.setClient (h : fe.Truthful known ended old now) {a : CoreClientAction}
    {client : CoreClient} (hstep : coreClient.step fe.gateway.client a = some client)
    (hrespond : ∀ i reply f, a = .respond i reply → fe.gateway.client.flights[i]? = some f →
      Told known now f.key reply) :
    Frontend.Truthful known ended old now
      { fe with gateway := { fe.gateway with client := client } } := by
  have hmoves := CoreClient.Step.of_step hstep
  obtain ⟨maxInFlight, hinv⟩ := h.client
  refine ⟨⟨maxInFlight, hinv.step hstep⟩, fun i row hread => ?_,
    fun i f row hf hrunning hread => ?_,
    fun i f reply hf hreply => ?_, fun i hi => ?_, fun r code k hr => ?_, h.responded⟩
  · -- flights are only added, so what read is still one
    have hlt := h.read i row hread
    obtain ⟨stage, hf⟩ := hmoves.keeps_key (List.getElem?_eq_getElem hlt)
    exact (List.getElem?_eq_some_iff.mp hf).1
  · -- a running flight was running before, and read the row then; a new one has read nothing
    rcases hmoves.flight hf with ⟨f', hf', hkey, hrunning', -⟩ | ⟨hge, -⟩
    · exact hkey ▸ h.rows i f' row hf' (hrunning' hrunning) hread
    · exact absurd (h.read i row hread) (not_lt.mpr hge)
  · -- its reply is the old one, or the one that the step gives
    rcases hmoves.flight hf with ⟨f', hf', hkey, -, hreplies⟩ | ⟨-, hqueued⟩
    · rcases hreplies reply hreply with hold | hnew
      · exact hkey ▸ h.replies i f' reply hf' hold
      · exact .inr (hkey ▸ hrespond i reply f' hnew hf')
    · rw [hqueued] at hreply
      cases hreply
  · obtain ⟨f, hf, hstopped⟩ := h.stopped i hi
    exact ⟨f, hmoves.ended hf hstopped, hstopped⟩
  · -- a caller keeps its flight, and a flight that died stays as it is
    rcases h.fetching r code k hr with hold | ⟨caller, hcaller, hcode, hdied⟩
    · exact .inl hold
    · obtain ⟨stage, hcaller', -⟩ := hmoves.caller hcaller
      refine .inr ⟨_, hcaller', hcode, fun hover => ?_⟩
      obtain ⟨key, hf⟩ := hdied hover
      exact ⟨key, hmoves.ended hf rfl⟩

/-- A request takes another stage. -/
theorem Frontend.Truthful.setRequest (h : fe.Truthful known ended old now) {r : Nat} {code : String}
    {stage : RequestStage} {clicks : List String}
    (hfetching : ∀ k, stage = .fetching k → ∃ caller,
      fe.gateway.client.callers[k]? = some caller ∧ caller.code = code ∧
        (ended caller.flight →
          ∃ key, fe.gateway.client.flights[caller.flight]? = some ⟨key, .died⟩))
    (hresponded : ∀ result, stage = .responded result → old r ∨ Answers known now code result) :
    Frontend.Truthful known ended old now { fe with gateway := { fe.gateway with
      requests := fe.gateway.requests.set r ⟨code, stage⟩
      clicks := clicks } } where
  client := h.client
  read := h.read
  rows := h.rows
  replies := h.replies
  stopped := h.stopped
  fetching := by
    intro r' code' k hr
    rcases getElem?_set_cases hr with ⟨-, hnew⟩ | ⟨-, hold⟩
    · obtain ⟨rfl, hstage⟩ := RedirectRequest.mk.inj hnew
      exact .inr (hfetching k hstage.symm)
    · exact h.fetching r' code' k hold
  responded := by
    intro r' code' result hr
    rcases getElem?_set_cases hr with ⟨rfl, hnew⟩ | ⟨-, hold⟩
    · obtain ⟨rfl, hstage⟩ := RedirectRequest.mk.inj hnew
      exact hresponded result hstage.symm
    · exact h.responded r' code' result hold

/-- What a caller returns is about a row that counts. -/
theorem Frontend.Truthful.returned (h : fe.Truthful known ended old now) {k : Nat} {caller : Caller}
    (hcaller : fe.gateway.client.callers[k]? = some caller)
    (hdied : ended caller.flight →
      ∃ key, fe.gateway.client.flights[caller.flight]? = some ⟨key, .died⟩)
    {reply : GetLinkReply} (hreturned : caller.stage = .returned reply) :
    Told known now caller.code reply := by
  obtain ⟨maxInFlight, hinv⟩ := h.client
  obtain ⟨stage, hflight, hsaw⟩ := hinv.callers caller (List.mem_of_getElem? hcaller)
  rw [hreturned] at hsaw
  rcases hsaw with hsent | ⟨rfl, -⟩
  · -- the flight has sent it; a flight that is left out died, and has sent nothing
    have hreply : stage.reply = some reply := by
      cases stage <;> first | exact hsent | cases hsent
    rcases h.replies _ _ reply hflight hreply with hover | hreplies
    · obtain ⟨key, hdead⟩ := hdied hover
      obtain ⟨-, rfl⟩ := Flight.mk.inj (Option.some.inj (hflight.symm.trans hdead))
      cases hsent
    · exact hreplies
  · -- the flight died, and `Unavailable` says nothing about a row
    exact .inr ⟨_, rfl, rfl⟩

/-- **Step lemma**, for the steps of a gateway: what a flight was answered goes to its callers, and
from them to the requests. -/
theorem Frontend.Truthful.step (h : fe.Truthful known ended old now) {a : GatewayAction}
    {gw : Gateway} (hstep : fe.gateway.step a = some gw)
    (hrespond : ∀ i reply f, a = .client (.respond i reply) →
      fe.gateway.client.flights[i]? = some f → Told known now f.key reply)
    (hcached : ∀ r url code, a = .cached r (some url) →
      fe.gateway.requests[r]? = some ⟨code, .querying⟩ → old r ∨
        ∃ expiration, known code (.ok ⟨url, expiration⟩)) :
    Frontend.Truthful known ended old now { fe with gateway := gw } := by
  cases Gateway.Moves.of_step hstep with
  | redirect code =>
    -- the new request is `querying`: it has no call and no answer yet
    refine ⟨h.client, h.read, h.rows, h.replies, h.stopped, fun r code' k hr => ?_,
      fun r code' result hr => ?_⟩
    · rcases getElem?_append_cases hr with hold | hnew
      · exact h.fetching r code' k hold
      · cases hnew
    · rcases getElem?_append_cases hr with hold | hnew
      · exact h.responded r code' result hold
      · cases hnew
  | @hit r code hrequest url =>
    -- answered from the cache, with the target of the entry
    refine h.setRequest (fun k hstage => by cases hstage) fun result hresult => ?_
    obtain rfl := RequestStage.responded.inj hresult
    refine (hcached r url code rfl hrequest).imp_right fun ⟨expiration, hrow⟩ => ?_
    exact .inr ⟨_, hrow, _, rfl, rfl⟩
  | @miss r code hrequest =>
    -- the call joins the flight in the map, or spawns one; then the request waits for it
    have hget : coreClient.step fe.gateway.client (.getLink code) =
        some (fe.gateway.client.getLink code) := rfl
    have hclient := h.setClient hget fun i reply f heq => by cases heq
    obtain ⟨maxInFlight, hinv⟩ := hclient.client
    obtain ⟨i, hcaller, hentry⟩ := fe.gateway.client.getLink_caller code
    refine hclient.setRequest (fun k hstage => ?_) fun result hresult => by cases hresult
    obtain rfl := RequestStage.fetching.inj hstage
    refine ⟨_, hcaller, rfl, fun hover => ?_⟩
    -- the flight in the map has not finished, so one that is left out has died
    obtain ⟨stage, hflight, hfinished⟩ := hinv.entry code i hentry
    obtain ⟨f, hf, hstopped⟩ := hclient.stopped i hover
    obtain rfl := Option.some.inj (hflight.symm.trans hf)
    cases stage with
    | died => exact ⟨code, hflight⟩
    | finished reply => exact absurd rfl (hfinished reply)
    | _ => cases hstopped
  | client _ _ hclient =>
    -- a step of the client touches no request; replies come only from `respond`
    exact h.setClient hclient fun i reply f heq => hrespond i reply f (heq ▸ rfl)
  | @fetched r k code caller reply hrequest hcaller hreturned =>
    -- answered with what the call returned, which is what its flight was told
    refine h.setRequest (fun k hstage => by cases hstage) fun result hresult => ?_
    obtain rfl := RequestStage.responded.inj hresult
    refine (h.fetching r code k hrequest).imp_right fun ⟨caller', hcaller', hcode, hdied⟩ => ?_
    obtain rfl := Option.some.inj (hcaller.symm.trans hcaller')
    exact Answers.of_told (hcode ▸ h.returned hcaller hdied hreturned)
  | drop hrequest =>
    exact h.setRequest (fun k hstage => by cases hstage) fun result hresult => by cases hresult
  | cancel hrequest hclient =>
    -- the connection is closed, and with it the call
    exact (h.setClient hclient fun i reply f heq => by cases heq).setRequest
      (fun k hstage => by cases hstage) fun result hresult => by cases hresult
  | _ =>
    -- a click task and `main` change neither flights nor requests
    exact ⟨h.client, h.read, h.rows, h.replies, h.stopped, h.fetching, h.responded⟩

/-- The RPC of a flight reads a row that counts. -/
theorem Frontend.Truthful.setRead (h : fe.Truthful known ended old now) {i : Nat} {key : String}
    {stage : FlightStage} (hflight : fe.gateway.client.flights[i]? = some ⟨key, stage⟩)
    {row : Except DbError Postgres.Link} (hrow : known key row) :
    Frontend.Truthful known ended old now
      { fe with read := fun j => if j = i then some row else fe.read j } where
  client := h.client
  read := by
    intro j row' hread
    by_cases hji : j = i
    · exact hji ▸ (List.getElem?_eq_some_iff.mp hflight).1
    · exact h.read j row' (by simpa [hji] using hread)
  rows := by
    intro j f row' hf hrunning hread
    by_cases hji : j = i
    · subst hji
      obtain rfl := Option.some.inj (hflight.symm.trans hf)
      obtain rfl : row = row' := by simpa using hread
      exact hrow
    · exact h.rows j f row' hf hrunning (by simpa [hji] using hread)
  replies := h.replies
  stopped := h.stopped
  fetching := h.fetching
  responded := h.responded

end Gateways

/-! ## The system -/

/-- What is left out of an account that begins at some moment: entries with a deadline up to this
one, flights that were over by then, and requests of before. -/
structure Since where
  deadline : Option Int
  ended : Nat → Nat → Prop
  old : Nat → Nat → Prop

/-- Nothing is left out. -/
def Since.start : Since := ⟨none, fun _ _ => False, fun _ _ => False⟩

/-- Everything in the system that is not older than `since` says what a row of its code was. -/
structure LinkSystem.Truthful (known : Rows) (since : Since) (st : LinkSystem) : Prop where
  core : st.core.Truthful known since.deadline
  frontends : ∀ (g : Nat) (fe : Frontend), st.frontends[g]? = some fe →
    fe.Truthful known (since.ended g) (since.old g) st.core.now
  /-- Flights that are left out are of gateways that have started. -/
  started : ∀ g i, since.ended g i → g < st.frontends.length
  /-- While entries are left out that may be alive, all requests are. -/
  clock : (∀ g r, since.old g r) ∨ ∀ d ∈ since.deadline, d ≤ st.core.now

section System

variable {known known' : Rows} {since : Since} {cacheTtl : Nat} {st st' : LinkSystem}
  {a : LinkAction}

theorem LinkSystem.Truthful.mono (h : st.Truthful known since)
    (hknown : ∀ c row, known c row → known' c row) : st.Truthful known' since where
  core := h.core.mono hknown
  frontends := fun g fe hfe => (h.frontends g fe hfe).mono hknown (le_refl _)
  started := h.started
  clock := h.clock

/-- The core service moves, and the gateways do not. -/
theorem LinkSystem.Truthful.setCore (h : st.Truthful known since) {core : CoreState}
    (hcore : core.Truthful known since.deadline) (hnow : st.core.now ≤ core.now) :
    LinkSystem.Truthful known since { st with core := core } where
  core := hcore
  frontends := fun g fe hfe => (h.frontends g fe hfe).mono (fun _ _ hrow => hrow) hnow
  started := h.started
  clock := h.clock.imp_right fun hle d hd => (hle d hd).trans hnow

/-- One gateway moves. -/
theorem LinkSystem.Truthful.setFrontend (h : st.Truthful known since) {g : Nat} {fe : Frontend}
    (hfe : fe.Truthful known (since.ended g) (since.old g) st.core.now) :
    LinkSystem.Truthful known since { st with frontends := st.frontends.set g fe } where
  core := h.core
  frontends := by
    intro g' fe' hfe'
    rcases getElem?_set_cases hfe' with ⟨rfl, rfl⟩ | ⟨-, hold⟩
    · exact hfe
    · exact h.frontends g' fe' hold
  started := fun g' i hover => by
    rw [List.length_set]
    exact h.started g' i hover
  clock := h.clock

/-- What Redis returns is of a row that counts, for a request that is not left out. -/
theorem LinkSystem.Truthful.redisQuery (h : st.Truthful known since) {code url : String}
    {reached : Bool} (hquery : st.redisQuery code reached = some url) (g r : Nat) :
    since.old g r ∨ ∃ expiration, known code (.ok ⟨url, expiration⟩) := by
  unfold LinkSystem.redisQuery at hquery
  split at hquery
  · obtain ⟨entry, hentry, rfl⟩ := Option.map_eq_some_iff.mp hquery
    obtain ⟨hget, hlive⟩ := Option.filter_eq_some_iff.mp hentry
    rcases h.core.cache code entry hget with ⟨d, hd, hdeadline⟩ | hrow
    · -- the entry is past its deadline, unless the request is left out
      refine .inl (h.clock.elim (fun hall => hall g r) fun hle => ?_)
      have hpast : entry.deadline ≤ st.core.now := hdeadline.trans (hle d hd)
      exact absurd (of_decide_eq_true hlive) (not_lt.mpr hpast)
    · exact .inr hrow
  · cases hquery

/-- **Step lemma**, where the rows after the step count: a step of the core service, of one gateway,
or between the two, by the lemmas of these. -/
theorem LinkSystem.Truthful.step (h : st.Truthful known since) (hstep : st.Step cacheTtl a st')
    (htable : ∀ code, known code (st'.core.pg.getLink code)) : st'.Truthful known since := by
  cases hstep with
  | core hcore =>
    -- requests of other clients, the worker and the clock
    have hmoves := CoreState.Step.of_step hcore
    exact h.setCore (h.core.step hmoves htable) hmoves.now_le
  | lose hlose => exact h.setCore (h.core.lose hlose) hlose.now.ge
  | deleteExpiredLinks =>
    -- only the table changes, and its rows after the step count
    have hcore : CoreState.Truthful known since.deadline
        { st.core with pg := st.core.pg.deleteExpiredLinks st.core.now } :=
      ⟨htable, h.core.requests, h.core.queue, h.core.cache⟩
    exact h.setCore hcore (le_refl _)
  | start maxInFlight =>
    -- a new gateway is the last one; flights that are left out are of the others
    refine ⟨h.core, fun g fe hfe => ?_, fun g i hover => ?_, h.clock⟩
    · by_cases hlt : g < st.frontends.length
      · rw [List.getElem?_append_left hlt] at hfe
        exact h.frontends g fe hfe
      · rcases getElem?_append_cases hfe with hold | rfl
        · exact absurd (List.getElem?_eq_some_iff.mp hold).1 hlt
        · exact Frontend.Truthful.start maxInFlight fun i hover => hlt (h.started g i hover)
    · rw [List.length_append]
      exact Nat.lt_add_right _ (h.started g i hover)
  | gateway hfe hcached hrespond hmoves =>
    -- neither Redis nor the core service answers in this step
    refine h.setFrontend ((h.frontends _ _ hfe).step hmoves (fun i reply f heq => ?_)
      fun r url code heq => ?_)
    · exact absurd heq (hrespond i reply)
    · exact absurd heq (hcached r _)
  | @cached g i reached fe request gw hfe hrequest hmoves =>
    -- Redis answers: what it finds is of a row that counts
    refine h.setFrontend ((h.frontends g fe hfe).step hmoves (fun i reply f heq => by cases heq)
      fun r url code heq hr => ?_)
    obtain ⟨rfl, hquery⟩ := GatewayAction.cached.inj heq
    obtain rfl := Option.some.inj (hrequest.symm.trans hr)
    exact h.redisQuery hquery g i
  | @read g i fe key core hfe hflight hread hcore =>
    -- the RPC reads the row as it is now, and the core service goes on with it
    have hmoves := CoreState.Step.of_step hcore
    exact (h.setFrontend ((h.frontends g fe hfe).setRead hflight (h.core.table key))).setCore
      (h.core.step hmoves htable) hmoves.now_le
  | @answer g i j fe key row core gw hfe hflight hread hcore hmoves =>
    -- the RPC answers with the row that it read before and the clock of now
    have htruthful := h.frontends g fe hfe
    have hset := h.setFrontend (htruthful.step hmoves (fun i' reply f heq hf => ?_)
      fun r url code heq => by cases heq)
    · rcases hcore with rfl | hcore
      · exact hset
      · have hmoves := CoreState.Step.of_step hcore
        exact hset.setCore (h.core.step hmoves htable) hmoves.now_le
    · obtain ⟨rfl, rfl⟩ := CoreClientAction.respond.inj (GatewayAction.client.inj heq)
      obtain rfl := Option.some.inj (hflight.symm.trans hf)
      exact .inl ⟨st.core.now, le_refl _, row, htruthful.rows _ _ row hflight rfl hread, rfl⟩
  | fail htransport hfe hmoves =>
    -- a failing RPC says nothing about a row
    refine h.setFrontend ((h.frontends _ _ hfe).step hmoves (fun i' reply f heq _ => ?_)
      fun r url code heq => by cases heq)
    obtain ⟨-, rfl⟩ := CoreClientAction.respond.inj (GatewayAction.client.inj heq)
    exact .inr ⟨_, htransport, rfl⟩

theorem LinkSystem.Truthful.init {now : Int} {pg : Postgres}
    (htable : ∀ code, known code (pg.getLink code)) :
    (LinkSystem.init now pg).Truthful known .start where
  core := ⟨htable, fun _ hmem => (by cases hmem), fun _ hmem => (by cases hmem),
    fun _ _ hget => (by cases hget)⟩
  frontends := fun _ _ hfe => by cases hfe
  started := fun _ _ hover => hover.elim
  clock := .inr fun _ hd => by cases hd

end System

/-! ## Every answer was true -/

section Past

variable {cacheTtl : Nat} {now : Int} {pg : Postgres} {as : List LinkAction} {st : LinkSystem}

/-- The rows that a code had at some point of the run. -/
def Had (cacheTtl : Nat) (s : LinkSystem) (as : List LinkAction) : Rows := fun code row =>
  (links cacheTtl).Once s as fun st => st.core.pg.getLink code = row

theorem truthful_of_run (hrun : (links cacheTtl).run (.init now pg) as = some st) :
    st.Truthful (Had cacheTtl (.init now pg) as) .start := by
  -- every row that the code has after a step counts from then on
  refine Machine.run_invariant_of_past
    (I := fun as st => st.Truthful (Had cacheTtl (.init now pg) as) .start)
    (.init fun code => Machine.Once.now rfl rfl) (fun bs t a t' hbefore hstep h => ?_) hrun
  have hafter : (links cacheTtl).run (.init now pg) (bs ++ [a]) = some t' :=
    (links cacheTtl).run_append_some.mpr ⟨t, hbefore, (links cacheTtl).run_cons_some.mpr
      ⟨t', hstep, rfl⟩⟩
  exact (h.mono fun c row hrow => hrow.append [a]).step (.of_step hstep) fun code =>
    Machine.Once.now hafter rfl

/-- **Every answer was true.** Whatever the clients, the gateways, the core service, the cleanup and
the stores do, and whatever is lost, a redirect that is answered is answered with an internal
error, or about a row that its code had at some point of the run: with the target of the row, with
404 if there was none, with 410 if the row has expired. -/
theorem redirect_was_true (hrun : (links cacheTtl).run (.init now pg) as = some st) {g r : Nat}
    {fe : Frontend} (hfe : st.frontends[g]? = some fe) {code : String}
    {result : Except StatusCode Redirect}
    (hrequest : fe.gateway.requests[r]? = some ⟨code, .responded result⟩) :
    result = .error .internalServerError ∨ ∃ row,
      (links cacheTtl).Once (.init now pg) as (fun s => s.core.pg.getLink code = row) ∧
        AnswerOf row st.core.now result :=
  (((truthful_of_run hrun).frontends g fe hfe).responded r code result hrequest).resolve_left id

/-- A link is created, cached and deleted, and the `Del` is dropped. -/
def delDropped : List LinkAction :=
  [.start 1, .core (.createLink "a" "https://example.org" none), .core (.send 0), .core .work,
    .core (.deleteLink "a"), .core (.send 0), .dropOp]

/-- A redirect that finds the entry. -/
def redirectHits : List LinkAction := [.gateway 0 (.redirect "a"), .cached 0 0 true]

/-- The link is gone, and was there once. -/
theorem redirect_was_true_delDropped : ∃ st,
    (links oneMinute).run (.init 0 Postgres.empty) (delDropped ++ redirectHits) = some st ∧
      st.core.pg.linkExists "a" = false ∧ ∃ row, AnswerOf row 0 (.ok ⟨"https://example.org"⟩) ∧
        (links oneMinute).Once (.init 0 Postgres.empty) (delDropped ++ redirectHits)
          fun s => s.core.pg.getLink "a" = row := by
  have hvalues : ((links oneMinute).run (.init 0 Postgres.empty) (delDropped ++ redirectHits)).bind
      (fun st => (st.frontends[0]?).map fun fe =>
        (st.core.pg.linkExists "a", st.core.now, fe.gateway.requests[0]?)) =
      some (false, 0, some ⟨"a", .responded (.ok ⟨"https://example.org"⟩)⟩) := by
    decide
  obtain ⟨st, hrun, hst⟩ := Option.bind_eq_some_iff.mp hvalues
  obtain ⟨fe, hfe, hfe'⟩ := Option.map_eq_some_iff.mp hst
  simp only [Prod.mk.injEq] at hfe'
  obtain ⟨hgone, hnow, hrequest⟩ := hfe'
  rcases redirect_was_true hrun hfe hrequest with hinternal | ⟨row, honce, hanswer⟩
  · cases hinternal
  · exact ⟨st, hrun, hgone, row, hnow ▸ hanswer, honce⟩

end Past

/-! ## How long an old row is answered -/

/-- The op keeps its entry for no longer than the configured time. -/
def CacheOp.Bounded (cacheTtl : Nat) : CacheOp → Prop
  | .set _ _ ttl _ => ttl ≤ cacheTtl
  | .del _ => True

/-- No TTL in the queue and no deadline in the cache is further ahead than the TTL of the
configuration. -/
structure CoreState.Bounded (cacheTtl : Nat) (st : CoreState) : Prop where
  queue : ∀ op ∈ st.queue, op.Bounded cacheTtl
  cache : ∀ code entry, st.cache.get code = some entry → entry.deadline ≤ st.now + cacheTtl

section Bounded

variable {cacheTtl : Nat} {st st' : CoreState} {a : CoreAction}

theorem Pending.bounded_ops {request : Pending} {op : CacheOp}
    (hop : op ∈ request.ops cacheTtl st) :
    op.Bounded cacheTtl := by
  have hset : ∀ {code target expiration stored},
      op ∈ setOp cacheTtl st.now code target expiration stored → op.Bounded cacheTtl := by
    intro code target expiration stored hop
    unfold setOp at hop
    split at hop
    · next ttl httl =>
      obtain rfl := List.mem_singleton.mp hop
      exact (calculateCacheTtl_le httl).2.1
    · cases hop
  cases request with
  | created code target expiration => exact hset hop
  | read code link =>
    simp only [ops] at hop
    split at hop
    · cases hop
    · exact hset hop
  | deleted code =>
    obtain rfl := List.mem_singleton.mp hop
    trivial

theorem CoreState.Bounded.lose (h : st.Bounded cacheTtl) (hlose : st.Loses st') :
    st'.Bounded cacheTtl where
  queue := fun op hmem => h.queue op (hlose.queue op hmem)
  cache := fun code entry hget => by
    rw [hlose.now]
    exact h.cache code entry (hlose.cache code entry hget)

/-- **Step lemma.** A `Set` carries the TTL of the configuration at most, so no entry has its
deadline further ahead than that. -/
theorem CoreState.Bounded.step (h : st.Bounded cacheTtl) (hstep : st.Step cacheTtl a st') :
    st'.Bounded cacheTtl := by
  cases hstep with
  | refuse _ => exact h
  | create _ => exact ⟨h.queue, h.cache⟩
    -- these only add a request; the op comes when it sends
  | read _ => exact ⟨h.queue, h.cache⟩
  | delete _ => exact ⟨h.queue, h.cache⟩
  | send _ =>
    -- the TTL of a new op is the configured one at most
    refine ⟨fun op hop => ?_, h.cache⟩
    rcases List.mem_append.mp hop with hold | hnew
    · exact h.queue op hold
    · exact Pending.bounded_ops hnew
  | @work op queue hqueue =>
    -- the worker sets an entry for the whole seconds of its TTL from now, or takes one away
    have hop : op.Bounded cacheTtl := h.queue op (by rw [hqueue]; exact List.mem_cons_self)
    refine ⟨fun op' hmem => h.queue op' (by rw [hqueue]; exact List.mem_cons_of_mem op hmem), ?_⟩
    intro code entry hget
    change (processOp st.now st.cache op).get code = some entry at hget
    show entry.deadline ≤ st.now + cacheTtl
    cases op with
    | set key value ttl origin =>
      simp only [processOp] at hget
      split at hget
      · rw [Table.get_set] at hget
        split at hget
        · obtain rfl := Option.some.inj hget
          have hsecs : asSecs ttl * nanosPerSec ≤ ttl := Nat.div_mul_le_self ttl nanosPerSec
          have httl : ttl ≤ cacheTtl := hop
          show st.now + (asSecs ttl * nanosPerSec : Nat) ≤ st.now + cacheTtl
          omega
        · exact h.cache code entry hget
      · exact h.cache code entry hget
    | del key =>
      change (st.cache.erase key).get code = some entry at hget
      rw [Table.get_erase] at hget
      split at hget
      · cases hget
      · exact h.cache code entry hget
  | tick nanos =>
    -- the clock moves away from the deadlines
    refine ⟨h.queue, fun code entry hget => ?_⟩
    have hle := h.cache code entry hget
    show entry.deadline ≤ st.now + nanos + cacheTtl
    omega

theorem LinkSystem.Step.bounded {cacheTtl : Nat} {st st' : LinkSystem} {a : LinkAction}
    (hstep : st.Step cacheTtl a st') (h : st.core.Bounded cacheTtl) :
    st'.core.Bounded cacheTtl := by
  cases hstep with
  | core hcore => exact h.step (.of_step hcore)
  | lose hlose => exact h.lose hlose
  | deleteExpiredLinks => exact ⟨h.queue, h.cache⟩
  | read _ _ _ hcore => exact h.step (.of_step hcore)
  | answer _ _ _ hcore _ =>
    rcases hcore with rfl | hcore
    · exact h
    · exact h.step (.of_step hcore)
  | _ => exact h

end Bounded

namespace LinkSystem

/-- Of this code only the row that it has now counts. -/
def Current (st : LinkSystem) (code : String) : Rows :=
  fun c row => c = code → row = st.core.pg.getLink code

/-- Nothing of another row of the code is under way, in the core service or in a flight. -/
structure Settled (st : LinkSystem) (code : String) : Prop where
  requests : ∀ request ∈ st.core.requests, request.Truthful (st.Current code)
  queue : ∀ op ∈ st.core.queue, op.Truthful (st.Current code)
  rows : ∀ fe ∈ st.frontends, ∀ (i : Nat) (f : Flight) (row : Except DbError Postgres.Link),
    fe.gateway.client.flights[i]? = some f → f.stage.running = true → fe.read i = some row →
      st.Current code f.key row
  replies : ∀ fe ∈ st.frontends, ∀ (i : Nat) (f : Flight) (reply : GetLinkReply),
    fe.gateway.client.flights[i]? = some f → f.stage.running = true →
      f.stage.reply = some reply → Told (st.Current code) st.core.now f.key reply

/-- The request has been made. -/
def Asked (st : LinkSystem) (g r : Nat) : Prop :=
  ∃ fe, st.frontends[g]? = some fe ∧ r < fe.gateway.requests.length

/-- The flight is over. -/
def Over (st : LinkSystem) (g i : Nat) : Prop :=
  ∃ fe f, st.frontends[g]? = some fe ∧ fe.gateway.client.flights[i]? = some f ∧
    f.stage.running = false

/-- The step leaves the row of the code. -/
def Leaves (cacheTtl : Nat) (code : String) (st : LinkSystem) (a : LinkAction) : Prop :=
  ∀ st', (links cacheTtl).step st a = some st' →
    st'.core.pg.getLink code = st.core.pg.getLink code

instance (cacheTtl : Nat) (code : String) (st : LinkSystem) (a : LinkAction) :
    Decidable (st.Leaves cacheTtl code a) :=
  decidable_of_iff (((links cacheTtl).step st a).all fun st' =>
    decide (st'.core.pg.getLink code = st.core.pg.getLink code)) (by
      cases h : (links cacheTtl).step st a <;> simp [Leaves, h])

/-- Where the core service is idle and no flight is running, nothing is under way. -/
theorem Settled.of_idle {st : LinkSystem} (hidle : st.core.Idle)
    (hover : ∀ fe ∈ st.frontends, ∀ f ∈ fe.gateway.client.flights, f.stage.running = false)
    (code : String) : st.Settled code := by
  have hnone {fe : Frontend} (hfe : fe ∈ st.frontends) {i : Nat} {f : Flight}
      (hf : fe.gateway.client.flights[i]? = some f) (hrunning : f.stage.running = true) :
      False := by
    rw [hover fe hfe f (List.mem_of_getElem? hf)] at hrunning
    cases hrunning
  refine ⟨?_, ?_, fun fe hfe i f row hf hrunning => (hnone hfe hf hrunning).elim,
    fun fe hfe i f reply hf hrunning => (hnone hfe hf hrunning).elim⟩
  · rw [hidle.1]
    exact fun _ hmem => by cases hmem
  · rw [hidle.2]
    exact fun _ hmem => by cases hmem

end LinkSystem

section Current

variable {cacheTtl : Nat} {now : Int} {pg : Postgres} {as bs cs : List LinkAction}
  {s s₁ st t : LinkSystem} {code : String} {since : Since}

/-- From here on, with the entries, the flights and the requests of before left out, everything is
about the row that the code has now. -/
theorem LinkSystem.Settled.truthful (hsettled : s.Settled code)
    (hrun : (links cacheTtl).run (.init now pg) as = some s) :
    s.Truthful (s.Current code) ⟨some (s.core.now + cacheTtl), s.Over, fun _ _ => True⟩ := by
  have htruthful := truthful_of_run hrun
  have hbounded : s.core.Bounded cacheTtl :=
    (links cacheTtl).run_invariant (I := fun st => st.core.Bounded cacheTtl)
      (fun _ _ _ h hstep => (LinkSystem.Step.of_step hstep).bounded h) hrun
      ⟨fun _ hmem => (by cases hmem), fun _ _ hget => (by cases hget)⟩
  refine ⟨⟨fun c hc => hc ▸ rfl, hsettled.requests, hsettled.queue, fun c entry hget =>
    .inl ⟨_, rfl, hbounded.cache c entry hget⟩⟩, fun g fe hfe => ?_,
    fun g i hover => ?_, .inl fun _ _ => trivial⟩
  · -- of a flight that is running the assumption speaks; one that is over is left out
    have hold := htruthful.frontends g fe hfe
    have hmem := List.mem_of_getElem? hfe
    refine ⟨hold.client, hold.read, hsettled.rows fe hmem, fun i f reply hf hreply => ?_,
      fun i hover => ?_, fun _ _ _ _ => .inl trivial, fun _ _ _ _ => .inl trivial⟩
    · by_cases hrunning : f.stage.running = true
      · exact .inr (hsettled.replies fe hmem i f reply hf hrunning hreply)
      · exact .inl ⟨fe, f, hfe, hf, Bool.eq_false_iff.mpr hrunning⟩
    · obtain ⟨fe', f, hfe', hf, hstopped⟩ := hover
      obtain rfl := Option.some.inj (hfe.symm.trans hfe')
      exact ⟨f, hf, hstopped⟩
  · obtain ⟨fe, f, hfe, -, -⟩ := hover
    exact (List.getElem?_eq_some_iff.mp hfe).1

/-- **Run lemma**, for steps that leave the row of the code: then the rows that count are the same
all along. -/
theorem LinkSystem.Truthful.run (h : st.Truthful (s.Current code) since)
    (hsame : st.core.pg.getLink code = s.core.pg.getLink code)
    (hleaves : (links cacheTtl).Meets (LinkSystem.Leaves cacheTtl code) st bs)
    (hrun : (links cacheTtl).run st bs = some t) :
    t.Truthful (s.Current code) since ∧ t.core.pg.getLink code = s.core.pg.getLink code := by
  refine (links cacheTtl).run_invariant_of_meets
    (I := fun u => u.Truthful (s.Current code) since ∧
      u.core.pg.getLink code = s.core.pg.getLink code)
    (fun u a u' hu hleave hstep => ?_) hleaves hrun ⟨h, hsame⟩
  have hrow := (hleave u' hstep).trans hu.2
  exact ⟨hu.1.step (.of_step hstep) fun c hc => hc ▸ hrow, hrow⟩

/-- Once the entries of before are past their deadline, only the requests of before are left out. -/
theorem LinkSystem.Truthful.wait {deadline : Int} {ended : Nat → Nat → Prop}
    {known : Rows} (h : st.Truthful known ⟨some deadline, ended, fun _ _ => True⟩)
    (hlater : deadline ≤ st.core.now) :
    st.Truthful known ⟨some deadline, ended, st.Asked⟩ where
  core := h.core
  frontends := by
    intro g fe hfe
    have hold := h.frontends g fe hfe
    refine ⟨hold.client, hold.read, hold.rows, hold.replies, hold.stopped,
      fun r c k hr => ?_, fun r c result hr => ?_⟩
    · exact .inl ⟨fe, hfe, (List.getElem?_eq_some_iff.mp hr).1⟩
    · exact .inl ⟨fe, hfe, (List.getElem?_eq_some_iff.mp hr).1⟩
  started := h.started
  clock := .inr fun _ hd => Option.some.inj hd ▸ hlater

/-- **An old row is answered for `cache_ttl` and no longer.** From a state in which nothing of
another row of the code is under way, in a run that leaves the row of the code alone: a request
that is made `cache_ttl` later or after is answered about the row that the code has, however the
code was written before and whatever was lost. -/
theorem redirects_current (hrun : (links cacheTtl).run (.init now pg) as = some s)
    (hsettled : s.Settled code) (hwait : (links cacheTtl).run s bs = some s₁)
    (hlater : s.core.now + cacheTtl ≤ s₁.core.now) (hrest : (links cacheTtl).run s₁ cs = some t)
    (hleaves : (links cacheTtl).Meets (LinkSystem.Leaves cacheTtl code) s (bs ++ cs)) {g r : Nat}
    {fe : Frontend} (hfe : t.frontends[g]? = some fe) (hnew : ¬ s₁.Asked g r)
    {result : Except StatusCode Redirect}
    (hrequest : fe.gateway.requests[r]? = some ⟨code, .responded result⟩) :
    AnswerOf (s.core.pg.getLink code) t.core.now result := by
  -- wait for the deadline with everything of before left out, and then go on with only the
  -- requests of before left out
  obtain ⟨hleaves, hleaves'⟩ := ((links cacheTtl).meets_append hwait).mp hleaves
  obtain ⟨hwaited, hsame⟩ := (hsettled.truthful hrun).run rfl hleaves hwait
  obtain ⟨hended, -⟩ := (hwaited.wait hlater).run hsame hleaves' hrest
  rcases ((hended.frontends g fe hfe).responded r code result hrequest).resolve_left hnew with
    rfl | ⟨row, hrow, hanswer⟩
  · exact .inr (.inr rfl)
  · exact hrow rfl ▸ hanswer

/-- A redirect that finds none and asks the core service. -/
def redirectMisses : List LinkAction :=
  [.gateway 0 (.redirect "a"), .cached 0 0 true, .gateway 0 (.client (.acquire 0)), .read 0 0,
    .answer 0 0 0, .gateway 0 (.client (.release 0)), .gateway 0 (.client (.publish 0)),
    .gateway 0 (.client (.wake 0)), .gateway 0 (.fetched 0)]

/-- The `Del` of the link was dropped, and a minute later nothing is left of it. -/
theorem redirects_current_delDropped : ∃ t fe,
    (links oneMinute).run (.init 0 Postgres.empty)
        (delDropped ++ [.core (.tick oneMinute)] ++ redirectMisses) = some t ∧
      t.frontends[0]? = some fe ∧
      fe.gateway.requests[0]? = some ⟨"a", .responded (.error .notFound)⟩ ∧
      AnswerOf (.error .notFound) t.core.now (.error .notFound) := by
  have hvalues : (((links oneMinute).run (.init 0 Postgres.empty) delDropped).bind fun s =>
      ((links oneMinute).run s [.core (.tick oneMinute)]).bind fun s₁ =>
        ((links oneMinute).run s₁ redirectMisses).bind fun t =>
          (t.frontends[0]?).map fun fe =>
            (decide (s.core.Idle ∧ (∀ fe ∈ s.frontends, ∀ f ∈ fe.gateway.client.flights,
                f.stage.running = false) ∧ s.core.now + oneMinute ≤ s₁.core.now ∧
              (links oneMinute).Meets (LinkSystem.Leaves oneMinute "a") s
                ([.core (.tick oneMinute)] ++ redirectMisses)),
              decide (s.core.pg.getLink "a" = .error .notFound),
              (s₁.frontends[0]?).map fun fe => fe.gateway.requests.length,
              fe.gateway.requests[0]?)) =
      some (true, true, some 0, some ⟨"a", .responded (.error .notFound)⟩) := by
    decide
  obtain ⟨s, hrun, hvalues⟩ := Option.bind_eq_some_iff.mp hvalues
  obtain ⟨s₁, hwait, hvalues⟩ := Option.bind_eq_some_iff.mp hvalues
  obtain ⟨t, hrest, hvalues⟩ := Option.bind_eq_some_iff.mp hvalues
  obtain ⟨fe, hfe, hvalues⟩ := Option.map_eq_some_iff.mp hvalues
  simp only [Prod.mk.injEq, decide_eq_true_eq] at hvalues
  obtain ⟨⟨hidle, hover, hlater, hleaves⟩, hrow, hasked, hrequest⟩ := hvalues
  have hnew : ¬ s₁.Asked 0 0 := by
    rintro ⟨fe₁, hfe₁, hlt⟩
    rw [hfe₁, Option.map_some] at hasked
    have hlen := Option.some.inj hasked
    omega
  refine ⟨t, fe, ?_, hfe, hrequest, hrow ▸ redirects_current hrun
    (.of_idle hidle hover "a") hwait hlater hrest hleaves hfe hnew hrequest⟩
  rw [Machine.run_append, Machine.run_append, hrun, Option.bind_some, hwait, Option.bind_some,
    hrest]

end Current

end Kurl
