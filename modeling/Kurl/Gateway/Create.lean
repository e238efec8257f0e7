import Kurl.Core.CreateLink

/-!
# Kurl — create requests (`gateway/src/api/create.rs`)

A `POST /api/create` from its deserialized body to its status code, through the core service. Two
clocks of the gateway and one of the core service are read on the way: `TryFrom` adds a duration to
the first and compares the sum to the second, and `create_link` compares the decoded expiration to
the third.

`tryFrom_ok` and `createLink_of_accepted` say what a request that `TryFrom` accepted is to the core
service. From them follow the two results about the statuses.

* **`create_answers_iff`** — the handler answers unless it receives `InvalidArgument`, for which it
  has no arm yet.
* **`shortCode_status_iff`** — the status agrees with the check constraint on short codes exactly
  for the codes that satisfy it and have no NUL, since nothing before the database looks at a code.

The call of the core service may be lost on the way or back (`Delivery`); what the gateway sees then
is an error of the transport.
-/

namespace Kurl

open Lib

/-! ## The body -/

/-- `chrono::Duration` as `deserialize_duration` returns it: `from_std` takes what is at most
`i64::MAX` milliseconds. -/
@[ext] structure RequestDuration where
  nanos : Int
  nonneg : 0 ≤ nanos
  le : nanos ≤ i64Max * 1000000

instance : DecidableEq RequestDuration := fun _ _ =>
  decidable_of_iff _ RequestDuration.ext_iff.symm

inductive Expiration where
  | dateTime (t : UtcDateTime)
  | duration (d : RequestDuration)
  deriving DecidableEq

/-- The body of the request, deserialized. -/
structure CreateLinkReq where
  shortCode : Option String
  target : String
  expiration : Option Expiration
  deriving DecidableEq

/-- The instant that is meant, in nanoseconds since the epoch, at the time `now`. -/
def Expiration.nanos (now : DateTime) : Expiration → Int
  | .dateTime t => t.nanos
  | .duration d => now.nanos + d.nanos

/-- `RequestError`: what a request is refused with, by `TryFrom` or for what the core service
answered. -/
inductive RequestError where
  | invalidShortCode
  | invalidTarget
  | invalidExpiration
  | alreadyExists
  | internal
  deriving DecidableEq

/-- `IntoResponse` with the text of `Display`. -/
def RequestError.intoResponse : RequestError → StatusCode × String
  | .invalidShortCode => (.badRequest, "Invalid short code")
  | .invalidTarget => (.badRequest, "Invalid target URL")
  | .invalidExpiration => (.badRequest, "Invalid expiration date")
  | .alreadyExists => (.conflict, "Link already exists")
  | .internal => (.internalServerError, "Internal server error")

structure CreateLinkResp where
  shortCode : String
  deriving DecidableEq

/-- The status of a response; `Json` has 200. -/
def statusCode : Except RequestError CreateLinkResp → StatusCode
  | .ok _ => .ok
  | .error error => error.intoResponse.1

/-! ## `TryFrom` -/

/-- `DateTime + Duration`, which panics beyond the range of `chrono`. -/
def DateTime.add (t : DateTime) (d : RequestDuration) : Panics DateTime :=
  if h : t.nanos + d.nanos ≤ maxUtc then
    .ok ⟨t.nanos + d.nanos, le_trans t.lower (le_add_of_nonneg_right d.nonneg), h⟩
  else .error ⟨"`DateTime + TimeDelta` overflowed"⟩

/-- The first match of `try_from`. -/
def resolveExpiration (now : DateTime) : Option Expiration → Panics (Option UtcDateTime)
  | none => .ok none
  | some (.dateTime t) => .ok (some t)
  | some (.duration d) => (now.add d).map fun t => some t.toUtc

/-- The second match of `try_from`. -/
def encodeExpiration (prost : ProstWkt) (now : DateTime) :
    Option UtcDateTime → Except RequestError (Option Timestamp)
  | none => .ok none
  | some t =>
    if t.after now.toUtc then
      match prost.ofDateTime t with
      | some timestamp => .ok (some timestamp)
      | none => .error .invalidExpiration
    else .error .invalidExpiration

/-- `CreateLinkRequest::try_from`. `parseUrl` is `Url::parse` and the text of the URL. -/
def CreateLinkRequest.tryFrom (prost : ProstWkt) (parseUrl : String → Option String)
    (now now' : DateTime) (value : CreateLinkReq) :
    Panics (Except RequestError CreateLinkRequest) :=
  match resolveExpiration now value.expiration with
  | .error panic => .error panic
  | .ok expiration =>
    match encodeExpiration prost now' expiration with
    | .error error => .ok (.error error)
    | .ok timestamp =>
      match parseUrl value.target with
      | none => .ok (.error .invalidTarget)
      | some target => .ok (.ok ⟨value.shortCode, target, timestamp⟩)

/-! ## The handler -/

/-- `create` -/
def create (prost : ProstWkt) (parseUrl : String → Option String) (now now' : DateTime)
    (createLink : CreateLinkRequest → Except Status CreateLinkResponse)
    (createReq : CreateLinkReq) : Panics (Except RequestError CreateLinkResp) :=
  match CreateLinkRequest.tryFrom prost parseUrl now now' createReq with
  | .error panic => .error panic
  | .ok (.error error) => .ok (.error error)
  | .ok (.ok request) =>
    match createLink request with
    | .ok response => .ok (.ok ⟨response.shortCode⟩)
    | .error error =>
      match error.code with
      | .alreadyExists => .ok (.error .alreadyExists)
      | .invalidArgument => .error ⟨"not yet implemented: also check other codes and handlers"⟩
      | _ => .ok (.error .internal)

/-- What becomes of the call of the core service. -/
inductive Delivery where
  | answered
  /-- The transport fails, or the answer is late. -/
  | failed (status : Status)
  deriving DecidableEq

/-- `CoreClient::create_link`. A handler that panics does not answer; its stream is reset. -/
def callCreateLink (handled : Panics (Except Status (CreateLinkResponse × Postgres))) :
    Delivery → Except Status CreateLinkResponse
  | .failed status => .error status
  | .answered =>
    match handled with
    | .ok reply => reply.map Prod.fst
    | .error _ => .error ⟨.other, "h2 protocol error"⟩

/-- What a request meets on its way: the clocks it reads, two in the gateway and one in the core
service, the database, the strings that are drawn and the transport. -/
structure CreateEnv where
  now : DateTime
  now' : DateTime
  coreNow : DateTime
  repository : LinkRepository
  randomStrings : List String
  delivery : Delivery

namespace CreateEnv

variable (prost : ProstWkt) (parseUrl : String → Option String) (env : CreateEnv)

def tryFrom (value : CreateLinkReq) : Panics (Except RequestError CreateLinkRequest) :=
  CreateLinkRequest.tryFrom prost parseUrl env.now env.now' value

/-- The core service's handler. -/
def handled (request : CreateLinkRequest) :
    Panics (Except Status (CreateLinkResponse × Postgres)) :=
  LinkService.createLink prost env.repository env.randomStrings env.coreNow request

/-- The status of the response, unless the handler panics. -/
def respond (value : CreateLinkReq) : Panics StatusCode :=
  (create prost parseUrl env.now env.now'
    (fun request => callCreateLink (env.handled prost request) env.delivery) value).map statusCode

end CreateEnv

/-! ## Accepted requests -/

section Accepted

variable {prost : ProstWkt} {parseUrl : String → Option String} {value : CreateLinkReq}
  {request : CreateLinkRequest}

/-- The instant to which the core service decodes: a leap second is the second after it. -/
def UtcDateTime.carried (t : UtcDateTime) : DateTime := ⟨t.nanos, t.lower, t.upper⟩

/-- What `TryFrom` has computed when it accepts. -/
theorem tryFrom_ok {now now' : DateTime}
    (h : CreateLinkRequest.tryFrom prost parseUrl now now' value = .ok (.ok request)) :
    ∃ expiration, resolveExpiration now value.expiration = .ok expiration ∧
      encodeExpiration prost now' expiration = .ok request.expiration ∧
      parseUrl value.target = some request.target ∧ request.shortCode = value.shortCode := by
  unfold CreateLinkRequest.tryFrom at h
  cases hresolve : resolveExpiration now value.expiration with
  | error panic => simp [hresolve] at h
  | ok expiration =>
    cases hencode : encodeExpiration prost now' expiration with
    | error error => simp [hresolve, hencode] at h
    | ok timestamp =>
      cases hurl : parseUrl value.target with
      | none => simp [hresolve, hencode, hurl] at h
      | some target =>
        simp only [hresolve, hencode, hurl, Except.ok.injEq] at h
        subst h
        exact ⟨expiration, rfl, hencode, rfl, rfl⟩

/-- The resolved expiration is at the instant that is meant. -/
theorem nanos_resolveExpiration {now : DateTime} {expiration : Option UtcDateTime}
    (h : resolveExpiration now value.expiration = .ok expiration) :
    expiration.map UtcDateTime.nanos = value.expiration.map (Expiration.nanos now) := by
  unfold resolveExpiration at h
  split at h
  · obtain rfl := Except.ok.inj h
    next hnone => rw [hnone]; rfl
  · obtain rfl := Except.ok.inj h
    next hsome => rw [hsome]; rfl
  · next d hsome =>
    obtain ⟨t, hadd, rfl⟩ := exceptMap_eq_ok h
    unfold DateTime.add at hadd
    split at hadd
    · obtain rfl := Except.ok.inj hadd
      rw [hsome, Option.map_some, DateTime.nanos_toUtc]
      rfl
    · cases hadd

/-- What the gateway encodes, the core service decodes. -/
theorem decodeExpiration_encoded {now : DateTime} {expiration : Option UtcDateTime}
    {timestamp : Option Timestamp} (h : encodeExpiration prost now expiration = .ok timestamp) :
    decodeExpiration prost timestamp = .ok (.ok (expiration.map UtcDateTime.carried)) := by
  unfold encodeExpiration at h
  split at h
  · obtain rfl := Except.ok.inj h
    rfl
  · next t =>
    rw [prost.ofDateTime_eq] at h
    split at h
    · obtain rfl := Except.ok.inj h
      have hsystem : prost.toSystemTime ⟨t.timestamp, t.subsecNanos⟩ = some t.carried.nanos :=
        prost.toSystemTime_ofDateTime t
      show (timestampToDatetime prost ⟨t.timestamp, t.subsecNanos⟩).map
        (fun decoded => decoded.map some) = _
      rw [timestampToDatetime_of_system hsystem]
      rfl
    · cases h

/-- **An accepted request in the core service.** It is refused if its expiration has passed by
then, and otherwise the repository decides. -/
theorem createLink_of_accepted {env : CreateEnv}
    (haccepted : env.tryFrom prost parseUrl value = .ok (.ok request)) : ∃ expiration,
    env.handled prost request =
      match value.shortCode.or (generateShortCode env.repository env.randomStrings) with
      | none => .ok (.error ⟨.internal, "Failed to generate a unique short code"⟩)
      | some code =>
        if value.expiration.any (fun e => e.nanos env.now ≤ env.coreNow.nanos) then
          .ok (.error ⟨.invalidArgument, "Expiration must be in the future"⟩)
        else
          .ok (((env.repository.createLink code request.target expiration).mapError
            insertionStatus).map fun pg => (⟨code⟩, pg)) := by
  obtain ⟨expiration, hresolve, hencode, -, hcode⟩ := tryFrom_ok haccepted
  refine ⟨expiration.map UtcDateTime.carried, ?_⟩
  -- the decoded and the meant instant are compared as nanoseconds
  have hpassed : (expiration.map UtcDateTime.carried).any (fun t => decide (t ≤ env.coreNow)) =
      value.expiration.any (fun e => decide (e.nanos env.now ≤ env.coreNow.nanos)) := by
    calc (expiration.map UtcDateTime.carried).any (fun t => decide (t ≤ env.coreNow))
        = (expiration.map UtcDateTime.nanos).any (fun n => decide (n ≤ env.coreNow.nanos)) := by
          cases expiration <;> rfl
      _ = (value.expiration.map (Expiration.nanos env.now)).any
            (fun n => decide (n ≤ env.coreNow.nanos)) := by
          rw [nanos_resolveExpiration hresolve]
      _ = value.expiration.any (fun e => decide (e.nanos env.now ≤ env.coreNow.nanos)) := by
          cases value.expiration <;> rfl
  unfold CreateEnv.handled LinkService.createLink
  rw [hcode, decodeExpiration_encoded hencode]
  cases value.shortCode.or (generateShortCode env.repository env.randomStrings) with
  | none => rfl
  | some code => simp only [hpassed]

/-- The status for a reply of the core service. -/
def replyStatus : Except Status CreateLinkResponse → Panics StatusCode
  | .ok _ => .ok .ok
  | .error error =>
    match error.code with
    | .alreadyExists => .ok .conflict
    | .invalidArgument => .error ⟨"not yet implemented: also check other codes and handlers"⟩
    | _ => .ok .internalServerError

theorem respond_of_accepted {env : CreateEnv}
    (haccepted : env.tryFrom prost parseUrl value = .ok (.ok request)) :
    env.respond prost parseUrl value =
      replyStatus (callCreateLink (env.handled prost request) env.delivery) := by
  unfold CreateEnv.respond create
  unfold CreateEnv.tryFrom at haccepted
  simp only [haccepted]
  cases callCreateLink (env.handled prost request) env.delivery with
  | ok response => rfl
  | error error =>
    unfold replyStatus
    cases hcode : error.code <;> simp only [hcode] <;> rfl

end Accepted

/-! ## Does the handler answer? -/

/-- The core service refuses with `InvalidArgument`, and the refusal arrives. -/
def CreateEnv.Refused (prost : ProstWkt) (env : CreateEnv) (request : CreateLinkRequest) : Prop :=
  env.delivery = .answered ∧
    ∃ status, env.handled prost request = .ok (.error status) ∧ status.code = .invalidArgument

/-- The handler answers, and a refusal as an error of the client. -/
structure CreateEnv.Answers (prost : ProstWkt) (parseUrl : String → Option String)
    (env : CreateEnv) (value : CreateLinkReq) (request : CreateLinkRequest) : Prop where
  answered : ∃ status, env.respond prost parseUrl value = .ok status ∧
    (status = .ok ∨ status = .badRequest ∨ status = .conflict ∨ status = .internalServerError)
  refused : env.Refused prost request → env.respond prost parseUrl value = .ok .badRequest

/-- The expiration has not passed when the core service compares it, if it comes to that: the
answer arrives and there is a short code. A failing transport does not say `InvalidArgument`. -/
structure CreateEnv.InTime (env : CreateEnv) (value : CreateLinkReq) : Prop where
  expiration : env.delivery = .answered →
    (value.shortCode.or (generateShortCode env.repository env.randomStrings)).isSome = true →
      ∀ e ∈ value.expiration, env.coreNow.nanos < e.nanos env.now
  transport : ∀ status, env.delivery = .failed status → status.code ≠ .invalidArgument

section Answers

variable {prost : ProstWkt} {parseUrl : String → Option String} {env : CreateEnv}
  {value : CreateLinkReq} {request : CreateLinkRequest}

/-- The handler answers every reply but `InvalidArgument`. -/
theorem replyStatus_cases (reply : Except Status CreateLinkResponse) :
    (∃ status, reply = .error status ∧ status.code = .invalidArgument ∧
        ∃ panic, replyStatus reply = .error panic) ∨
      (∀ status, reply = .error status → status.code ≠ .invalidArgument) ∧
        ∃ status, replyStatus reply = .ok status ∧
          (status = .ok ∨ status = .badRequest ∨ status = .conflict ∨
            status = .internalServerError) := by
  cases reply with
  | ok response => exact .inr ⟨fun _ h => (by cases h), .ok, rfl, .inl rfl⟩
  | error status =>
    by_cases hcode : status.code = .invalidArgument
    · exact .inl ⟨status, rfl, hcode, _, by unfold replyStatus; simp only [hcode]; rfl⟩
    · refine .inr ⟨fun _ h => Except.error.inj h ▸ hcode, ?_⟩
      unfold replyStatus
      cases hother : status.code with
      | invalidArgument => exact absurd hother hcode
      | alreadyExists => exact ⟨.conflict, by simp only [hother], .inr (.inr (.inl rfl))⟩
      | _ => exact ⟨.internalServerError, by simp only [hother], .inr (.inr (.inr rfl))⟩

theorem passed_eq_false_iff {now coreNow : DateTime} :
    (value.expiration.any fun e => decide (e.nanos now ≤ coreNow.nanos)) = false ↔
      ∀ e ∈ value.expiration, coreNow.nanos < e.nanos now := by
  cases value.expiration <;> simp

theorem code_insertionStatus (error : DbError) :
    (insertionStatus error).code ≠ .invalidArgument := by
  cases error <;> decide

/-- `InvalidArgument` arrives exactly if the expiration has passed. -/
theorem inTime_iff (haccepted : env.tryFrom prost parseUrl value = .ok (.ok request)) :
    env.InTime value ↔ ∀ status,
      callCreateLink (env.handled prost request) env.delivery = .error status →
        status.code ≠ .invalidArgument := by
  obtain ⟨expiration, hhandled⟩ := createLink_of_accepted haccepted
  cases hdelivery : env.delivery with
  | failed status =>
    constructor
    · intro htime status' hreply
      obtain rfl := Except.error.inj hreply
      exact htime.transport status hdelivery
    · intro hcode
      refine ⟨fun h => ?_, fun status' h => ?_⟩
      · rw [hdelivery] at h
        cases h
      · obtain rfl := Delivery.failed.inj (hdelivery.symm.trans h)
        exact hcode status rfl
  | answered =>
    have htransport : ∀ status, env.delivery = .failed status → status.code ≠ .invalidArgument :=
      fun status h => by
        rw [hdelivery] at h
        cases h
    rw [hhandled]
    cases hshort : value.shortCode.or (generateShortCode env.repository env.randomStrings) with
    | none =>
      refine ⟨fun _ status hreply => ?_, fun _ => ⟨fun _ hsome => ?_, htransport⟩⟩
      · obtain rfl := Except.error.inj hreply
        decide
      · rw [hshort] at hsome
        cases hsome
    | some code =>
      cases hpassed : value.expiration.any
          (fun e => decide (e.nanos env.now ≤ env.coreNow.nanos)) with
      | true =>
        -- the core service refuses
        refine ⟨fun htime => ?_, fun hcode => absurd rfl (hcode _ rfl)⟩
        have hnot := passed_eq_false_iff.mpr
          (htime.expiration hdelivery (by rw [hshort]; rfl))
        rw [hpassed] at hnot
        cases hnot
      | false =>
        refine ⟨fun _ status hreply => ?_, fun _ => ⟨fun _ _ => ?_, htransport⟩⟩
        · -- the repository decides
          simp only [Bool.false_eq_true, if_false] at hreply
          cases hinsert : env.repository.createLink code request.target expiration with
          | ok pg =>
            rw [hinsert] at hreply
            cases hreply
          | error error =>
            rw [hinsert] at hreply
            obtain rfl := Except.error.inj hreply
            exact code_insertionStatus error
        · exact passed_eq_false_iff.mp hpassed

/-- **The gateway's check does not imply the core service's.** For every request that `TryFrom`
accepts, and whatever the database and the transport do: the handler answers, and a refusal with
400, if and only if the expiration has not passed when the core service compares it. -/
theorem create_answers_iff (haccepted : env.tryFrom prost parseUrl value = .ok (.ok request)) :
    env.Answers prost parseUrl value request ↔ env.InTime value := by
  rw [inTime_iff haccepted]
  have hrespond := respond_of_accepted haccepted
  rcases replyStatus_cases (callCreateLink (env.handled prost request) env.delivery) with
    ⟨status, hreply, hcode, panic, hpanic⟩ | ⟨hcode, status, hstatus, hkind⟩
  · -- the handler has no arm for the code
    constructor
    · rintro ⟨⟨status', hok, -⟩, -⟩
      rw [hrespond, hpanic] at hok
      cases hok
    · intro hother
      exact absurd hcode (hother status hreply)
  · refine ⟨fun _ => hcode, fun _ => ⟨⟨status, hrespond.trans hstatus, hkind⟩, ?_⟩⟩
    rintro ⟨hdelivery, refusal, hhandled, hrefusal⟩
    refine absurd hrefusal (hcode refusal ?_)
    rw [hdelivery, hhandled]
    rfl

end Answers

/-- A link that lives for five milliseconds, and a core service that reads its clock ten
milliseconds after the gateway: the reply comes well within the timeout of the call. -/
def inFiveMillis : CreateLinkReq :=
  ⟨some "a", "https://example.org/", some (.duration ⟨5000000, by decide, by decide⟩)⟩

def tenMillisLater : CreateEnv where
  now := DateTime.unixEpoch
  now' := DateTime.unixEpoch
  coreNow := ⟨10000000, by decide, by decide⟩
  repository := Postgres.empty.repository
  randomStrings := []
  delivery := .answered

/-- The request is accepted, and the handler panics. -/
theorem inFiveMillis_panics :
    (∃ request, tenMillisLater.tryFrom prostWkt some inFiveMillis = .ok (.ok request)) ∧
      tenMillisLater.respond prostWkt some inFiveMillis =
        .error ⟨"not yet implemented: also check other codes and handlers"⟩ :=
  ⟨⟨⟨some "a", "https://example.org/", some ⟨0, 5000000⟩⟩, by decide⟩, by decide⟩

/-- A core service that is in time. -/
theorem create_answers_iff_inFiveMillis :
    ∃ request, { tenMillisLater with coreNow := DateTime.unixEpoch }.Answers prostWkt some
      inFiveMillis request := by
  refine ⟨⟨some "a", "https://example.org/", some ⟨0, 5000000⟩⟩, ?_⟩
  rw [create_answers_iff (by decide)]
  exact ⟨by decide, fun status h => by cases h⟩

/-! ## Short codes -/

/-- What can fail beyond the request itself. -/
inductive CreateFailure where
  | database (error : DbError)
  | transport (status : Status)

/-- A request on these tables, with or without a failure. -/
def CreateEnv.on (env : CreateEnv) (pg : Postgres) : Option CreateFailure → CreateEnv
  | none => { env with repository := pg.repository, delivery := .answered }
  | some (.database error) =>
    { env with
      repository := { pg.repository with createLink := fun _ _ _ => .error error }
      delivery := .answered }
  | some (.transport status) =>
    { env with repository := pg.repository, delivery := .failed status }

/-- The check constraint `short_code_length`. -/
def ValidShortCode (code : String) : Prop := 0 < code.length ∧ code.length ≤ 40

instance (code : String) : Decidable (ValidShortCode code) :=
  inferInstanceAs (Decidable (_ ∧ _))

/-- The statuses of a request with this code: 400 for a code that violates the constraint, 409 for
one that is taken, 200 for any other; 500 only for a failure. -/
structure ShortCodeStatuses (pg : Postgres) (code : String)
    (respond : Option CreateFailure → Panics StatusCode) : Prop where
  badRequest : respond none = .ok .badRequest ↔ ¬ ValidShortCode code
  conflict : respond none = .ok .conflict ↔ ValidShortCode code ∧ pg.linkExists code = true
  ok : respond none = .ok .ok ↔ ValidShortCode code ∧ pg.linkExists code = false
  internal : ∀ failure, respond failure = .ok .internalServerError → failure.isSome = true

section ShortCodes

variable {prost : ProstWkt} {parseUrl : String → Option String} {env : CreateEnv}
  {value : CreateLinkReq} {request : CreateLinkRequest} {pg : Postgres} {code : String}

/-- Without a failure the status is the one of the insertion. -/
theorem respond_on_none (haccepted : env.tryFrom prost parseUrl value = .ok (.ok request))
    (hcode : value.shortCode = some code)
    (hfuture : ∀ e ∈ value.expiration, env.coreNow.nanos < e.nanos env.now) :
    (env.on pg none).respond prost parseUrl value =
      .ok (if ValidShortCode code ∧ Postgres.hasNul code = false then
        if pg.linkExists code then .conflict else .ok
      else .internalServerError) := by
  have haccepted' : (env.on pg none).tryFrom prost parseUrl value = .ok (.ok request) := haccepted
  obtain ⟨expiration, hhandled⟩ := createLink_of_accepted haccepted'
  have hpassed : (value.expiration.any fun e =>
      decide (e.nanos (env.on pg none).now ≤ (env.on pg none).coreNow.nanos)) = false :=
    passed_eq_false_iff.mpr hfuture
  rw [respond_of_accepted haccepted', hhandled, hcode, Option.some_or, hpassed]
  show replyStatus (callCreateLink (.ok (((pg.createLink code request.target expiration).mapError
    insertionStatus).map fun pg => (⟨code⟩, pg))) .answered) = _
  by_cases hvalid : ValidShortCode code ∧ Postgres.hasNul code = false
  · have hroom : Postgres.HasRoom code := ⟨hvalid.2, hvalid.1⟩
    rw [Postgres.createLink_of_hasRoom hroom, if_pos hvalid]
    cases pg.linkExists code <;> rfl
  · have hroom : ¬ Postgres.HasRoom code := fun hroom => hvalid ⟨hroom.2, hroom.1⟩
    rw [Postgres.createLink_of_not_hasRoom hroom, if_neg hvalid]
    rfl

/-- **The layers agree on valid short codes only.** For every request with a chosen short code, a
valid target and an expiration that is still to come: the statuses are those of the check constraint
if and only if the code satisfies it and has no NUL. Of a code that Postgres does not take the
gateway only learns that the database refused it. -/
theorem shortCode_status_iff (haccepted : env.tryFrom prost parseUrl value = .ok (.ok request))
    (hcode : value.shortCode = some code)
    (hfuture : ∀ e ∈ value.expiration, env.coreNow.nanos < e.nanos env.now) (pg : Postgres) :
    ShortCodeStatuses pg code (fun failure => (env.on pg failure).respond prost parseUrl value) ↔
      ValidShortCode code ∧ Postgres.hasNul code = false := by
  have hrespond : (env.on pg none).respond prost parseUrl value = _ :=
    respond_on_none haccepted hcode hfuture
  constructor
  · intro hstatuses
    by_contra hinvalid
    -- the violated constraint, or NUL, is an error of the database like any other
    rw [if_neg hinvalid] at hrespond
    cases hstatuses.internal none hrespond
  · intro hroom
    obtain ⟨hvalid, -⟩ := id hroom
    rw [if_pos hroom] at hrespond
    refine ⟨?_, ?_, ?_, fun failure hinternal => ?_⟩
    · rw [hrespond]
      cases pg.linkExists code <;> simp [hvalid]
    · rw [hrespond]
      cases pg.linkExists code <;> simp [hvalid]
    · rw [hrespond]
      cases pg.linkExists code <;> simp [hvalid]
    · cases failure with
      | none =>
        rw [hrespond] at hinternal
        cases hexists : pg.linkExists code <;> simp [hexists] at hinternal
      | some failure => rfl

end ShortCodes

/-- A request with a short code and nothing else. -/
def chosenCode (code : String) : CreateLinkReq := ⟨some code, "https://example.org/", none⟩

/-- The empty short code violates the constraint, and is answered with 500 without a failure. -/
theorem emptyCode_internal :
    ¬ ValidShortCode "" ∧
      (tenMillisLater.tryFrom prostWkt some (chosenCode "")).toOption.isSome = true ∧
      (tenMillisLater.on Postgres.empty none).respond prostWkt some (chosenCode "") =
        .ok .internalServerError := by
  decide

theorem shortCode_status_iff_chosen : ShortCodeStatuses Postgres.empty "a" fun failure =>
    (tenMillisLater.on Postgres.empty failure).respond prostWkt some (chosenCode "a") := by
  have haccepted : tenMillisLater.tryFrom prostWkt some (chosenCode "a") =
      .ok (.ok ⟨some "a", "https://example.org/", none⟩) := by decide
  exact (shortCode_status_iff haccepted rfl (fun e he => by cases he) Postgres.empty).mpr
    (by decide)

end Kurl
