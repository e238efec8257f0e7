import Kurl.Core.Service
import Kurl.Wire

/-!
# Kurl — creating a link (`core/src/grpc.rs`)

`LinkService::create_link` up to its insertion: the short code is drawn unless the client chose one,
the expiration is decoded and compared to the clock, and the repository decides about the rest.
`createLink_step` connects it with the step `createLink` of the service in `Kurl.Core.Service`,
which sends the `CacheOp` as well.

`LinkRepository` is the trait of `core/src/db.rs`: any behaviour of the database, errors included.
`Postgres.repository` is the one without failures.

A conversion of the source that can panic returns `Panics`, so that a handler that dies is told
apart from one that answers with an error. The random codes are a list that the caller gives: one
for each attempt.
-/

namespace Kurl

open Lib

/-- `LinkRepository`, as far as `create_link` uses it. An insertion leaves the tables. -/
structure LinkRepository where
  linkExists : String → Except DbError Bool
  createLink : String → String → Option DateTime → Except DbError Postgres

/-- The tables, while no query fails. -/
def Postgres.repository (pg : Postgres) : LinkRepository where
  linkExists shortCode := .ok (pg.linkExists shortCode)
  createLink := pg.createLink

/-- `RETRIES` of `generate_short_code`. -/
def retries : Nat := 10

/-- `generate_short_code`: the first of the random strings that is known to be free. -/
def generateShortCode (repository : LinkRepository) (randomStrings : List String) : Option String :=
  (randomStrings.take retries).find? fun code =>
    match repository.linkExists code with
    | .ok false => true
    | _ => false

/-- `timestamp_to_datetime`. `DateTime::from(SystemTime)` panics outside the range of `chrono`. -/
def timestampToDatetime (prost : ProstWkt) (timestamp : Timestamp) :
    Panics (Except Status DateTime) :=
  match prost.toSystemTime timestamp with
  | none => .ok (.error ⟨.invalidArgument, "Invalid expiration timestamp"⟩)
  | some nanos =>
    if h : minUtc ≤ nanos ∧ nanos ≤ maxUtc then .ok (.ok ⟨nanos, h.1, h.2⟩)
    else .error ⟨"No such local time"⟩

/-- `expiration.map(timestamp_to_datetime).transpose()` -/
def decodeExpiration (prost : ProstWkt) :
    Option Timestamp → Panics (Except Status (Option DateTime))
  | none => .ok (.ok none)
  | some timestamp => (timestampToDatetime prost timestamp).map fun decoded => decoded.map some

/-- The `map_err` of the insertion. -/
def insertionStatus : DbError → Status
  | .conflict => ⟨.alreadyExists, "Short code already exists"⟩
  | _ => ⟨.internal, "Failed to create link"⟩

namespace LinkService

/-- `LinkService::create_link`, with the tables that the insertion leaves. -/
def createLink (prost : ProstWkt) (repository : LinkRepository) (randomStrings : List String)
    (now : DateTime) (request : CreateLinkRequest) :
    Panics (Except Status (CreateLinkResponse × Postgres)) :=
  match request.shortCode.or (generateShortCode repository randomStrings) with
  | none => .ok (.error ⟨.internal, "Failed to generate a unique short code"⟩)
  | some shortCode =>
    match decodeExpiration prost request.expiration with
    | .error panic => .error panic
    | .ok (.error status) => .ok (.error status)
    | .ok (.ok expiration) =>
      if expiration.any (fun expiration => expiration ≤ now) then
        .ok (.error ⟨.invalidArgument, "Expiration must be in the future"⟩)
      else
        .ok (((repository.createLink shortCode request.target expiration).mapError
          insertionStatus).map fun pg => (⟨shortCode⟩, pg))

end LinkService

section Decode

variable {prost : ProstWkt}

/-- An instant in the range of `chrono` is decoded to itself. -/
theorem timestampToDatetime_of_system {timestamp : Timestamp} {t : DateTime}
    (h : prost.toSystemTime timestamp = some t.nanos) :
    timestampToDatetime prost timestamp = .ok (.ok t) := by
  unfold timestampToDatetime
  rw [h]
  exact dif_pos ⟨t.lower, t.upper⟩

/-- **When decoding panics**: on an instant that the system can represent and `chrono` cannot. -/
theorem timestampToDatetime_returns_iff (prost : ProstWkt) (timestamp : Timestamp) :
    (∃ decoded, timestampToDatetime prost timestamp = .ok decoded) ↔
      ∀ nanos ∈ prost.toSystemTime timestamp, minUtc ≤ nanos ∧ nanos ≤ maxUtc := by
  unfold timestampToDatetime
  cases prost.toSystemTime timestamp with
  | none => exact ⟨fun _ nanos hnanos => (by cases hnanos), fun _ => ⟨_, rfl⟩⟩
  | some nanos =>
    simp only [Option.mem_some_iff, forall_eq']
    by_cases hrange : minUtc ≤ nanos ∧ nanos ≤ maxUtc
    · exact ⟨fun _ => hrange, fun _ => ⟨_, dif_pos hrange⟩⟩
    · refine ⟨?_, fun h => absurd h hrange⟩
      rintro ⟨decoded, hdecoded⟩
      rw [dif_neg hrange] at hdecoded
      cases hdecoded

/-- It refuses an instant with `InvalidArgument` and nothing else. -/
theorem code_of_timestampToDatetime {timestamp : Timestamp} {status : Status}
    (h : timestampToDatetime prost timestamp = .ok (.error status)) :
    status.code = .invalidArgument := by
  unfold timestampToDatetime at h
  split at h
  · obtain rfl := Except.error.inj (Except.ok.inj h)
    rfl
  · split at h <;> cases h

end Decode

/-- **The handler is the step of the service.** For a code and a decoded expiration it leaves the
tables, and the request to come, that the step `createLink` leaves. -/
theorem createLink_step {prost : ProstWkt} {st : CoreState} {now : DateTime}
    (hnow : st.now = now.nanos) (cacheTtl : Nat) (randomStrings : List String)
    {request : CreateLinkRequest} {code : String} (hcode : request.shortCode = some code)
    {expiration : Option DateTime}
    (hexpiration : decodeExpiration prost request.expiration = .ok (.ok expiration)) :
    st.step cacheTtl (.createLink code request.target expiration) =
      match LinkService.createLink prost st.pg.repository randomStrings now request with
      | .ok (.ok (_, pg)) => some { st with
          pg := pg
          requests := st.requests ++ [.created code request.target expiration] }
      | _ => some st := by
  unfold LinkService.createLink CoreState.step CoreState.expired
  simp only [hcode, Option.some_or, hexpiration, hnow]
  by_cases hexpired :
      (expiration.any fun expiration => decide (expiration.nanos ≤ now.nanos)) = true
  · have hle : (expiration.any fun expiration => decide (expiration ≤ now)) = true := hexpired
    rw [if_pos hexpired, if_pos hle]
  · have hle : ¬ (expiration.any fun expiration => decide (expiration ≤ now)) = true := hexpired
    rw [if_neg hexpired, if_neg hle]
    simp only [Postgres.repository]
    cases st.pg.createLink code request.target expiration <;> rfl

end Kurl
