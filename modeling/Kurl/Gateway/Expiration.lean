import Kurl.Gateway.Create

/-!
# Kurl — the way of an expiration (`gateway/src/api/create.rs`, `core/src/grpc.rs`)

An expiration is a chrono instant in the gateway, a protobuf `Timestamp` on the wire, a `SystemTime`
and again a chrono instant in the core service. Three steps of the way are unchecked:

* the gateway adds a duration to the clock, which may leave the range of `chrono`;
* the core service converts a `SystemTime` to `chrono`, whose range is smaller;
* normalizing a `Timestamp` carries the second that a leap second has in its fraction.

`tryFrom_returns_iff`, `timestampToDatetime_returns_iff` and `carried_toUtc_iff` say for which
values each of them goes well; `expirationPipeline_iff` puts them together.

The first two of them can panic. The third cannot: a leap second arrives, as another instant.
`expirationPipeline_fails` has a value for each of the three.
-/

namespace Kurl

open Lib

/-- The expiration pipeline for one request and one message: the gateway and the core service
answer, and what the gateway sends is decoded to the instant that it computed. -/
structure ExpirationPipeline (prost : ProstWkt) (parseUrl : String → Option String)
    (now now' : DateTime) (value : CreateLinkReq) (timestamp : Timestamp) : Prop where
  gateway : ∃ result, CreateLinkRequest.tryFrom prost parseUrl now now' value = .ok result
  core : ∃ decoded, timestampToDatetime prost timestamp = .ok decoded ∧
    ∀ status, decoded = .error status → status.code = .invalidArgument
  lossless : ∀ request sent,
    CreateLinkRequest.tryFrom prost parseUrl now now' value = .ok (.ok request) →
      request.expiration = some sent →
        ∃ computed decoded, resolveExpiration now value.expiration = .ok (some computed) ∧
          timestampToDatetime prost sent = .ok (.ok decoded) ∧ decoded.toUtc = computed

/-- What the three conversions can represent: the sum of the clock and the duration, the instant of
the message, and an instant to come in a request with a valid target. -/
structure Representable (prost : ProstWkt) (parseUrl : String → Option String)
    (now now' : DateTime) (value : CreateLinkReq) (timestamp : Timestamp) : Prop where
  duration : ∀ d, value.expiration = some (.duration d) → now.nanos + d.nanos ≤ maxUtc
  timestamp : ∀ nanos ∈ prost.toSystemTime timestamp, minUtc ≤ nanos ∧ nanos ≤ maxUtc
  dateTime : ∀ t, value.expiration = some (.dateTime t) → t.after now'.toUtc = true →
    (parseUrl value.target).isSome = true → t.isLeap = false

section Pipeline

variable {prost : ProstWkt} {parseUrl : String → Option String} {now now' : DateTime}
  {value : CreateLinkReq}

/-! ## The gateway -/

/-- Only the addition panics. -/
theorem resolveExpiration_returns_iff {expiration : Option Expiration} :
    (∃ t, resolveExpiration now expiration = .ok t) ↔
      ∀ d, expiration = some (.duration d) → now.nanos + d.nanos ≤ maxUtc := by
  rcases expiration with _ | t | d
  · exact ⟨fun _ _ h => (by cases h), fun _ => ⟨none, rfl⟩⟩
  · exact ⟨fun _ _ h => (by cases h), fun _ => ⟨some t, rfl⟩⟩
  · by_cases hle : now.nanos + d.nanos ≤ maxUtc
    · have hadd : ∃ sum, now.add d = .ok sum := ⟨_, dif_pos hle⟩
      obtain ⟨sum, hsum⟩ := hadd
      refine ⟨fun _ d' h => ?_, fun _ => ⟨some sum.toUtc, ?_⟩⟩
      · cases h
        exact hle
      · show (now.add d).map (fun t => some t.toUtc) = _
        rw [hsum]
        rfl
    · have hadd : now.add d = .error ⟨"`DateTime + TimeDelta` overflowed"⟩ := dif_neg hle
      refine ⟨?_, fun h => absurd (h d rfl) hle⟩
      rintro ⟨t, ht⟩
      have hmap : (now.add d).map (fun t => some t.toUtc) = .ok t := ht
      rw [hadd] at hmap
      cases hmap

/-- Past the first match `try_from` returns. -/
theorem tryFrom_returns_iff :
    (∃ result, CreateLinkRequest.tryFrom prost parseUrl now now' value = .ok result) ↔
      ∀ d, value.expiration = some (.duration d) → now.nanos + d.nanos ≤ maxUtc := by
  rw [← resolveExpiration_returns_iff]
  unfold CreateLinkRequest.tryFrom
  cases resolveExpiration now value.expiration with
  | error panic => exact ⟨fun ⟨_, h⟩ => (by cases h), fun ⟨_, h⟩ => (by cases h)⟩
  | ok expiration =>
    refine ⟨fun _ => ⟨expiration, rfl⟩, fun _ => ?_⟩
    cases hencode : encodeExpiration prost now' expiration with
    | error error => exact ⟨.error error, by simp only [hencode]⟩
    | ok timestamp =>
      cases hurl : parseUrl value.target with
      | none => exact ⟨.error .invalidTarget, by simp only [hencode]⟩
      | some target =>
        exact ⟨.ok ⟨value.shortCode, target, timestamp⟩, by simp only [hencode]⟩

/-- What is sent is the computed instant, which is still to come. -/
theorem encodeExpiration_eq_some {expiration : Option UtcDateTime} {sent : Timestamp} :
    encodeExpiration prost now' expiration = .ok (some sent) ↔
      ∃ t, expiration = some t ∧ t.after now'.toUtc = true ∧
        sent = ⟨t.timestamp, t.subsecNanos⟩ := by
  cases expiration with
  | none => exact ⟨fun h => (by cases h), fun ⟨_, h, _⟩ => (by cases h)⟩
  | some t =>
    unfold encodeExpiration
    by_cases hafter : t.after now'.toUtc = true
    · simp only [prost.ofDateTime_eq, hafter, if_true, Except.ok.injEq, Option.some.injEq,
        exists_eq_left', true_and]
      exact eq_comm
    · simp [hafter]

/-! ## Leap seconds -/

/-- **What is lost on the way**: nothing but leap seconds. -/
theorem carried_toUtc_iff {t : UtcDateTime} : t.carried.toUtc = t ↔ t.isLeap = false := by
  constructor
  · intro heq
    rw [← heq]
    exact t.carried.isLeap_toUtc
  · intro hleap
    exact UtcDateTime.eq_of_nanos t.carried.isLeap_toUtc hleap t.carried.nanos_toUtc

/-- A computed instant that is a leap second was written by the client. -/
theorem isLeap_resolveExpiration {t : UtcDateTime}
    (h : resolveExpiration now value.expiration = .ok (some t)) :
    t.isLeap = false ∨ value.expiration = some (.dateTime t) := by
  rcases hexp : value.expiration with _ | t' | d
  · rw [hexp] at h
    cases h
  · rw [hexp] at h
    cases h
    exact .inr rfl
  · rw [hexp] at h
    obtain ⟨sum, -, hsum⟩ := exceptMap_eq_ok h
    exact .inl (Option.some.inj hsum ▸ sum.isLeap_toUtc)

/-- The pipeline is lossless for a request unless it is sent with a leap second. -/
theorem lossless_iff :
    (∀ request sent, CreateLinkRequest.tryFrom prost parseUrl now now' value = .ok (.ok request) →
      request.expiration = some sent →
        ∃ computed decoded, resolveExpiration now value.expiration = .ok (some computed) ∧
          timestampToDatetime prost sent = .ok (.ok decoded) ∧ decoded.toUtc = computed) ↔
      ∀ t, value.expiration = some (.dateTime t) → t.after now'.toUtc = true →
        (parseUrl value.target).isSome = true → t.isLeap = false := by
  constructor
  · intro hlossless t hexp hafter hurl
    obtain ⟨target, htarget⟩ := Option.isSome_iff_exists.mp hurl
    have hresolve : resolveExpiration now value.expiration = .ok (some t) := by rw [hexp]; rfl
    have hencode : encodeExpiration prost now' (some t) =
        .ok (some ⟨t.timestamp, t.subsecNanos⟩) :=
      encodeExpiration_eq_some.mpr ⟨t, rfl, hafter, rfl⟩
    have htry : CreateLinkRequest.tryFrom prost parseUrl now now' value =
        .ok (.ok ⟨value.shortCode, target, some ⟨t.timestamp, t.subsecNanos⟩⟩) := by
      unfold CreateLinkRequest.tryFrom
      simp only [hresolve, hencode, htarget]
    obtain ⟨computed, decoded, hcomputed, hdecoded, heq⟩ := hlossless _ _ htry rfl
    obtain rfl := Option.some.inj (Except.ok.inj (hresolve.symm.trans hcomputed))
    -- the core service decodes to the carried instant
    have hcarried := timestampToDatetime_of_system (t := t.carried)
      (prost.toSystemTime_ofDateTime t)
    obtain rfl := Except.ok.inj (Except.ok.inj (hcarried.symm.trans hdecoded))
    exact carried_toUtc_iff.mp heq
  · intro hleap request sent htry hsent
    obtain ⟨expiration, hresolve, hencode, hurl, -⟩ := tryFrom_ok htry
    rw [hsent] at hencode
    obtain ⟨t, rfl, hafter, rfl⟩ := encodeExpiration_eq_some.mp hencode
    refine ⟨t, t.carried, hresolve,
      timestampToDatetime_of_system (prost.toSystemTime_ofDateTime t), ?_⟩
    rw [carried_toUtc_iff]
    rcases isLeap_resolveExpiration hresolve with hno | hexp
    · exact hno
    · exact hleap t hexp hafter (by rw [hurl]; rfl)

/-- **The pipeline is total and lossless for what every stage can represent**, and for nothing
else. -/
theorem expirationPipeline_iff (prost : ProstWkt) (parseUrl : String → Option String)
    (now now' : DateTime) (value : CreateLinkReq) (timestamp : Timestamp) :
    ExpirationPipeline prost parseUrl now now' value timestamp ↔
      Representable prost parseUrl now now' value timestamp := by
  constructor
  · rintro ⟨hgateway, ⟨decoded, hcore, -⟩, hlossless⟩
    exact ⟨tryFrom_returns_iff.mp hgateway,
      (timestampToDatetime_returns_iff prost timestamp).mp ⟨decoded, hcore⟩,
      lossless_iff.mp hlossless⟩
  · rintro ⟨hduration, htimestamp, hleap⟩
    obtain ⟨decoded, hcore⟩ := (timestampToDatetime_returns_iff prost timestamp).mpr htimestamp
    refine ⟨tryFrom_returns_iff.mpr hduration, ⟨decoded, hcore, ?_⟩, lossless_iff.mpr hleap⟩
    rintro status rfl
    exact code_of_timestampToDatetime hcore

end Pipeline

/-- `"300000years"` of `humantime`. -/
def threeHundredMillennia : CreateLinkReq :=
  ⟨none, "https://example.org/",
    some (.duration ⟨300000 * 31557600 * 1000000000, by decide, by decide⟩)⟩

/-- `"1970-01-01T00:01:60Z"` -/
def leapSecond : UtcDateTime :=
  ⟨119, secondNanos, by decide, by decide, by decide, by decide⟩

/-- Each of the three can fail: the sum overflows, the message is beyond `chrono`, and a leap second
becomes the second after it. -/
theorem expirationPipeline_fails :
    (¬ ∃ result, CreateLinkRequest.tryFrom prostWkt some DateTime.unixEpoch DateTime.unixEpoch
        threeHundredMillennia = .ok result) ∧
      (¬ ∃ decoded, timestampToDatetime prostWkt ⟨10000000000000, 0⟩ = .ok decoded) ∧
      CreateLinkRequest.tryFrom prostWkt some DateTime.unixEpoch DateTime.unixEpoch
          ⟨none, "https://example.org/", some (.dateTime leapSecond)⟩ =
        .ok (.ok ⟨none, "https://example.org/", some ⟨119, 1000000000⟩⟩) ∧
      ((timestampToDatetime prostWkt ⟨119, 1000000000⟩).map fun decoded =>
        decoded.map fun t => (t.toUtc.timestamp, t.toUtc.subsecNanos)) = .ok (.ok (120, 0)) := by
  refine ⟨?_, ?_, by decide, by decide⟩
  · rintro ⟨result, h⟩
    have hpanic : CreateLinkRequest.tryFrom prostWkt some DateTime.unixEpoch DateTime.unixEpoch
        threeHundredMillennia = .error ⟨"`DateTime + TimeDelta` overflowed"⟩ := by decide
    cases hpanic.symm.trans h
  · rintro ⟨decoded, h⟩
    have hpanic : timestampToDatetime prostWkt ⟨10000000000000, 0⟩ =
        .error ⟨"No such local time"⟩ := by decide
    cases hpanic.symm.trans h

theorem expirationPipeline_iff_inFiveMillis :
    ExpirationPipeline prostWkt some DateTime.unixEpoch DateTime.unixEpoch inFiveMillis ⟨1, 0⟩ := by
  refine (expirationPipeline_iff _ _ _ _ _ _).mpr ⟨fun d h => ?_, by decide, fun t h => ?_⟩
  · cases h
    decide
  · cases h

end Kurl
