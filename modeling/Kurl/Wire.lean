import Kurl.Lib.Int64
import Kurl.Time

/-!
# Kurl — what the services tell each other (`proto`)

The codes of `tonic` and `axum` that the handlers use, and the messages of `core.proto` with the
instant in them. An instant takes four forms on its way from a client to the core service:

* `UtcDateTime` — what a client wrote, which may be a leap second;
* `Timestamp` — the protobuf message, any pair of seconds and nanoseconds;
* the `SystemTime` made from it, in nanoseconds since the Unix epoch;
* `DateTime` — what the core service computes with.

`prost-wkt-types` converts the first to the second and the second to the third. It is no code of the
repository; `ProstWkt` is what is used of it: the first conversion takes seconds and fraction as
they are, and the second carries whole seconds out of the fraction. `prostWkt` is an instance.
-/

namespace Kurl

open Lib

/-- `tonic::Code`, without the codes that no caller tells apart. -/
inductive Code where
  | notFound
  | alreadyExists
  | invalidArgument
  | failedPrecondition
  | unavailable
  | deadlineExceeded
  | internal
  | other
  deriving DecidableEq

/-- `tonic::Status` -/
structure Status where
  code : Code
  message : String
  deriving DecidableEq

/-- `axum::http::StatusCode`, for the answers of the handlers. -/
inductive StatusCode where
  /-- 200 -/
  | ok
  /-- 400 -/
  | badRequest
  /-- 404 -/
  | notFound
  /-- 409 -/
  | conflict
  /-- 410 -/
  | gone
  /-- 500 -/
  | internalServerError
  deriving DecidableEq

/-- A Rust panic. -/
structure Panic where
  message : String
  deriving DecidableEq

/-- A call that returns, or panics. -/
abbrev Panics (α : Type) := Except Panic α

/-! ## Instants -/

/-- The nanoseconds of a second. -/
def secondNanos : Int := 1000000000

/-- A `chrono::DateTime<Utc>` as it is deserialized. RFC 3339 has a second 60; `chrono` keeps it in
the second before, with a fraction of a whole second or more. -/
@[ext] structure UtcDateTime where
  timestamp : Int
  subsecNanos : Int
  nonneg : 0 ≤ subsecNanos
  lt : subsecNanos < 2 * secondNanos
  lower : minUtc ≤ timestamp * secondNanos + subsecNanos
  upper : timestamp * secondNanos + subsecNanos ≤ maxUtc
  deriving DecidableEq

namespace UtcDateTime

/-- The distance from the Unix epoch. A leap second has that of the second after it. -/
def nanos (t : UtcDateTime) : Int := t.timestamp * secondNanos + t.subsecNanos

def isLeap (t : UtcDateTime) : Bool := secondNanos ≤ t.subsecNanos

/-- `>`, which compares the seconds and then the fractions. -/
def after (t s : UtcDateTime) : Bool :=
  s.timestamp < t.timestamp ∨ (s.timestamp = t.timestamp ∧ s.subsecNanos < t.subsecNanos)

end UtcDateTime

/-- An instant that is no leap second, in the form of `UtcDateTime`. -/
def DateTime.toUtc (t : DateTime) : UtcDateTime where
  timestamp := t.nanos / secondNanos
  subsecNanos := t.nanos % secondNanos
  nonneg := Int.emod_nonneg _ (by decide)
  lt := lt_trans (Int.emod_lt_of_pos _ (by decide)) (by decide)
  lower := by
    rw [Int.ediv_mul_add_emod]
    exact t.lower
  upper := by
    rw [Int.ediv_mul_add_emod]
    exact t.upper

@[simp] theorem DateTime.nanos_toUtc (t : DateTime) : t.toUtc.nanos = t.nanos :=
  Int.ediv_mul_add_emod _ _

theorem DateTime.isLeap_toUtc (t : DateTime) : t.toUtc.isLeap = false := by
  have hlt : t.nanos % secondNanos < secondNanos := Int.emod_lt_of_pos _ (by decide)
  exact decide_eq_false (not_le.mpr hlt)

/-- Without leap seconds the distance from the epoch is the instant. -/
theorem UtcDateTime.eq_of_nanos {s t : UtcDateTime} (hs : s.isLeap = false) (ht : t.isLeap = false)
    (h : s.nanos = t.nanos) : s = t := by
  have hsub : s.subsecNanos < secondNanos := by simpa [isLeap] using hs
  have htub : t.subsecNanos < secondNanos := by simpa [isLeap] using ht
  have hspos := s.nonneg
  have htpos := t.nonneg
  unfold nanos at h
  unfold secondNanos at *
  ext <;> omega

/-! ## Messages -/

/-- `prost_wkt_types::Timestamp`: an `i64` and an `i32`. -/
structure Timestamp where
  seconds : Int
  nanos : Int
  deriving DecidableEq

/-- `proto::core::CreateLinkRequest` -/
structure CreateLinkRequest where
  shortCode : Option String
  target : String
  expiration : Option Timestamp
  deriving DecidableEq

/-- `proto::core::CreateLinkResponse` -/
structure CreateLinkResponse where
  shortCode : String
  deriving DecidableEq

/-- `proto::core::GetLinkResponse` -/
structure GetLinkResponse where
  target : String
  deriving DecidableEq

/-- The conversions of `prost-wkt-types`. From a `DateTime<Utc>` it takes the seconds and the
fraction as they are; on the way to a `SystemTime` it normalizes, so that whole seconds in the
fraction are carried. -/
structure ProstWkt where
  /-- `Timestamp::try_from(DateTime<Utc>)` -/
  ofDateTime : UtcDateTime → Option Timestamp
  /-- `SystemTime::try_from(Timestamp)`, in nanoseconds since the epoch. -/
  toSystemTime : Timestamp → Option Int
  ofDateTime_eq : ∀ t, ofDateTime t = some ⟨t.timestamp, t.subsecNanos⟩
  toSystemTime_eq : ∀ ts : Timestamp, i64Min < ts.seconds → 0 ≤ ts.nanos →
    ts.seconds + ts.nanos / secondNanos ≤ i64Max →
    toSystemTime ts = some (ts.seconds * secondNanos + ts.nanos)

/-- What the gateway sends is what a client wrote, but for leap seconds. -/
theorem ProstWkt.toSystemTime_ofDateTime (prost : ProstWkt) (t : UtcDateTime) :
    prost.toSystemTime ⟨t.timestamp, t.subsecNanos⟩ = some t.nanos := by
  have hlower := t.lower
  have hupper := t.upper
  have hnonneg := t.nonneg
  have hlt := t.lt
  refine prost.toSystemTime_eq _ ?_ t.nonneg ?_
  · unfold minUtc secondNanos at *
    unfold i64Min
    show -2 ^ 63 < t.timestamp
    omega
  · unfold maxUtc secondNanos at *
    unfold i64Max
    show t.timestamp + t.subsecNanos / 1000000000 ≤ 2 ^ 63 - 1
    omega

/-! ## Normalization -/

/-- `Timestamp::normalize`, where the seconds do not overflow. Where they do, the crate takes the first
or the last instant of the 64-bit seconds. -/
def Timestamp.normalize (ts : Timestamp) : Timestamp :=
  ⟨ts.seconds + ts.nanos / secondNanos, ts.nanos % secondNanos⟩

/-- The conversions of the crate, but for a `Timestamp` whose normalized seconds leave the 64-bit
range: the crate saturates there, at `(2^63 - 1, 10^9)` for one, where this one refuses. The gateway
sends no such `Timestamp` (`ProstWkt.toSystemTime_ofDateTime`). -/
def prostWkt : ProstWkt where
  ofDateTime t := some ⟨t.timestamp, t.subsecNanos⟩
  toSystemTime ts :=
    let normal := ts.normalize
    if i64Min < normal.seconds ∧ normal.seconds ≤ i64Max then
      some (normal.seconds * secondNanos + normal.nanos)
    else none
  ofDateTime_eq _ := rfl
  toSystemTime_eq ts hlow hnonneg hhigh := by
    have hcarry : 0 ≤ ts.nanos / secondNanos := Int.ediv_nonneg hnonneg (by decide)
    have hsplit := Int.ediv_mul_add_emod ts.nanos secondNanos
    have hrange : i64Min < ts.normalize.seconds ∧ ts.normalize.seconds ≤ i64Max :=
      ⟨by show i64Min < ts.seconds + ts.nanos / secondNanos; omega, hhigh⟩
    rw [if_pos hrange]
    congr 1
    show (ts.seconds + ts.nanos / secondNanos) * secondNanos + ts.nanos % secondNanos = _
    rw [add_mul, add_assoc, hsplit]

end Kurl
