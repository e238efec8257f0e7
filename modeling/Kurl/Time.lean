import Mathlib.Order.Lattice
import Mathlib.Algebra.Ring.Int.Defs
import Mathlib.Data.Int.Order.Basic

/-!
# Kurl — dates, instants and durations

`chrono`'s types as integers: a `NaiveDate` is a day number, a `DateTime` a number of nanoseconds
since the Unix epoch inside the range `chrono` can represent. The range is a field of `DateTime`, so
no function below has to ask whether an instant exists; the functions that can leave the range
(`timestampMillisOpt`) return an `Option`.

A leap second is no `DateTime` here. Where one matters, on its way from a client, it is a
`UtcDateTime` of `Kurl.Wire`. `toTimestamptz` is the precision of Postgres, a microsecond.
-/

namespace Kurl

/-- `chrono::NaiveDate`: days since 1970-01-01. -/
abbrev NaiveDate := Int

/-- `DateTime::<Utc>::MIN_UTC`, -262143-01-01T00:00:00, in nanoseconds. -/
def minUtc : Int := -8334601228800 * 1000000000

/-- `DateTime::<Utc>::MAX_UTC`, +262142-12-31T23:59:59.999999999, in nanoseconds. -/
def maxUtc : Int := 8210266876799 * 1000000000 + 999999999

/-- `chrono::DateTime<Utc>`. -/
@[ext] structure DateTime where
  nanos : Int
  lower : minUtc ≤ nanos
  upper : nanos ≤ maxUtc
  deriving DecidableEq

namespace DateTime

instance : LinearOrder DateTime :=
  LinearOrder.lift' DateTime.nanos fun _ _ h => DateTime.ext h

theorem le_iff {s t : DateTime} : s ≤ t ↔ s.nanos ≤ t.nanos := Iff.rfl

/-- `DateTime::UNIX_EPOCH`. -/
def unixEpoch : DateTime := ⟨0, by decide, by decide⟩

/-- `timestamp_millis`, rounded towards the past. -/
def timestampMillis (t : DateTime) : Int := t.nanos / 1000000

/-- `date_naive`, the calendar day in UTC. -/
def dateNaive (t : DateTime) : NaiveDate := t.nanos / 86400000000000

/-- `Utc.timestamp_millis_opt(ms).single()`. -/
def timestampMillisOpt (ms : Int) : Option DateTime :=
  if h : minUtc ≤ ms * 1000000 ∧ ms * 1000000 ≤ maxUtc then
    some ⟨ms * 1000000, h.1, h.2⟩
  else none

/-- A `timestamptz` keeps microseconds. The driver truncates towards 2000-01-01, which from then on
is rounding down as here. -/
def toTimestamptz (t : DateTime) : DateTime where
  nanos := t.nanos / 1000 * 1000
  lower := by
    have hlo := t.lower
    unfold minUtc at *
    omega
  upper := by
    have hhi := t.upper
    unfold maxUtc at *
    omega

/-- The millisecond timestamps of `chrono` instants are exact as doubles. -/
theorem timestampMillis_lt (t : DateTime) :
    -2 ^ 53 < t.timestampMillis ∧ t.timestampMillis < 2 ^ 53 := by
  have hlo := t.lower
  have hhi := t.upper
  unfold minUtc at hlo
  unfold maxUtc at hhi
  unfold timestampMillis
  omega

theorem nanos_of_timestampMillisOpt {ms : Int} {t : DateTime} (h : timestampMillisOpt ms = some t) :
    t.nanos = ms * 1000000 := by
  unfold timestampMillisOpt at h
  split at h
  · exact congrArg nanos (Option.some.inj h).symm
  · cases h

/-- The milliseconds of an instant are those of an instant. -/
theorem isSome_timestampMillisOpt (t : DateTime) :
    (timestampMillisOpt t.timestampMillis).isSome = true := by
  have hlo := t.lower
  have hhi := t.upper
  unfold timestampMillisOpt timestampMillis
  rw [dif_pos]
  · rfl
  · unfold minUtc at *
    unfold maxUtc at *
    omega

end DateTime

end Kurl
