import Mathlib.Algebra.Group.Nat.Defs
import Mathlib.Order.Basic
import Mathlib.Order.Lattice

/-!
# Durations of seconds and nanoseconds

A 64-bit count of seconds and a fraction below a second. `toNanos` is the length it stands for; the
order compares lengths (`le_iff`), and the multiplication that saturates is the product cut off at
the longest duration (`toNanos_saturatingMul`).

The multiplication is in words, as in the standard library: the nanoseconds first, what they carry
into the seconds, and a check of each 64-bit operation (`mulU64_eq_some`, `addU64_eq_some`). It
fails exactly where the product is too long (`toNanos_checkedMul`, `lt_of_checkedMul_eq_none`).
-/

namespace Lib

@[ext] structure Duration where
  secs : UInt64
  nanos : UInt32
  nanos_lt : nanos < 1000000000
  deriving DecidableEq

namespace Duration

/-- The length in nanoseconds. -/
def toNanos (d : Duration) : Nat := d.secs.toNat * 1000000000 + d.nanos.toNat

theorem toNat_nanos_lt (d : Duration) : d.nanos.toNat < 1000000000 :=
  UInt32.lt_iff_toNat_lt.mp d.nanos_lt

theorem toNanos_injective {a b : Duration} (h : a.toNanos = b.toNanos) : a = b := by
  have ha := a.toNat_nanos_lt
  have hb := b.toNat_nanos_lt
  unfold toNanos at h
  have hsecs : a.secs.toNat = b.secs.toNat := by omega
  have hnanos : a.nanos.toNat = b.nanos.toNat := by omega
  exact Duration.ext (UInt64.toNat_inj.mp hsecs) (UInt32.toNat_inj.mp hnanos)

/-- `Duration::from_secs` -/
def fromSecs (secs : UInt64) : Duration := ⟨secs, 0, by decide⟩

def zero : Duration := fromSecs 0

/-- `Duration::MAX` -/
def max : Duration := ⟨18446744073709551615, 999999999, by decide⟩

theorem toNanos_max : max.toNanos = 2 ^ 64 * 1000000000 - 1 := by decide

theorem toNanos_le_max (d : Duration) : d.toNanos ≤ max.toNanos := by
  have hsecs := d.secs.toNat_lt
  have hnanos := d.toNat_nanos_lt
  rw [toNanos_max]
  unfold toNanos
  omega

/-- The duration of a length, for the lengths there are. -/
def ofNanos (n : Nat) : Duration where
  secs := UInt64.ofNat (n / 1000000000)
  nanos := UInt32.ofNat (n % 1000000000)
  nanos_lt := by
    have hlt := Nat.mod_lt n (show 0 < 1000000000 by decide)
    rw [UInt32.lt_iff_toNat_lt, UInt32.toNat_ofNat']
    show n % 1000000000 % 2 ^ 32 < 1000000000
    omega

theorem toNanos_ofNanos {n : Nat} (h : n ≤ max.toNanos) : (ofNanos n).toNanos = n := by
  have hlt := Nat.mod_lt n (show 0 < 1000000000 by decide)
  rw [toNanos_max] at h
  show (UInt64.ofNat (n / 1000000000)).toNat * 1000000000 + (UInt32.ofNat (n % 1000000000)).toNat = n
  rw [UInt64.toNat_ofNat', UInt32.toNat_ofNat']
  omega

/-! ## The order -/

/-- By seconds and then by nanoseconds. -/
instance : LE Duration where
  le a b := a.secs < b.secs ∨ (a.secs = b.secs ∧ a.nanos ≤ b.nanos)

instance (a b : Duration) : Decidable (a ≤ b) :=
  inferInstanceAs (Decidable (a.secs < b.secs ∨ (a.secs = b.secs ∧ a.nanos ≤ b.nanos)))

theorem le_iff {a b : Duration} : a ≤ b ↔ a.toNanos ≤ b.toNanos := by
  have ha := a.toNat_nanos_lt
  have hb := b.toNat_nanos_lt
  show (a.secs < b.secs ∨ (a.secs = b.secs ∧ a.nanos ≤ b.nanos)) ↔ _
  rw [UInt64.lt_iff_toNat_lt, ← UInt64.toNat_inj, UInt32.le_iff_toNat_le]
  unfold toNanos
  omega

/-- `min` of `std::cmp` -/
instance : Min Duration where
  min a b := if a ≤ b then a else b

/-! ## Multiplication -/

/-- `u64::checked_mul` -/
def mulU64 (a b : UInt64) : Option UInt64 :=
  if a.toNat * b.toNat < 2 ^ 64 then some (a * b) else none

/-- `u64::checked_add` -/
def addU64 (a b : UInt64) : Option UInt64 :=
  if a.toNat + b.toNat < 2 ^ 64 then some (a + b) else none

theorem mulU64_eq_some {a b c : UInt64} (h : mulU64 a b = some c) :
    c.toNat = a.toNat * b.toNat := by
  unfold mulU64 at h
  split at h
  · next hlt =>
    obtain rfl := Option.some.inj h
    rw [UInt64.toNat_mul]
    exact Nat.mod_eq_of_lt hlt
  · cases h

theorem addU64_eq_some {a b c : UInt64} (h : addU64 a b = some c) :
    c.toNat = a.toNat + b.toNat := by
  unfold addU64 at h
  split at h
  · next hlt =>
    obtain rfl := Option.some.inj h
    rw [UInt64.toNat_add]
    exact Nat.mod_eq_of_lt hlt
  · cases h

/-- The nanoseconds of a product, as a 64-bit word. -/
def totalNanos (d : Duration) (rhs : UInt32) : UInt64 := d.nanos.toUInt64 * rhs.toUInt64

/-- They do not overflow. -/
theorem toNat_totalNanos (d : Duration) (rhs : UInt32) :
    (d.totalNanos rhs).toNat = d.nanos.toNat * rhs.toNat := by
  have hnanos := d.nanos.toNat_lt
  have hrhs := rhs.toNat_lt
  have hlt : d.nanos.toNat * rhs.toNat < 2 ^ 64 := by
    calc d.nanos.toNat * rhs.toNat ≤ (2 ^ 32 - 1) * (2 ^ 32 - 1) :=
          Nat.mul_le_mul (by omega) (by omega)
      _ < 2 ^ 64 := by decide
  unfold totalNanos
  rw [UInt64.toNat_mul, UInt32.toNat_toUInt64, UInt32.toNat_toUInt64]
  exact Nat.mod_eq_of_lt hlt

theorem toNat_fraction (d : Duration) (rhs : UInt32) :
    ((d.totalNanos rhs % 1000000000).toUInt32).toNat =
      d.nanos.toNat * rhs.toNat % 1000000000 := by
  have hmod : (d.totalNanos rhs % 1000000000).toNat = d.nanos.toNat * rhs.toNat % 1000000000 := by
    rw [UInt64.toNat_mod, toNat_totalNanos]
    rfl
  rw [UInt64.toNat_toUInt32, hmod]
  omega

/-- `checked_mul` -/
def checkedMul (d : Duration) (rhs : UInt32) : Option Duration :=
  (mulU64 d.secs rhs.toUInt64).bind fun s =>
    (addU64 s (d.totalNanos rhs / 1000000000)).map fun secs =>
      { secs := secs
        nanos := (d.totalNanos rhs % 1000000000).toUInt32
        nanos_lt := by
          rw [UInt32.lt_iff_toNat_lt, toNat_fraction]
          exact Nat.mod_lt _ (by decide) }

/-- `saturating_mul` -/
def saturatingMul (d : Duration) (rhs : UInt32) : Duration := (d.checkedMul rhs).getD max

theorem toNat_extraSecs (d : Duration) (rhs : UInt32) :
    (d.totalNanos rhs / 1000000000).toNat = d.nanos.toNat * rhs.toNat / 1000000000 := by
  rw [UInt64.toNat_div, toNat_totalNanos]
  rfl

/-- The product in nanoseconds, by seconds and fraction. -/
theorem toNanos_mul (d : Duration) (k : Nat) : d.toNanos * k =
    (d.secs.toNat * k + d.nanos.toNat * k / 1000000000) * 1000000000 +
      d.nanos.toNat * k % 1000000000 := by
  have hdiv := Nat.div_add_mod (d.nanos.toNat * k) 1000000000
  unfold toNanos
  rw [Nat.add_mul, Nat.mul_right_comm]
  omega

/-- A product that is not refused is exact. -/
theorem toNanos_checkedMul {d p : Duration} {rhs : UInt32} (h : d.checkedMul rhs = some p) :
    p.toNanos = d.toNanos * rhs.toNat := by
  obtain ⟨s, hs, hsum⟩ := Option.bind_eq_some_iff.mp h
  obtain ⟨secs, hsecs, rfl⟩ := Option.map_eq_some_iff.mp hsum
  rw [toNanos, toNat_fraction, addU64_eq_some hsecs, toNat_extraSecs, mulU64_eq_some hs,
    UInt32.toNat_toUInt64, toNanos_mul]

/-- A product that is refused is longer than any duration. -/
theorem lt_of_checkedMul_eq_none {d : Duration} {rhs : UInt32} (h : d.checkedMul rhs = none) :
    max.toNanos < d.toNanos * rhs.toNat := by
  have hover : 2 ^ 64 ≤ d.secs.toNat * rhs.toNat + d.nanos.toNat * rhs.toNat / 1000000000 := by
    cases hs : mulU64 d.secs rhs.toUInt64 with
    | none =>
      -- the seconds alone overflow
      unfold mulU64 at hs
      rw [UInt32.toNat_toUInt64] at hs
      split at hs
      · cases hs
      · omega
    | some s =>
      have hsecs := Option.map_eq_none_iff.mp (Option.bind_eq_none_iff.mp h s hs)
      unfold addU64 at hsecs
      rw [toNat_extraSecs, mulU64_eq_some hs, UInt32.toNat_toUInt64] at hsecs
      split at hsecs
      · cases hsecs
      · omega
  rw [toNanos_max, toNanos_mul]
  omega

/-- **The saturating product** is the product, cut off at the longest duration. -/
theorem toNanos_saturatingMul (d : Duration) (rhs : UInt32) :
    (d.saturatingMul rhs).toNanos = min (d.toNanos * rhs.toNat) max.toNanos := by
  unfold saturatingMul
  cases hmul : d.checkedMul rhs with
  | none =>
    rw [Option.getD_none, min_eq_right]
    exact le_of_lt (lt_of_checkedMul_eq_none hmul)
  | some p =>
    rw [Option.getD_some, toNanos_checkedMul hmul, min_eq_left]
    rw [← toNanos_checkedMul hmul]
    exact toNanos_le_max p

end Duration

end Lib
