import Mathlib.Algebra.Order.BigOperators.Group.List
import Mathlib.Data.Int.ModEq
import Mathlib.Tactic.Ring

/-!
# 64-bit integers and IEEE doubles inside `Int`

Counters are kept as mathematical integers and the places where a width matters say so:
`wrapI64` is two's-complement reduction, `addWrapping` addition without overflow checks,
`addChecked` addition that refuses to leave the range, and `toDouble` the integer nearest
to a given one among those a 53-bit significand can hold.

A sum that is accumulated with wrapping is the wrapped sum (`foldl_addWrapping`), and a double holds
the integers below `2^53` (`toDouble_of_lt`). Everything else about a width is arithmetic.
-/

namespace Lib

def i64Max : Int := 2 ^ 63 - 1

def i64Min : Int := -2 ^ 63

/-- Reduction modulo `2^64` into the signed range. -/
def wrapI64 (n : Int) : Int := Int.bmod n (2 ^ 64)

/-- Signed 64-bit addition without overflow checks. -/
def addWrapping (a b : Int) : Int := wrapI64 (a + b)

/-- Signed 64-bit addition that fails on overflow. -/
def addChecked (a b : Int) : Option Int :=
  if i64Min ≤ a + b ∧ a + b ≤ i64Max then some (a + b) else none

theorem wrapI64_of_mem {n : Int} (h : i64Min ≤ n ∧ n ≤ i64Max) : wrapI64 n = n := by
  obtain ⟨hlo, hhi⟩ := h
  unfold i64Min at hlo
  unfold i64Max at hhi
  exact Int.bmod_eq_of_le (by omega) (by omega)

@[simp] theorem wrapI64_zero : wrapI64 0 = 0 := rfl

theorem wrapI64_add_wrapI64 (a b : Int) : wrapI64 (wrapI64 a + b) = wrapI64 (a + b) :=
  Int.bmod_add_bmod

/-- A loop that accumulates without overflow checks computes the wrapped sum. -/
theorem foldl_addWrapping (l : List Int) (a : Int) :
    l.foldl addWrapping (wrapI64 a) = wrapI64 (a + l.sum) := by
  induction l generalizing a with
  | nil => simp
  | cons x l ih =>
    rw [List.foldl_cons, addWrapping, wrapI64_add_wrapI64, ih, List.sum_cons]
    congr 1
    ring

/-- Wrapped and floored at zero, a natural number stays itself exactly if it is in range. -/
theorem max_wrapI64_eq_iff {n : Int} (hn : 0 ≤ n) : max (wrapI64 n) 0 = n ↔ n ≤ i64Max := by
  constructor
  · intro heq
    have hlt : wrapI64 n ≤ i64Max := by
      have hbound := @Int.bmod_lt n (2 ^ 64) (by decide)
      unfold wrapI64 i64Max
      omega
    have hmax : (0 : Int) ≤ i64Max := by decide
    rw [← heq]
    exact max_le hlt hmax
  · intro hle
    rw [wrapI64_of_mem ⟨by unfold i64Min; omega, hle⟩, max_eq_left hn]

/-! ## Doubles -/

/-- Round a natural number to 53 significant bits, ties to even. -/
def roundDouble (m : Nat) : Nat :=
  let e := m.log2 + 1 - 53
  let q := m / 2 ^ e
  let r := m % 2 ^ e
  if 2 * r < 2 ^ e ∨ (2 * r = 2 ^ e ∧ q % 2 = 0) then q * 2 ^ e else (q + 1) * 2 ^ e

/-- The double nearest to an integer. -/
def toDouble (n : Int) : Int := n.sign * roundDouble n.natAbs

theorem roundDouble_of_lt {m : Nat} (h : m < 2 ^ 53) : roundDouble m = m := by
  have he : m.log2 + 1 - 53 = 0 := by
    have hlog : m.log2 < 53 := by
      by_cases hm : m = 0
      · simp [hm]
      · exact (Nat.log2_lt hm).mpr h
    omega
  simp [roundDouble, he, Nat.mod_one]

/-- Integers below `2^53` in absolute value are exact doubles. -/
theorem toDouble_of_lt {n : Int} (h : -2 ^ 53 < n ∧ n < 2 ^ 53) : toDouble n = n := by
  have habs : n.natAbs < 2 ^ 53 := by omega
  rw [toDouble, roundDouble_of_lt habs]
  exact Int.sign_mul_natAbs n

end Lib
