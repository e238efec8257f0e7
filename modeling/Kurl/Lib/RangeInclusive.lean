import Mathlib.Data.ENat.Lattice

/-!
# Loops over an inclusive range of words

`RangeInclusive` is the iterator of `lo..=hi` on 64-bit words. It marks itself exhausted when it
yields `hi`, so that it ends also when `hi + 1` does not exist. `forEach` is a loop over it with an
early exit, and `forEach_exits` its rule: a body that goes from state to state for `m` words and
exits at the next one makes the loop exit there.

`leading` counts the positions of a sequence before the first one without a property.
-/

namespace Lib

structure RangeInclusive where
  start : UInt64
  last : UInt64
  exhausted : Bool

namespace RangeInclusive

/-- `lo..=hi` -/
def new (lo hi : UInt64) : RangeInclusive := ⟨lo, hi, false⟩

def isEmpty (r : RangeInclusive) : Bool := r.exhausted || r.last < r.start

/-- The next word, and the range after it. -/
def next (r : RangeInclusive) : Option (UInt64 × RangeInclusive) :=
  if r.isEmpty then none
  else if r.start < r.last then some (r.start, { r with start := r.start + 1 })
  else some (r.start, { r with exhausted := true })

/-- How many words it still yields. -/
def remaining (r : RangeInclusive) : Nat :=
  if r.isEmpty then 0 else r.last.toNat - r.start.toNat + 1

/-- Below another word the successor does not overflow. -/
theorem toNat_succ {n last : UInt64} (h : n < last) : (n + 1).toNat = n.toNat + 1 := by
  have hlt := UInt64.lt_iff_toNat_lt.mp h
  have hlast := last.toNat_lt
  rw [UInt64.toNat_add]
  exact Nat.mod_eq_of_lt (by simp; omega)

theorem remaining_lt {r r' : RangeInclusive} {n : UInt64} (h : r.next = some (n, r')) :
    r'.remaining < r.remaining := by
  unfold next at h
  by_cases hempty : r.isEmpty = true
  · simp [hempty] at h
  · rw [if_neg hempty] at h
    unfold remaining
    rw [if_neg hempty]
    by_cases hlt : r.start < r.last
    · rw [if_pos hlt] at h
      obtain ⟨-, rfl⟩ := Prod.mk.inj (Option.some.inj h)
      have hsucc := toNat_succ hlt
      have hle := UInt64.lt_iff_toNat_lt.mp hlt
      split
      · omega
      · simp only [hsucc]
        omega
    · rw [if_neg hlt] at h
      obtain ⟨-, rfl⟩ := Prod.mk.inj (Option.some.inj h)
      simp [isEmpty]

section Loop

variable {σ ρ : Type}

/-- `for n in range { .. }` with a body that may exit the loop. -/
def forEach (body : σ → UInt64 → σ × Option ρ) (r : RangeInclusive) (s : σ) : σ × Option ρ :=
  match _h : r.next with
  | none => (s, none)
  | some (n, r') =>
    match body s n with
    | (s', some result) => (s', some result)
    | (s', none) => forEach body r' s'
termination_by r.remaining
decreasing_by exact remaining_lt _h

variable {body : σ → UInt64 → σ × Option ρ}

/-- One word of the range. -/
theorem forEach_next {r r' : RangeInclusive} {n : UInt64} {s : σ}
    (hnext : r.next = some (n, r')) :
    forEach body r s = match body s n with
      | (s', some result) => (s', some result)
      | (s', none) => forEach body r' s' := by
  rw [forEach]
  split
  · next hnone => simp [hnext] at hnone
  · next n' r'' hsome =>
    obtain ⟨rfl, rfl⟩ := Prod.mk.inj (Option.some.inj (hnext.symm.trans hsome))
    rfl

theorem forEach_exit {r r' : RangeInclusive} {n : UInt64} {s s' : σ} {result : ρ}
    (hnext : r.next = some (n, r')) (hbody : body s n = (s', some result)) :
    forEach body r s = (s', some result) := by
  rw [forEach_next hnext, hbody]

theorem forEach_continue {r r' : RangeInclusive} {n : UInt64} {s s' : σ}
    (hnext : r.next = some (n, r')) (hbody : body s n = (s', none)) :
    forEach body r s = forEach body r' s' := by
  rw [forEach_next hnext, hbody]

/-- A range that has not passed its last word yields its first one. -/
theorem next_new {lo hi : UInt64} (h : lo.toNat ≤ hi.toNat) :
    ∃ r, (new lo hi).next = some (lo, r) ∧ (lo.toNat < hi.toNat → r = new (lo + 1) hi) := by
  have hempty : ¬ (new lo hi).isEmpty = true := by
    simp only [isEmpty, new, Bool.false_or, decide_eq_true_eq, UInt64.lt_iff_toNat_lt]
    omega
  unfold next
  rw [if_neg hempty]
  by_cases hlt : lo < hi
  · exact ⟨_, if_pos hlt, fun _ => rfl⟩
  · exact ⟨_, if_neg hlt, fun h => absurd (UInt64.lt_iff_toNat_lt.mpr h) hlt⟩

/-- **The rule of the loop.** The body goes from state to state for the words below `m` and exits
at `m`, which is at most the last one. -/
theorem forEach_exits {hi : UInt64} {states : ℕ → σ} {m : ℕ} (hm : m ≤ hi.toNat)
    (hstep : ∀ i < m, body (states i) (UInt64.ofNat i) = (states (i + 1), none))
    {s' : σ} {result : ρ} (hexit : body (states m) (UInt64.ofNat m) = (s', some result)) :
    forEach body (new 0 hi) (states 0) = (s', some result) := by
  have hword : ∀ i ≤ m, (UInt64.ofNat i).toNat = i := by
    intro i hi'
    have hlt := hi.toNat_lt
    exact UInt64.toNat_ofNat_of_lt (lt_of_le_of_lt (le_trans hi' hm) hlt)
  -- backwards from the exit
  have hfrom : ∀ k ≤ m, forEach body (new (UInt64.ofNat (m - k)) hi) (states (m - k)) =
      (s', some result) := by
    intro k
    induction k with
    | zero =>
      intro _
      obtain ⟨r, hnext, -⟩ := @next_new (UInt64.ofNat m) hi (by rw [hword m (le_refl m)]; exact hm)
      exact forEach_exit hnext hexit
    | succ k ih =>
      intro hk
      have hi' : m - (k + 1) < m := by omega
      have hsucc : m - (k + 1) + 1 = m - k := by omega
      have hnat := hword (m - (k + 1)) (by omega)
      obtain ⟨r, hnext, hr⟩ := @next_new (UInt64.ofNat (m - (k + 1))) hi (by rw [hnat]; omega)
      have hrange : r = new (UInt64.ofNat (m - k)) hi := by
        rw [hr (by rw [hnat]; omega), ← hsucc, UInt64.ofNat_add]
        rfl
      rw [forEach_continue hnext (hstep _ hi'), hsucc, hrange]
      exact ih (by omega)
  have hstart := hfrom m (le_refl m)
  rw [Nat.sub_self] at hstart
  exact hstart

end Loop

end RangeInclusive

/-! ## Leading positions -/

/-- How many positions there are before the first one without the property. -/
noncomputable def leading (p : ℕ → Prop) : ℕ∞ := ⨅ i : {i : ℕ // ¬ p i}, (i.val : ℕ∞)

theorem le_leading_iff {p : ℕ → Prop} {m : ℕ} : (m : ℕ∞) ≤ leading p ↔ ∀ i < m, p i := by
  unfold leading
  rw [le_iInf_iff]
  constructor
  · intro h i hi
    by_contra hnot
    exact absurd (Nat.cast_le.mp (h ⟨i, hnot⟩)) (not_le.mpr hi)
  · rintro h ⟨i, hi⟩
    by_contra hlt
    exact hi (h i (Nat.cast_lt.mp (not_le.mp hlt)))

/-- The first position without the property is one without it. -/
theorem not_of_leading_eq {p : ℕ → Prop} {m : ℕ} (h : leading p = m) : ¬ p m := by
  intro hm
  have hsucc : ((m + 1 : ℕ) : ℕ∞) ≤ leading p := by
    rw [le_leading_iff]
    intro i hi
    rcases Nat.lt_succ_iff_lt_or_eq.mp hi with hlt | rfl
    · exact le_leading_iff.mp (le_of_eq h.symm) i hlt
    · exact hm
  rw [h, Nat.cast_le] at hsucc
  omega

end Lib
