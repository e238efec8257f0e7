import Mathlib.Algebra.BigOperators.Group.Finset.Piecewise
import Mathlib.Algebra.Order.BigOperators.Group.Finset
import Mathlib.Algebra.BigOperators.Ring.Finset
import Mathlib.Data.Int.Order.Basic
import Mathlib.Tactic.Ring

/-!
# Finite keyed tables

A `Table κ ν` is a finite partial map from keys to rows: the `Finset` of the keys it
holds, a lookup, and the proof that the two agree. Two tables with the same lookup are
equal (`Table.ext`), so nothing proved about a table depends on an order of its rows.

The second half is about tables of integers: `sumWhere` adds the rows whose key satisfies
a predicate, and `sumWhere_eq_add_of_growth` is the bookkeeping rule for an update — if
every row grows by `δ k` on a duplicate-free list of keys and is unchanged elsewhere, the
sum grows by the sum of `δ` over that list.
-/

namespace Lib

/-- A finite partial map. The invariant `mem_keys` makes the key set redundant, so the
lookup alone determines the table. -/
structure Table (κ ν : Type) where
  keys : Finset κ
  get : κ → Option ν
  mem_keys : ∀ k, k ∈ keys ↔ (get k).isSome = true

namespace Table

variable {κ ν : Type}

@[ext] theorem ext {t u : Table κ ν} (h : ∀ k, t.get k = u.get k) : t = u := by
  obtain ⟨tk, tg, th⟩ := t
  obtain ⟨uk, ug, uh⟩ := u
  have hget : tg = ug := funext h
  subst hget
  have hkeys : tk = uk := by
    ext k
    rw [th, uh]
  subst hkeys
  rfl

theorem get_eq_none_iff {t : Table κ ν} {k : κ} : t.get k = none ↔ k ∉ t.keys := by
  rw [t.mem_keys]
  simp

theorem mem_keys_of_get {t : Table κ ν} {k : κ} {v : ν} (h : t.get k = some v) :
    k ∈ t.keys := by
  rw [t.mem_keys, h]
  rfl

/-- A property of all rows can be checked on the key set. -/
theorem forall_rows {t : Table κ ν} {p : κ → ν → Bool}
    (h : ∀ k ∈ t.keys, (t.get k).all (p k) = true) {k : κ} {v : ν} (hv : t.get k = some v) :
    p k v = true := by
  have hall := h k (mem_keys_of_get hv)
  rwa [hv] at hall

/-- The table with no rows. -/
def empty : Table κ ν := ⟨∅, fun _ => none, by simp⟩

instance : Inhabited (Table κ ν) := ⟨empty⟩

@[simp] theorem get_empty (k : κ) : (empty : Table κ ν).get k = none := rfl

@[simp] theorem keys_empty : (empty : Table κ ν).keys = ∅ := rfl

/-- Keep the rows whose key satisfies `p`. -/
def filter (t : Table κ ν) (p : κ → Bool) : Table κ ν where
  keys := t.keys.filter (fun k => p k = true)
  get k := if p k then t.get k else none
  mem_keys k := by
    by_cases hk : p k = true
    · simp [hk, t.mem_keys]
    · simp [hk]

theorem get_filter (t : Table κ ν) (p : κ → Bool) (k : κ) :
    (t.filter p).get k = if p k then t.get k else none := rfl

/-- Change every row by a function of its key and its old value. -/
def mapRows (t : Table κ ν) (f : κ → ν → ν) : Table κ ν where
  keys := t.keys
  get k := (t.get k).map (f k)
  mem_keys k := by rw [t.mem_keys, Option.isSome_map]

theorem get_mapRows (t : Table κ ν) (f : κ → ν → ν) (k : κ) :
    (t.mapRows f).get k = (t.get k).map (f k) := rfl

theorem mapRows_congr {t : Table κ ν} {f g : κ → ν → ν}
    (h : ∀ k v, t.get k = some v → f k v = g k v) : t.mapRows f = t.mapRows g := by
  refine Table.ext fun k => ?_
  rw [get_mapRows, get_mapRows]
  cases hv : t.get k with
  | none => rfl
  | some v => rw [Option.map_some, Option.map_some, h k v hv]

theorem mapRows_eq_self {t : Table κ ν} {f : κ → ν → ν}
    (h : ∀ k v, t.get k = some v → f k v = v) : t.mapRows f = t := by
  refine Table.ext fun k => ?_
  rw [get_mapRows]
  cases hv : t.get k with
  | none => rfl
  | some v => rw [Option.map_some, h k v hv]

variable [DecidableEq κ]

instance [DecidableEq ν] : DecidableEq (Table κ ν) := fun t u =>
  decidable_of_iff (t.keys = u.keys ∧ ∀ k ∈ t.keys, t.get k = u.get k) <| by
    constructor
    · rintro ⟨hkeys, hget⟩
      refine Table.ext fun k => ?_
      by_cases hk : k ∈ t.keys
      · exact hget k hk
      · rw [get_eq_none_iff.mpr hk, get_eq_none_iff.mpr (hkeys ▸ hk)]
    · rintro rfl
      exact ⟨rfl, fun _ _ => rfl⟩

/-- Write one row, replacing the row already stored under the key. -/
def set (t : Table κ ν) (k : κ) (v : ν) : Table κ ν where
  keys := insert k t.keys
  get j := if j = k then some v else t.get j
  mem_keys j := by
    by_cases hj : j = k
    · simp [hj]
    · simp [hj, t.mem_keys]

theorem get_set (t : Table κ ν) (k j : κ) (v : ν) :
    (t.set k v).get j = if j = k then some v else t.get j := rfl

@[simp] theorem get_set_self (t : Table κ ν) (k : κ) (v : ν) : (t.set k v).get k = some v := by
  simp [get_set]

@[simp] theorem get_set_of_ne (t : Table κ ν) {k j : κ} (v : ν) (h : j ≠ k) :
    (t.set k v).get j = t.get j := by
  simp [get_set, h]

/-- Writing the row that is already there changes nothing. -/
theorem set_of_get {t : Table κ ν} {k : κ} {v : ν} (h : t.get k = some v) : t.set k v = t := by
  refine Table.ext fun j => ?_
  rw [get_set]
  split
  · next hj => rw [hj, h]
  · rfl

/-- Drop one row. -/
def erase (t : Table κ ν) (k : κ) : Table κ ν := t.filter (fun j => j ≠ k)

theorem get_erase (t : Table κ ν) (k j : κ) :
    (t.erase k).get j = if j = k then none else t.get j := by
  by_cases hj : j = k <;> simp [erase, get_filter, hj]

/-- The rows of `u` laid over the rows of `t`: `u` decides wherever it has a row. -/
def overlay (t u : Table κ ν) : Table κ ν where
  keys := t.keys ∪ u.keys
  get k := (u.get k).or (t.get k)
  mem_keys k := by
    simp only [Finset.mem_union, t.mem_keys, u.mem_keys, Option.isSome_or, Bool.or_eq_true]
    exact or_comm

theorem get_overlay (t u : Table κ ν) (k : κ) :
    (t.overlay u).get k = (u.get k).or (t.get k) := rfl

@[simp] theorem overlay_empty (t : Table κ ν) : t.overlay empty = t := by
  ext k
  simp [get_overlay]

theorem overlay_assoc (t u v : Table κ ν) :
    t.overlay (u.overlay v) = (t.overlay u).overlay v := by
  ext k
  simp [get_overlay, Option.or_assoc]

/-- A row set below an overlay that has no row of its key. -/
theorem set_overlay {t u : Table κ ν} {k : κ} (h : u.get k = none) (v : ν) :
    (t.set k v).overlay u = (t.overlay u).set k v := by
  ext1 j
  rw [get_overlay, get_set, get_set, get_overlay]
  by_cases hj : j = k
  · rw [if_pos hj, if_pos hj, hj, h]
    rfl
  · rw [if_neg hj, if_neg hj]

/-- Rows dropped below an overlay that has none of them. -/
theorem filter_overlay {t u : Table κ ν} {p : κ → Bool} (h : ∀ k, p k = false → u.get k = none) :
    (t.filter p).overlay u = (t.overlay u).filter p := by
  ext1 k
  rw [get_overlay, get_filter, get_filter, get_overlay]
  cases hp : p k with
  | true => rfl
  | false =>
    rw [h k hp]
    rfl

theorem erase_overlay {t u : Table κ ν} {k : κ} (h : u.get k = none) :
    (t.erase k).overlay u = (t.overlay u).erase k :=
  filter_overlay fun j hj => by
    obtain rfl : j = k := by simpa using hj
    exact h

/-! ## Tables of integers -/

section Sums

/-- The number stored under `k`, zero when there is no row. -/
def val (t : Table κ Int) (k : κ) : Int := (t.get k).getD 0

omit [DecidableEq κ] in
theorem val_of_get {t : Table κ Int} {k : κ} {n : Int} (h : t.get k = some n) :
    t.val k = n := by
  simp [val, h]

omit [DecidableEq κ] in
theorem val_of_none {t : Table κ Int} {k : κ} (h : t.get k = none) : t.val k = 0 := by
  simp [val, h]

omit [DecidableEq κ] in
@[simp] theorem val_empty (k : κ) : (empty : Table κ Int).val k = 0 := rfl

theorem val_set (t : Table κ Int) (k j : κ) (n : Int) :
    (t.set k n).val j = if j = k then n else t.val j := by
  by_cases hj : j = k <;> simp [val, hj]

/-- The sum of the rows whose key satisfies `p`. -/
def sumWhere (t : Table κ Int) (p : κ → Prop) [DecidablePred p] : Int :=
  ∑ k ∈ t.keys with p k, t.val k

/-- The sum of all rows. -/
def sum (t : Table κ Int) : Int := t.sumWhere (fun _ => True)

omit [DecidableEq κ] in
/-- The sum may be taken over any key set that contains the table's own keys: the
additional keys contribute zero. -/
theorem sumWhere_eq_of_subset {t : Table κ Int} {S : Finset κ} (h : t.keys ⊆ S)
    (p : κ → Prop) [DecidablePred p] : t.sumWhere p = ∑ k ∈ S with p k, t.val k := by
  refine Finset.sum_subset (Finset.filter_subset_filter p h) fun k hk hnot => ?_
  have hkp : p k := (Finset.mem_filter.mp hk).2
  have hkeys : k ∉ t.keys := fun hmem => hnot (Finset.mem_filter.mpr ⟨hmem, hkp⟩)
  exact val_of_none (get_eq_none_iff.mpr hkeys)

/-- By how much two sums differ, row by row. -/
theorem sum_sub_sum (t u : Table κ Int) :
    u.sum - t.sum = ∑ k ∈ t.keys ∪ u.keys, (u.val k - t.val k) := by
  unfold sum
  rw [sumWhere_eq_of_subset (Finset.subset_union_left : t.keys ⊆ t.keys ∪ u.keys),
    sumWhere_eq_of_subset (Finset.subset_union_right : u.keys ⊆ t.keys ∪ u.keys),
    ← Finset.sum_sub_distrib, Finset.filter_true]

theorem sumWhere_congr {t u : Table κ Int} {p : κ → Prop} [DecidablePred p]
    (h : ∀ k, p k → t.val k = u.val k) : t.sumWhere p = u.sumWhere p := by
  rw [sumWhere_eq_of_subset Finset.subset_union_left p,
    sumWhere_eq_of_subset (Finset.subset_union_right : u.keys ⊆ t.keys ∪ u.keys) p]
  exact Finset.sum_congr rfl fun k hk => h k (Finset.mem_filter.mp hk).2

theorem sumWhere_le_sumWhere {t u : Table κ Int} {p : κ → Prop} [DecidablePred p]
    (h : ∀ k, p k → t.val k ≤ u.val k) : t.sumWhere p ≤ u.sumWhere p := by
  rw [sumWhere_eq_of_subset Finset.subset_union_left p,
    sumWhere_eq_of_subset (Finset.subset_union_right : u.keys ⊆ t.keys ∪ u.keys) p]
  exact Finset.sum_le_sum fun k hk => h k (Finset.mem_filter.mp hk).2

omit [DecidableEq κ] in
theorem sumWhere_nonneg {t : Table κ Int} {p : κ → Prop} [DecidablePred p]
    (h : ∀ k, p k → 0 ≤ t.val k) : 0 ≤ t.sumWhere p :=
  Finset.sum_nonneg fun k hk => h k (Finset.mem_filter.mp hk).2

omit [DecidableEq κ] in
theorem sumWhere_eq_zero {t : Table κ Int} {p : κ → Prop} [DecidablePred p]
    (h : ∀ k, p k → t.val k = 0) : t.sumWhere p = 0 :=
  Finset.sum_eq_zero fun k hk => h k (Finset.mem_filter.mp hk).2

/-- **The bookkeeping rule.** If on the keys selected by `p` every row of `u` is the row of
`t` grown by `δ k` when `k` occurs in the duplicate-free list `l`, and unchanged otherwise,
then the selected sum grows by the sum of `δ` over the selected part of `l`. -/
theorem sumWhere_eq_add_of_growth {t u : Table κ Int} {p : κ → Prop} [DecidablePred p]
    {l : List κ} (hl : l.Nodup) (δ : κ → Int)
    (hin : ∀ k, p k → k ∈ l → u.val k = t.val k + δ k)
    (hout : ∀ k, p k → k ∉ l → u.val k = t.val k) :
    u.sumWhere p = t.sumWhere p + ((l.filter (fun k => p k)).map δ).sum := by
  classical
  set S : Finset κ := (t.keys ∪ u.keys) ∪ l.toFinset with hS
  have ht : t.keys ⊆ S := by
    intro k hk
    simp [hS, hk]
  have hu : u.keys ⊆ S := by
    intro k hk
    simp [hS, hk]
  have hval : ∀ k ∈ S.filter p, u.val k = t.val k + if k ∈ l then δ k else 0 := by
    intro k hk
    have hp : p k := (Finset.mem_filter.mp hk).2
    by_cases hmem : k ∈ l
    · rw [if_pos hmem, hin k hp hmem]
    · rw [if_neg hmem, hout k hp hmem, add_zero]
  rw [sumWhere_eq_of_subset hu, sumWhere_eq_of_subset ht, Finset.sum_congr rfl hval,
    Finset.sum_add_distrib]
  congr 1
  rw [← List.sum_toFinset _ (hl.filter _), ← Finset.sum_filter]
  refine Finset.sum_congr ?_ fun _ _ => rfl
  ext k
  simp [hS]
  tauto

/-- **The frame rule.** Rows put over two tables that agree where there are such rows move the
two sums alike. -/
theorem sumWhere_overlay_sub {t u w : Table κ Int} (p : κ → Prop) [DecidablePred p]
    (h : ∀ k, (w.get k).isSome = true → t.val k = u.val k) :
    (t.overlay w).sumWhere p - t.sumWhere p = (u.overlay w).sumWhere p - u.sumWhere p := by
  -- what the rows put over a table that agrees with `t` add to its sum
  have hgrow : ∀ v : Table κ Int, (∀ k, (w.get k).isSome = true → t.val k = v.val k) →
      (v.overlay w).sumWhere p = v.sumWhere p +
        ((w.keys.toList.filter (fun k => p k)).map fun k => w.val k - t.val k).sum := by
    intro v hv
    refine sumWhere_eq_add_of_growth (Finset.nodup_toList _) _ (fun k _ hk => ?_) fun k _ hk => ?_
    · rw [Finset.mem_toList, w.mem_keys] at hk
      obtain ⟨n, hn⟩ := Option.isSome_iff_exists.mp hk
      have hval : (v.overlay w).get k = some n := by
        rw [get_overlay, hn]
        rfl
      rw [val_of_get hval, val_of_get hn, hv k hk]
      omega
    · rw [Finset.mem_toList] at hk
      unfold val
      rw [get_overlay, get_eq_none_iff.mpr hk]
      rfl
  rw [hgrow t fun _ _ => rfl, hgrow u h]
  omega

omit [DecidableEq κ] in
@[simp] theorem sumWhere_empty (p : κ → Prop) [DecidablePred p] :
    (empty : Table κ Int).sumWhere p = 0 := by
  simp [sumWhere]

end Sums

end Table

end Lib
