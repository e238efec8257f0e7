import Mathlib.Algebra.BigOperators.Group.Finset.Basic
import Mathlib.Algebra.GroupWithZero.Nat
import Mathlib.Data.List.Basic
import Mathlib.Data.Int.Order.Basic

/-!
# Counting the members of a list

`countWhere l p` is the number of members of `l` that satisfy `p`, as an integer. The rules
below follow a count through the two things that happen to a log and a property of its
members: the log grows by one member, and one member of a duplicate-free log acquires the
property. The last rules say what is at a position after a member was replaced or added.

`countWhere_concat` is the rule for the first of the two and `countWhere_flip` the one for the
second; `sum_countWhere` counts by classes. A list that is a state vector is changed at a position
with `List.set`, which the lemmas on `getElem?_set`, `countP_set` and `sum_map_set` follow.
-/

namespace Lib

variable {α : Type}

def countWhere (l : List α) (p : α → Bool) : Int := (l.countP p : Nat)

@[simp] theorem countWhere_nil (p : α → Bool) : countWhere [] p = 0 := rfl

theorem countWhere_nonneg (l : List α) (p : α → Bool) : 0 ≤ countWhere l p :=
  Int.natCast_nonneg _

theorem countWhere_le_length (l : List α) (p : α → Bool) : countWhere l p ≤ l.length :=
  Int.ofNat_le.mpr List.countP_le_length

theorem countWhere_cons (a : α) (l : List α) (p : α → Bool) :
    countWhere (a :: l) p = countWhere l p + if p a then 1 else 0 := by
  unfold countWhere
  rw [List.countP_cons]
  split <;> simp

theorem countWhere_append (l l' : List α) (p : α → Bool) :
    countWhere (l ++ l') p = countWhere l p + countWhere l' p := by
  unfold countWhere
  rw [List.countP_append]
  exact Int.natCast_add _ _

theorem countWhere_concat (l : List α) (a : α) (p : α → Bool) :
    countWhere (l ++ [a]) p = countWhere l p + if p a then 1 else 0 := by
  rw [countWhere_append, countWhere_cons, countWhere_nil, Int.zero_add]

theorem countWhere_congr {l : List α} {p q : α → Bool} (h : ∀ a ∈ l, p a = q a) :
    countWhere l p = countWhere l q := by
  unfold countWhere
  rw [List.countP_congr fun a ha => by rw [h a ha]]

theorem countWhere_mono {l : List α} {p q : α → Bool} (h : ∀ a ∈ l, p a = true → q a = true) :
    countWhere l p ≤ countWhere l q :=
  Int.ofNat_le.mpr (List.countP_mono_left h)

theorem countWhere_eq_zero {l : List α} {p : α → Bool} (h : ∀ a ∈ l, p a = false) :
    countWhere l p = 0 := by
  unfold countWhere
  rw [List.countP_eq_zero.mpr fun a ha => by simp [h a ha]]
  rfl

theorem countWhere_pos {l : List α} {a : α} (ha : a ∈ l) {p : α → Bool} (hp : p a = true) :
    0 < countWhere l p :=
  Int.natCast_pos.mpr (List.countP_pos_iff.mpr ⟨a, ha, hp⟩)

theorem exists_of_countWhere_pos {l : List α} {p : α → Bool} (h : 0 < countWhere l p) :
    ∃ a ∈ l, p a = true :=
  List.countP_pos_iff.mp (Int.natCast_pos.mp h)

/-- **Counting class by class**, where a member is in at most one class. -/
theorem sum_countWhere {ι : Type} [DecidableEq ι] (S : Finset ι) {p : ι → α → Bool}
    (hdisjoint : ∀ a i j, p i a = true → p j a = true → i = j) (l : List α) :
    ∑ i ∈ S, countWhere l (p i) = countWhere l fun a => decide (∃ i ∈ S, p i a = true) := by
  induction l with
  | nil => simp
  | cons a l ih =>
    have hone : (∑ i ∈ S, if p i a = true then (1 : Int) else 0) =
        if decide (∃ i ∈ S, p i a = true) = true then 1 else 0 := by
      by_cases hsome : ∃ i ∈ S, p i a = true
      · obtain ⟨i, hi, hp⟩ := hsome
        rw [if_pos (by simpa using ⟨i, hi, hp⟩), Finset.sum_eq_single_of_mem i hi, if_pos hp]
        exact fun j _ hne => if_neg fun hj => hne (hdisjoint a j i hj hp)
      · rw [if_neg (by simpa using hsome)]
        exact Finset.sum_eq_zero fun i hi => if_neg fun hp => hsome ⟨i, hi, hp⟩
    simp only [countWhere_cons]
    rw [Finset.sum_add_distrib, ih, hone]

/-- A member without the property leaves room below the length. -/
theorem countWhere_lt_length {l : List α} {a : α} (ha : a ∈ l) {p : α → Bool}
    (hp : p a = false) : countWhere l p < l.length := by
  unfold countWhere
  rw [Int.ofNat_lt, Nat.lt_iff_le_and_ne]
  refine ⟨List.countP_le_length, fun heq => ?_⟩
  have hall := List.countP_eq_length.mp heq a ha
  rw [hp] at hall
  simp at hall

/-- One member acquires the property, the others keep what they had. -/
theorem countWhere_flip {l : List α} (hl : l.Nodup) {a : α} (ha : a ∈ l) {p q : α → Bool}
    (hp : p a = false) (hother : ∀ x ∈ l, x ≠ a → q x = p x) :
    countWhere l q = countWhere l p + if q a then 1 else 0 := by
  induction l with
  | nil => simp at ha
  | cons b l ih =>
    rw [List.nodup_cons] at hl
    rw [countWhere_cons, countWhere_cons]
    by_cases hb : b = a
    · subst hb
      have hrest : countWhere l q = countWhere l p := countWhere_congr fun x hx =>
        hother x (List.mem_cons_of_mem _ hx) fun hxb => hl.1 (hxb ▸ hx)
      rw [hrest, hp]
      simp
    · have hmem : a ∈ l := (List.mem_cons.mp ha).resolve_left fun h => hb h.symm
      rw [ih hl.2 hmem fun x hx => hother x (List.mem_cons_of_mem _ hx),
        hother b List.mem_cons_self hb]
      omega

/-- One member is replaced. -/
theorem getElem?_set_of_getElem? {l : List α} {i : Nat} {b : α} (h : l[i]? = some b) (a : α)
    (j : Nat) : (l.set i a)[j]? = if j = i then some a else l[j]? := by
  obtain ⟨hlt, -⟩ := List.getElem?_eq_some_iff.mp h
  rw [List.getElem?_set]
  by_cases hij : i = j
  · rw [if_pos hij, if_pos hlt, if_pos hij.symm]
  · rw [if_neg hij, if_neg fun heq => hij heq.symm]

/-- A member after one was replaced: the new one, or one from before. -/
theorem getElem?_set_cases {l : List α} {i j : Nat} {a b : α} (h : (l.set i a)[j]? = some b) :
    (j = i ∧ b = a) ∨ (j ≠ i ∧ l[j]? = some b) := by
  by_cases hij : i = j
  · subst hij
    rw [List.getElem?_set_self'] at h
    obtain ⟨old, -, hnew⟩ := Option.map_eq_some_iff.mp h
    exact Or.inl ⟨rfl, hnew.symm⟩
  · rw [List.getElem?_set_ne hij] at h
    exact Or.inr ⟨fun heq => hij heq.symm, h⟩

/-- A member after one was added. -/
theorem getElem?_append_cases {l : List α} {j : Nat} {a b : α} (h : (l ++ [a])[j]? = some b) :
    l[j]? = some b ∨ b = a := by
  rw [List.getElem?_append] at h
  split at h
  · exact Or.inl h
  · exact Or.inr (List.mem_singleton.mp (List.mem_of_getElem? h))

theorem countP_set_of_getElem? {l : List α} {i : Nat} {b : α} (h : l[i]? = some b) (a : α)
    (p : α → Bool) :
    (l.set i a).countP p + (if p b then 1 else 0) = l.countP p + if p a then 1 else 0 := by
  obtain ⟨hlt, rfl⟩ := List.getElem?_eq_some_iff.mp h
  have hle : (if p l[i] = true then 1 else 0) ≤ l.countP p := List.boole_getElem_le_countP hlt
  rw [List.countP_set hlt]
  omega

/-- A sum over the members, after one of them was replaced. -/
theorem sum_map_set_of_getElem? {l : List α} {i : Nat} {b : α} (h : l[i]? = some b) (a : α)
    (f : α → Nat) : ((l.set i a).map f).sum + f b = (l.map f).sum + f a := by
  induction l generalizing i with
  | nil => cases h
  | cons c l ih =>
    cases i with
    | zero =>
      obtain rfl := Option.some.inj h
      simp only [List.set_cons_zero, List.map_cons, List.sum_cons]
      omega
    | succ i =>
      have hrest := ih h
      simp only [List.set_cons_succ, List.map_cons, List.sum_cons]
      omega

/-- What the members contribute, after one of them contributes more. -/
theorem flatMap_set_perm {β : Type} {f : α → List β} {l : List α} {i : Nat} {a b : α}
    {new : List β} (ha : l[i]? = some a) (hf : (f b).Perm (f a ++ new)) :
    ((l.set i b).flatMap f).Perm (l.flatMap f ++ new) := by
  induction l generalizing i with
  | nil => cases ha
  | cons c l ih =>
    cases i with
    | zero =>
      obtain rfl := Option.some.inj ha
      rw [List.set_cons_zero, List.flatMap_cons, List.flatMap_cons, List.append_assoc]
      refine (hf.append_right _).trans ?_
      rw [List.append_assoc]
      exact List.perm_append_comm.append_left _
    | succ i =>
      rw [List.set_cons_succ, List.flatMap_cons, List.flatMap_cons, List.append_assoc]
      exact (ih ha).append_left _

end Lib
