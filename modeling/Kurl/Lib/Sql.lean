import Kurl.Lib.HashMap

/-!
# SQL `greatest` and the upsert built on it

`greatest` is the maximum that ignores `NULL`. With `NULL` below every value it is a join:
`nullLe_greatest_iff` is its universal property, and since `NullLe` is antisymmetric a
repeated `greatest` depends only on the *set* of values it was fed
(`greatestOf_congr`) — the reason a statement of the form

```sql
insert into t select * from unnest(..) on conflict (k) do update set v = greatest(excluded.v, t.v)
```

may be replayed in any order and any number of times.
-/

namespace Lib

section Greatest

variable {α : Type} [LinearOrder α]

/-- SQL `greatest(a, b)`: the larger value, ignoring `NULL`. -/
def greatest : Option α → Option α → Option α
  | none, b => b
  | some a, none => some a
  | some a, some b => some (max a b)

/-- The order in which `NULL` lies below every value. -/
def NullLe (a b : Option α) : Prop := ∀ x, a = some x → ∃ y, b = some y ∧ x ≤ y

@[simp] theorem greatest_none_left (a : Option α) : greatest none a = a := rfl

@[simp] theorem greatest_none_right (a : Option α) : greatest a none = a := by
  cases a <;> rfl

theorem greatest_some (x y : α) : greatest (some x) (some y) = some (max x y) := rfl

/-- The greatest of two values is one of them. -/
theorem greatest_eq_some {a b : Option α} {v : α} (h : greatest a b = some v) :
    a = some v ∨ b = some v := by
  cases a with
  | none => exact Or.inr h
  | some x =>
    cases b with
    | none => exact Or.inl h
    | some y =>
      rw [greatest_some, Option.some.injEq] at h
      rcases max_choice x y with hmax | hmax
      · exact Or.inl (by rw [← h, hmax])
      · exact Or.inr (by rw [← h, hmax])

theorem nullLe_refl (a : Option α) : NullLe a a := fun x hx => ⟨x, hx, le_refl x⟩

theorem NullLe.antisymm {a b : Option α} (hab : NullLe a b) (hba : NullLe b a) : a = b := by
  cases a with
  | none =>
    cases b with
    | none => rfl
    | some y =>
      obtain ⟨x, hx, -⟩ := hba y rfl
      exact absurd hx (by simp)
  | some x =>
    obtain ⟨y, rfl, hxy⟩ := hab x rfl
    obtain ⟨x', hx', hyx⟩ := hba y rfl
    rw [← Option.some.inj hx'] at hyx
    rw [le_antisymm hxy hyx]

/-- **`greatest` is a join.** -/
theorem nullLe_greatest_iff {a b c : Option α} :
    NullLe (greatest a b) c ↔ NullLe a c ∧ NullLe b c := by
  cases a with
  | none => simp [NullLe]
  | some x =>
    cases b with
    | none => simp [NullLe]
    | some y =>
      simp only [NullLe, greatest_some, Option.some.injEq, forall_eq']
      constructor
      · rintro ⟨z, hz, hle⟩
        exact ⟨⟨z, hz, le_trans (le_max_left x y) hle⟩, ⟨z, hz, le_trans (le_max_right x y) hle⟩⟩
      · rintro ⟨⟨z, hz, hx⟩, ⟨z', hz', hy⟩⟩
        have hzz : z' = z := Option.some.inj (hz'.symm.trans hz)
        exact ⟨z, hz, max_le hx (hzz ▸ hy)⟩

theorem greatest_comm (a b : Option α) : greatest a b = greatest b a := by
  refine NullLe.antisymm ?_ ?_
  · exact nullLe_greatest_iff.mpr (nullLe_greatest_iff.mp (nullLe_refl _)).symm
  · exact nullLe_greatest_iff.mpr (nullLe_greatest_iff.mp (nullLe_refl _)).symm

/-- `greatest` over a starting value and a list of further values. -/
def greatestOf (init : Option α) (l : List (Option α)) : Option α := l.foldl greatest init

@[simp] theorem greatestOf_nil (init : Option α) : greatestOf init [] = init := rfl

@[simp] theorem greatestOf_cons (init a : Option α) (l : List (Option α)) :
    greatestOf init (a :: l) = greatestOf (greatest init a) l := rfl

theorem nullLe_greatestOf_iff {init c : Option α} {l : List (Option α)} :
    NullLe (greatestOf init l) c ↔ NullLe init c ∧ ∀ a ∈ l, NullLe a c := by
  induction l generalizing init with
  | nil => simp
  | cons a l ih =>
    rw [greatestOf_cons, ih, nullLe_greatest_iff, List.forall_mem_cons, and_assoc]

/-- **A repeated `greatest` sees only the set of its arguments.** -/
theorem greatestOf_congr {init : Option α} {l l' : List (Option α)}
    (h : ∀ a, a ∈ l ↔ a ∈ l') : greatestOf init l = greatestOf init l' := by
  refine NullLe.antisymm ?_ ?_
  · have hub := nullLe_greatestOf_iff.mp (nullLe_refl (greatestOf init l'))
    exact nullLe_greatestOf_iff.mpr ⟨hub.1, fun a ha => hub.2 a ((h a).mp ha)⟩
  · have hub := nullLe_greatestOf_iff.mp (nullLe_refl (greatestOf init l))
    exact nullLe_greatestOf_iff.mpr ⟨hub.1, fun a ha => hub.2 a ((h a).mpr ha)⟩

/-- Feeding a value that is already below the result changes nothing. -/
theorem greatest_eq_left {a b : Option α} (h : NullLe b a) : greatest a b = a := by
  refine NullLe.antisymm (nullLe_greatest_iff.mpr ⟨nullLe_refl a, h⟩) ?_
  exact (nullLe_greatest_iff.mp (nullLe_refl (greatest a b))).1

theorem nullLe_greatest_left (a b : Option α) : NullLe a (greatest a b) :=
  (nullLe_greatest_iff.mp (nullLe_refl (greatest a b))).1

theorem nullLe_greatest_right (a b : Option α) : NullLe b (greatest a b) :=
  (nullLe_greatest_iff.mp (nullLe_refl (greatest a b))).2

theorem greatest_eq_left_iff {a b : Option α} : greatest a b = a ↔ NullLe b a :=
  ⟨fun heq => heq ▸ nullLe_greatest_right a b, greatest_eq_left⟩

theorem NullLe.trans {a b c : Option α} (hab : NullLe a b) (hbc : NullLe b c) : NullLe a c := by
  intro x hx
  obtain ⟨y, hy, hxy⟩ := hab x hx
  obtain ⟨z, hz, hyz⟩ := hbc y hy
  exact ⟨z, hz, le_trans hxy hyz⟩

end Greatest

/-- A fallible statement whose result is mapped. -/
theorem exceptBind_eq_ok {ε α β : Type} {x : Except ε α} {f : α → Except ε β} {b : β}
    (h : (x >>= f) = .ok b) : ∃ a, x = .ok a ∧ f a = .ok b := by
  cases x with
  | error e => cases h
  | ok a => exact ⟨a, rfl, h⟩

theorem exceptMap_eq_ok {ε α β : Type} {x : Except ε α} {f : α → β} {b : β}
    (h : x.map f = .ok b) : ∃ a, x = .ok a ∧ f a = b := by
  cases x with
  | error e => cases h
  | ok a => exact ⟨a, rfl, Except.ok.inj h⟩

/-- In a loop of fallible statements that succeeded, each statement did. -/
theorem foldlM_step_ok {ε α β : Type} {f : β → α → Except ε β} {l : List α} {b b' : β}
    (h : l.foldlM f b = .ok b') {a : α} (ha : a ∈ l) : ∃ b₁ b₂, f b₁ a = .ok b₂ := by
  induction l generalizing b with
  | nil => cases ha
  | cons x l ih =>
    rw [List.foldlM_cons] at h
    obtain ⟨b₁, hstep, hrest⟩ := exceptBind_eq_ok h
    rcases List.mem_cons.mp ha with rfl | hmem
    · exact ⟨b, b₁, hstep⟩
    · exact ih hrest hmem

/-- A list of fallible statements succeeds if each of them does, with their results in order. -/
theorem mapM_eq_ok_iff {ε α β : Type} {f : α → Except ε β} {l : List α} {bs : List β} :
    l.mapM f = .ok bs ↔ l.map f = bs.map .ok := by
  induction l generalizing bs with
  | nil =>
    rw [List.mapM_nil, List.map_nil, List.nil_eq, List.map_eq_nil_iff]
    exact ⟨fun h => (Except.ok.inj h).symm, fun h => by rw [h]; rfl⟩
  | cons a l ih =>
    rw [List.mapM_cons, List.map_cons]
    constructor
    · intro h
      obtain ⟨b, hb, hrest⟩ := exceptBind_eq_ok h
      obtain ⟨bs', hbs', hcons⟩ := exceptBind_eq_ok hrest
      obtain rfl := Except.ok.inj hcons
      rw [List.map_cons, hb, ih.mp hbs']
    · intro h
      cases bs with
      | nil => cases h
      | cons b bs' =>
        obtain ⟨hb, hbs'⟩ := List.cons.inj h
        rw [hb, ih.mpr hbs']
        rfl

theorem mapM_isOk_iff {ε α β : Type} {f : α → Except ε β} {l : List α} :
    (∃ bs, l.mapM f = .ok bs) ↔ ∀ a ∈ l, ∃ b, f a = .ok b := by
  simp only [mapM_eq_ok_iff]
  constructor
  · rintro ⟨bs, hbs⟩ a ha
    have hmem : f a ∈ bs.map Except.ok := hbs ▸ List.mem_map_of_mem ha
    obtain ⟨b, -, hb⟩ := List.mem_map.mp hmem
    exact ⟨b, hb.symm⟩
  · intro hall
    induction l with
    | nil => exact ⟨[], rfl⟩
    | cons a l ih =>
      obtain ⟨b, hb⟩ := hall a List.mem_cons_self
      obtain ⟨bs, hbs⟩ := ih fun a ha => hall a (List.mem_cons_of_mem _ ha)
      exact ⟨b :: bs, by rw [List.map_cons, List.map_cons, hb, hbs]⟩

/-- The results are those of the members. -/
theorem mem_of_mapM_eq_ok {ε α β : Type} {f : α → Except ε β} {l : List α} {bs : List β}
    (h : l.mapM f = .ok bs) {b : β} : b ∈ bs ↔ ∃ a ∈ l, f a = .ok b := by
  have hmap := mapM_eq_ok_iff.mp h
  rw [← List.mem_map, hmap, List.mem_map]
  exact ⟨fun hb => ⟨b, hb, rfl⟩, fun ⟨b', hb', heq⟩ => Except.ok.inj heq ▸ hb'⟩

section Upsert

variable {κ : Type} [DecidableEq κ]

/-- The rows that
`insert .. on conflict do update set v = greatest(excluded.v, v)` writes into `t`. -/
def Table.upsertRows (t : Table κ Int) (rows : List (κ × Int)) : Table κ Int :=
  rows.foldl (fun w r => w.set r.1 ((t.get r.1).elim r.2 (max r.2))) Table.empty

theorem Table.get_upsertRows (t : Table κ Int) {rows : List (κ × Int)}
    (h : (rows.map Prod.fst).Nodup) (k : κ) :
    (t.upsertRows rows).get k = (assoc rows k).map fun n => (t.get k).elim n (max n) := by
  -- the fold generalised over the rows already written
  have hfold : ∀ w : Table κ Int,
      (rows.foldl (fun w r => w.set r.1 ((t.get r.1).elim r.2 (max r.2))) w).get k =
        ((assoc rows k).map fun n => (t.get k).elim n (max n)).or (w.get k) := by
    induction rows with
    | nil => intro w; rfl
    | cons r rows ih =>
      intro w
      rw [List.map_cons, List.nodup_cons] at h
      rw [List.foldl_cons, ih h.2, assoc_cons]
      by_cases hk : r.1 = k
      · subst hk
        rw [if_pos rfl, assoc_eq_none_iff.mpr h.1, Table.get_set_self]
        rfl
      · rw [if_neg hk, Table.get_set_of_ne _ _ fun he => hk he.symm]
  rw [Table.upsertRows, hfold]
  simp

/-- **The upsert, row by row.** Every row becomes the `greatest` of its old value and its
incoming value. -/
theorem Table.get_overlay_upsertRows (t : Table κ Int) {rows : List (κ × Int)}
    (h : (rows.map Prod.fst).Nodup) (k : κ) :
    (t.overlay (t.upsertRows rows)).get k = greatest (assoc rows k) (t.get k) := by
  rw [Table.get_overlay, Table.get_upsertRows t h]
  cases assoc rows k with
  | none => rfl
  | some n =>
    cases t.get k with
    | none => rfl
    | some m => rfl

/-- A table after an upsert of everything in a map. -/
def Table.mergeMax (t : Table κ Int) (m : HashMap κ Int) : Table κ Int :=
  t.overlay (t.upsertRows m.entries)

theorem Table.get_mergeMax (t : Table κ Int) (m : HashMap κ Int) (k : κ) :
    (t.mergeMax m).get k = greatest (m.get k) (t.get k) :=
  t.get_overlay_upsertRows m.nodup k

theorem Table.mergeMax_isEmpty (t : Table κ Int) {m : HashMap κ Int} (h : m.isEmpty = true) :
    t.mergeMax m = t := by
  ext1 k
  rw [Table.get_mergeMax, HashMap.get_isEmpty h, greatest_none_left]

theorem Table.val_le_val_mergeMax (t : Table κ Int) {m : HashMap κ Int}
    (hm : ∀ e ∈ m.entries, 0 ≤ e.2) (k : κ) : t.val k ≤ (t.mergeMax m).val k := by
  unfold Table.val
  rw [Table.get_mergeMax]
  cases hget : m.get k with
  | none => simp
  | some n =>
    have hn : 0 ≤ n := hm _ (m.get_eq_some_iff.mp hget)
    cases t.get k with
    | none => simpa using hn
    | some v => simp [greatest]

/-- How much a table grows, summed over the keys with a property. -/
theorem Table.sumWhere_mergeMax (t : Table κ Int) {m : HashMap κ Int}
    (hm : ∀ e ∈ m.entries, 0 ≤ e.2) (p : κ → Prop) [DecidablePred p]
    (t' : Table κ Int) (hsame : ∀ k, p k → t'.get k = (t.mergeMax m).get k) :
    t'.sumWhere p = t.sumWhere p +
      ((m.entries.filter (fun e => p e.1)).map fun e => max (t.val e.1) e.2 - t.val e.1).sum := by
  have hval : ∀ k, p k → t'.val k = ((m.get k).elim (t.val k) (max (t.val k))) := by
    intro k hk
    unfold Table.val
    rw [hsame k hk, Table.get_mergeMax]
    cases hget : m.get k with
    | none => rfl
    | some n =>
      have hn : 0 ≤ n := hm _ (m.get_eq_some_iff.mp hget)
      cases hv : t.get k with
      | none => simpa using hn
      | some v => simp [greatest, max_comm]
  rw [Table.sumWhere_eq_add_of_growth m.nodup_keys
    (fun k => (m.get k).elim 0 fun n => max (t.val k) n - t.val k)]
  · congr 1
    unfold HashMap.keys
    rw [List.filter_map, List.map_map]
    congr 1
    refine List.map_congr_left fun e he => ?_
    have hget : m.get e.1 = some e.2 := m.get_eq_some_iff.mpr (List.mem_filter.mp he).1
    simp [hget]
  · intro k hk hmem
    rw [hval k hk]
    cases m.get k <;> simp
  · intro k hk hmem
    rw [hval k hk, m.get_eq_none_iff.mpr hmem]
    rfl

end Upsert

end Lib
