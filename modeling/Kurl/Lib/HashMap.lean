import Kurl.Lib.Int64
import Kurl.Lib.Table

/-!
# Maps with an iteration order

A `HashMap κ ν` is a list of entries with pairwise distinct keys: the contents of a hash
map together with the order in which one particular traversal meets them. A program that
loops over a hash map is modelled by a loop over `entries`; what the program may rely on
is what holds for every order, and `HashMap.Same` — equal lookups — is the relation under
which its results must not change.

Lookups go through `assoc`, the first value under a key. `ofList` and `accumulate` are the two loops
that fill a map: one inserts, so that a later value replaces an earlier one, and one adds up the
counts of a key.
-/

namespace Lib

variable {κ ν : Type} [DecidableEq κ]

/-- First value stored under `k` in an association list. -/
def assoc : List (κ × ν) → κ → Option ν
  | [], _ => none
  | e :: l, k => if e.1 = k then some e.2 else assoc l k

@[simp] theorem assoc_nil (k : κ) : assoc ([] : List (κ × ν)) k = none := rfl

theorem assoc_cons (e : κ × ν) (l : List (κ × ν)) (k : κ) :
    assoc (e :: l) k = if e.1 = k then some e.2 else assoc l k := rfl

theorem mem_of_assoc {l : List (κ × ν)} {k : κ} {v : ν} (h : assoc l k = some v) :
    (k, v) ∈ l := by
  induction l with
  | nil => simp at h
  | cons e l ih =>
    rw [assoc_cons] at h
    by_cases he : e.1 = k
    · rw [if_pos he] at h
      have hv : e.2 = v := Option.some.inj h
      subst he hv
      exact List.mem_cons_self
    · rw [if_neg he] at h
      exact List.mem_cons_of_mem _ (ih h)

theorem assoc_eq_none_iff {l : List (κ × ν)} {k : κ} :
    assoc l k = none ↔ k ∉ l.map Prod.fst := by
  induction l with
  | nil => simp
  | cons e l ih =>
    by_cases he : e.1 = k
    · simp [assoc_cons, he]
    · have hne : ¬ k = e.1 := fun h => he h.symm
      simp [assoc_cons, he, hne, ih]

/-- In a list with distinct keys every entry is found under its key. -/
theorem assoc_of_mem {l : List (κ × ν)} (hl : (l.map Prod.fst).Nodup) {k : κ} {v : ν}
    (h : (k, v) ∈ l) : assoc l k = some v := by
  induction l with
  | nil => simp at h
  | cons e l ih =>
    rw [List.map_cons, List.nodup_cons] at hl
    rcases List.mem_cons.mp h with rfl | hmem
    · simp [assoc_cons]
    · have hne : e.1 ≠ k := by
        rintro rfl
        exact hl.1 (List.mem_map.mpr ⟨_, hmem, rfl⟩)
      rw [assoc_cons, if_neg hne]
      exact ih hl.2 hmem

theorem assoc_eq_some_iff {l : List (κ × ν)} (hl : (l.map Prod.fst).Nodup) {k : κ} {v : ν} :
    assoc l k = some v ↔ (k, v) ∈ l :=
  ⟨mem_of_assoc, assoc_of_mem hl⟩

theorem assoc_append (l l' : List (κ × ν)) (k : κ) :
    assoc (l ++ l') k = (assoc l k).or (assoc l' k) := by
  induction l with
  | nil => simp
  | cons e l ih =>
    rw [List.cons_append, assoc_cons, assoc_cons]
    by_cases he : e.1 = k
    · simp [he]
    · simp [he, ih]

theorem assoc_map {μ : Type} (l : List (κ × ν)) (f : κ × ν → μ) (k : κ) :
    assoc (l.map fun e => (e.1, f e)) k = (assoc l k).map fun v => f (k, v) := by
  induction l with
  | nil => rfl
  | cons e l ih =>
    rw [List.map_cons, assoc_cons, assoc_cons, ih]
    by_cases he : e.1 = k
    · subst he
      simp
    · simp [he]

/-- With distinct keys a filter keeps or drops the one entry of a key. -/
theorem assoc_filter {l : List (κ × ν)} (hl : (l.map Prod.fst).Nodup) (p : κ × ν → Bool)
    (k : κ) : assoc (l.filter p) k = (assoc l k).filter fun v => p (k, v) := by
  induction l with
  | nil => rfl
  | cons e l ih =>
    rw [List.map_cons, List.nodup_cons] at hl
    rw [List.filter_cons, assoc_cons]
    by_cases he : e.1 = k
    · subst he
      have hrest : assoc (l.filter p) e.1 = none := by
        rw [ih hl.2, assoc_eq_none_iff.mpr hl.1]
        rfl
      by_cases hp : p e = true
      · simp [hp, assoc_cons, Option.filter]
      · simp [hp, hrest, Option.filter]
    · rw [if_neg he, ← ih hl.2]
      by_cases hp : p e = true
      · rw [if_pos hp, assoc_cons, if_neg he]
      · rw [if_neg hp]

/-- A filter that keeps every entry of `k` keeps the lookup of `k`. -/
theorem assoc_filter_of_pos {l : List (κ × ν)} {p : κ × ν → Bool} {k : κ}
    (h : ∀ e, e.1 = k → p e = true) : assoc (l.filter p) k = assoc l k := by
  induction l with
  | nil => rfl
  | cons e l ih =>
    by_cases he : e.1 = k
    · simp [h e he, assoc_cons, he]
    · by_cases hp : p e = true
      · simp [hp, assoc_cons, he, ih]
      · simp [hp, assoc_cons, he, ih]

/-- A filter that drops every entry of `k` leaves no entry under `k`. -/
theorem assoc_filter_of_not {l : List (κ × ν)} {p : κ × ν → Bool} {k : κ}
    (h : ∀ e, e.1 = k → p e = false) : assoc (l.filter p) k = none := by
  rw [assoc_eq_none_iff]
  rintro hmem
  obtain ⟨e, he, hk⟩ := List.mem_map.mp hmem
  have hp := (List.mem_filter.mp he).2
  rw [h e hk] at hp
  simp at hp

omit [DecidableEq κ] in
/-- A partial function makes no duplicates of a list without duplicates exactly if it is injective
there. -/
theorem nodup_filterMap_iff {l : List κ} (hl : l.Nodup) {f : κ → Option ν} :
    (l.filterMap f).Nodup ↔
      ∀ a ∈ l, ∀ a' ∈ l, ∀ b, f a = some b → f a' = some b → a = a' := by
  rw [List.nodup_iff_pairwise_ne, List.pairwise_filterMap]
  constructor
  · intro hpairs a ha a' ha' b hb hb'
    have hsymm : Std.Symm fun a a' => ∀ b, f a = some b → ∀ b', f a' = some b' → b ≠ b' :=
      ⟨fun a a' h b hb b' hb' heq => h b' hb' b hb heq.symm⟩
    by_contra hne
    exact hpairs.forall ha ha' hne b hb b hb' rfl
  · intro h
    exact hl.pairwise_of_forall_ne fun a ha a' ha' hne b hb b' hb' heq =>
      hne (h a ha a' ha' b hb (heq ▸ hb'))

/-- A hash map as one traversal sees it. -/
structure HashMap (κ ν : Type) where
  entries : List (κ × ν)
  nodup : (entries.map Prod.fst).Nodup
  deriving DecidableEq

namespace HashMap

/-- The keys in iteration order. -/
def keys (m : HashMap κ ν) : List κ := m.entries.map Prod.fst

def get (m : HashMap κ ν) (k : κ) : Option ν := assoc m.entries k

def empty : HashMap κ ν := ⟨[], by simp⟩

instance : Inhabited (HashMap κ ν) := ⟨empty⟩

def isEmpty (m : HashMap κ ν) : Bool := m.entries.isEmpty

def containsKey (m : HashMap κ ν) (k : κ) : Bool := (m.get k).isSome

@[simp] theorem get_empty (k : κ) : (empty : HashMap κ ν).get k = none := rfl

omit [DecidableEq κ] in
theorem nodup_keys (m : HashMap κ ν) : m.keys.Nodup := m.nodup

omit [DecidableEq κ] in
theorem mem_keys_of_mem {m : HashMap κ ν} {e : κ × ν} (h : e ∈ m.entries) : e.1 ∈ m.keys :=
  List.mem_map_of_mem h

theorem get_eq_some_iff (m : HashMap κ ν) {k : κ} {v : ν} :
    m.get k = some v ↔ (k, v) ∈ m.entries :=
  assoc_eq_some_iff m.nodup

theorem get_eq_none_iff (m : HashMap κ ν) {k : κ} : m.get k = none ↔ k ∉ m.keys :=
  assoc_eq_none_iff

theorem isSome_get_iff (m : HashMap κ ν) {k : κ} : (m.get k).isSome = true ↔ k ∈ m.keys := by
  have h := m.get_eq_none_iff (k := k)
  cases hk : m.get k with
  | none => simp [h.mp hk]
  | some v =>
    simp only [Option.isSome_some, true_iff]
    by_contra hnot
    rw [h.mpr hnot] at hk
    simp at hk

omit [DecidableEq κ] in
theorem eq_empty {m : HashMap κ ν} (h : m.isEmpty = true) : m = empty := by
  obtain ⟨entries, nodup⟩ := m
  obtain rfl : entries = [] := List.isEmpty_iff.mp h
  rfl

theorem get_isEmpty {m : HashMap κ ν} (h : m.isEmpty = true) (k : κ) : m.get k = none := by
  rw [eq_empty h, get_empty]

/-- Insertion. The entry goes to the end of the iteration order, also when it replaces
one. -/
def insert (m : HashMap κ ν) (k : κ) (v : ν) : HashMap κ ν where
  entries := m.entries.filter (fun e => e.1 ≠ k) ++ [(k, v)]
  nodup := by
    rw [List.map_append, List.nodup_append]
    refine ⟨m.nodup.sublist ((List.filter_sublist).map _), by simp, ?_⟩
    rintro a ha b hb rfl
    rw [List.map_singleton, List.mem_singleton] at hb
    obtain ⟨e, he, rfl⟩ := List.mem_map.mp ha
    have hne := (List.mem_filter.mp he).2
    simp [hb] at hne

theorem get_insert (m : HashMap κ ν) (k j : κ) (v : ν) :
    (m.insert k v).get j = if j = k then some v else m.get j := by
  unfold get insert
  rw [assoc_append]
  by_cases hj : j = k
  · subst hj
    rw [if_pos rfl, assoc_filter_of_not (fun e he => by simp [he])]
    simp [assoc_cons]
  · have hkj : ¬ k = j := fun h => hj h.symm
    rw [if_neg hj, assoc_filter_of_pos (fun e he => by simp [he, hj])]
    simp [assoc_cons, hkj]

@[simp] theorem get_insert_self (m : HashMap κ ν) (k : κ) (v : ν) :
    (m.insert k v).get k = some v := by
  simp [get_insert]

/-- The entries whose key satisfies `p`, in the same order. -/
def filterKeys (m : HashMap κ ν) (p : κ → Bool) : HashMap κ ν where
  entries := m.entries.filter (fun e => p e.1)
  nodup := m.nodup.sublist (List.filter_sublist.map _)

theorem get_filterKeys (m : HashMap κ ν) (p : κ → Bool) (k : κ) :
    (m.filterKeys p).get k = if p k then m.get k else none := by
  unfold get filterKeys
  by_cases hp : p k = true
  · rw [if_pos hp]
    exact assoc_filter_of_pos fun e he => he ▸ hp
  · rw [if_neg hp]
    exact assoc_filter_of_not fun e he => by simpa [he] using hp

omit [DecidableEq κ] in
theorem isEmpty_filterKeys {m : HashMap κ ν} (h : m.isEmpty = true) (p : κ → Bool) :
    (m.filterKeys p).isEmpty = true := by
  rw [eq_empty h]
  rfl

/-- Two traversals of maps with the same contents. -/
def Same (m m' : HashMap κ ν) : Prop := ∀ k, m.get k = m'.get k

theorem Same.mem_entries {m m' : HashMap κ ν} (h : m.Same m') (e : κ × ν) :
    e ∈ m.entries ↔ e ∈ m'.entries := by
  rw [← m.get_eq_some_iff, ← m'.get_eq_some_iff, h]

theorem Same.mem_keys {m m' : HashMap κ ν} (h : m.Same m') (k : κ) :
    k ∈ m.keys ↔ k ∈ m'.keys := by
  rw [← m.isSome_get_iff, ← m'.isSome_get_iff, h]

theorem Same.isEmpty {m m' : HashMap κ ν} (h : m.Same m') : m.isEmpty = m'.isEmpty := by
  rw [Bool.eq_iff_iff, HashMap.isEmpty, HashMap.isEmpty, List.isEmpty_iff, List.isEmpty_iff,
    List.eq_nil_iff_forall_not_mem, List.eq_nil_iff_forall_not_mem]
  simp only [h.mem_entries]

/-- The same contents are the same entries in another order. -/
theorem Same.perm_entries {m m' : HashMap κ ν} (h : m.Same m') : m.entries.Perm m'.entries :=
  (List.perm_ext_iff_of_nodup (m.nodup.of_map _) (m'.nodup.of_map _)).mpr h.mem_entries

/-- The contents of a hash map as an unordered table. -/
def toTable (m : HashMap κ ν) : Table κ ν where
  keys := m.keys.toFinset
  get := m.get
  mem_keys k := by rw [List.mem_toFinset, m.isSome_get_iff]

@[simp] theorem get_toTable (m : HashMap κ ν) (k : κ) : m.toTable.get k = m.get k := rfl

/-! ## Inserting one entry after the other -/

def ofList (l : List (κ × ν)) : HashMap κ ν := l.foldl (fun m e => m.insert e.1 e.2) empty

/-- Of the entries under one key the last one stays. -/
theorem get_ofList (l : List (κ × ν)) (k : κ) : (ofList l).get k = assoc l.reverse k := by
  -- from any map, which holds what the list does not
  have hfold : ∀ m : HashMap κ ν, (l.foldl (fun m e => m.insert e.1 e.2) m).get k =
      (assoc l.reverse k).or (m.get k) := by
    induction l with
    | nil => intro m; rfl
    | cons e l ih =>
      intro m
      rw [List.foldl_cons, ih, get_insert, List.reverse_cons, assoc_append, Option.or_assoc]
      by_cases he : k = e.1
      · rw [if_pos he, assoc_cons, if_pos he.symm, Option.some_or]
      · have hne : ¬ e.1 = k := fun h => he h.symm
        rw [if_neg he, assoc_cons, if_neg hne, assoc_nil, Option.none_or]
  rw [ofList, hfold, get_empty, Option.or_none]

theorem mem_keys_ofList {l : List (κ × ν)} {k : κ} : k ∈ (ofList l).keys ↔ k ∈ l.map Prod.fst := by
  rw [← not_iff_not, ← get_eq_none_iff, get_ofList, assoc_eq_none_iff, List.map_reverse,
    List.mem_reverse]

/-- Without two different entries under one key, all of them stay. -/
theorem get_ofList_eq_some_iff {l : List (κ × ν)}
    (h : ∀ e ∈ l, ∀ e' ∈ l, e.1 = e'.1 → e = e') {k : κ} {v : ν} :
    (ofList l).get k = some v ↔ (k, v) ∈ l := by
  rw [get_ofList]
  constructor
  · intro hget
    exact List.mem_reverse.mp (mem_of_assoc hget)
  · intro hmem
    cases hget : assoc l.reverse k with
    | none =>
      rw [assoc_eq_none_iff, List.map_reverse, List.mem_reverse] at hget
      exact absurd (List.mem_map_of_mem hmem) hget
    | some v' =>
      have hmem' := List.mem_reverse.mp (mem_of_assoc hget)
      rw [(Prod.mk.inj (h _ hmem _ hmem' rfl)).2]

/-- A list with distinct keys is the hash map that one traversal of it fills. -/
theorem ofList_eq {l : List (κ × ν)} (h : (l.map Prod.fst).Nodup) : ofList l = ⟨l, h⟩ := by
  -- from any map without the keys of the list
  have hfold : ∀ m : HashMap κ ν, (∀ e ∈ m.entries, e.1 ∉ l.map Prod.fst) →
      (l.foldl (fun m e => m.insert e.1 e.2) m).entries = m.entries ++ l := by
    induction l with
    | nil => intro m _; simp
    | cons e l ih =>
      intro m hm
      rw [List.map_cons, List.nodup_cons] at h
      have hinsert : (m.insert e.1 e.2).entries = m.entries ++ [e] := by
        show m.entries.filter (fun e' => e'.1 ≠ e.1) ++ [(e.1, e.2)] = _
        congr 1
        rw [List.filter_eq_self]
        intro e' he'
        simpa using fun heq => hm e' he' (by simp [heq])
      rw [List.foldl_cons, ih h.2, hinsert, List.append_assoc, List.singleton_append]
      intro e' he'
      rw [hinsert] at he'
      rcases List.mem_append.mp he' with hold | hnew
      · exact fun hmem => hm e' hold (List.mem_cons_of_mem _ hmem)
      · obtain rfl := List.mem_singleton.mp hnew
        exact h.1
  have hentries : (ofList l).entries = l := hfold empty (fun e he => by cases he)
  cases hmap : ofList l with
  | mk entries nodup =>
    rw [hmap] at hentries
    subst hentries
    rfl

/-- Nothing is lost of a list exactly if its keys are distinct. -/
theorem length_ofList_iff {l : List (κ × ν)} :
    (ofList l).entries.length = l.length ↔ (l.map Prod.fst).Nodup := by
  have hkeys : (ofList l).keys.toFinset = (l.map Prod.fst).toFinset := by
    ext k
    rw [List.mem_toFinset, List.mem_toFinset, mem_keys_ofList]
  have hlength : (ofList l).entries.length = (l.map Prod.fst).dedup.length := by
    rw [← List.card_toFinset, ← hkeys, List.toFinset_card_of_nodup (ofList l).nodup_keys, keys,
      List.length_map]
  rw [hlength, ← List.dedup_eq_self]
  constructor
  · intro heq
    exact (List.dedup_sublist _).eq_of_length (heq.trans (List.length_map _).symm)
  · intro heq
    rw [heq, List.length_map]

/-! ## Accumulating counts -/

/-- `*m.entry(k).or_insert(0) += n`, without overflow checks. -/
def addTo (m : HashMap κ Int) (k : κ) (n : Int) : HashMap κ Int :=
  m.insert k (addWrapping ((m.get k).getD 0) n)

/-- The sum of what a list of pairs holds for one key. -/
def sumFor (l : List (κ × Int)) (k : κ) : Int := ((l.filter (fun e => e.1 = k)).map Prod.snd).sum

theorem sumFor_cons (e : κ × Int) (l : List (κ × Int)) (k : κ) :
    sumFor (e :: l) k = (if e.1 = k then e.2 else 0) + sumFor l k := by
  unfold sumFor
  by_cases he : e.1 = k <;> simp [he]

theorem sumFor_eq_zero {l : List (κ × Int)} {k : κ} (h : k ∉ l.map Prod.fst) :
    sumFor l k = 0 := by
  have hnil : l.filter (fun e => e.1 = k) = [] := by
    rw [List.filter_eq_nil_iff]
    intro e he hk
    exact h (List.mem_map.mpr ⟨e, he, by simpa using hk⟩)
  simp [sumFor, hnil]

def accumulate (l : List (κ × Int)) : HashMap κ Int := l.foldl (fun m e => m.addTo e.1 e.2) empty

/-- **The accumulated counts** are the wrapped sums, for exactly the keys that occur. -/
theorem get_accumulate (l : List (κ × Int)) (k : κ) :
    (accumulate l).get k = if k ∈ l.map Prod.fst then some (wrapI64 (sumFor l k)) else none := by
  -- from any map, a key that occurs ends at the wrapped sum of its start and its counts
  have hfold : ∀ m : HashMap κ Int, (l.foldl (fun m e => m.addTo e.1 e.2) m).get k =
      if k ∈ l.map Prod.fst then some (wrapI64 ((m.get k).getD 0 + sumFor l k)) else m.get k := by
    induction l with
    | nil => intro m; rfl
    | cons e l ih =>
      intro m
      rw [List.foldl_cons, ih, sumFor_cons, addTo, get_insert]
      by_cases he : e.1 = k
      · subst he
        by_cases hmem : e.1 ∈ l.map Prod.fst
        · rw [if_pos hmem, if_pos rfl, if_pos rfl, if_pos (by simp)]
          rw [Option.getD_some, addWrapping, wrapI64_add_wrapI64, add_assoc]
        · rw [if_neg hmem, if_pos rfl, if_pos rfl, if_pos (by simp), sumFor_eq_zero hmem]
          rw [addWrapping, add_zero]
      · have hne : ¬ k = e.1 := fun h => he h.symm
        simp only [List.map_cons, List.mem_cons, hne, he, if_false, zero_add, false_or]
  exact (hfold empty).trans (by simp)

end HashMap

end Lib
