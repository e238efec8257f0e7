import Kurl.Analytics.EventConsumer

/-!
# Kurl — draining the pending entries (`analytics/src/event_consumer.rs`)

`drain_pending` claims batches from the lowest pending id until a batch is empty. The exit test
counts the entries it claimed, not those it acknowledged, and `process_entry` swallows errors: an
entry whose call fails stays pending and is claimed again.

Which calls fail is a parameter (`CallPattern`: the entry, and how often it was tried), so the loop
is run with fuel and the question is whether any fuel is enough.

* **`drainPending_drained`** — `Draining.remaining` bounds the calls that are still to be made if
  every entry gets through at some attempt. A round spends some of it (`Draining.remaining_batch`),
  so the loop ends, with nothing pending.
* **`drainPending_outOfFuel`** — an entry that never gets through is pending for ever
  (`Draining.Stuck`), and while an entry is pending no batch is empty.

`drainPending_ends_iff` is both: the loop ends exactly if every entry gets through at some attempt.
-/

namespace Kurl

open Lib

/-- Which calls of `process_entry` reach Redis: by entry id and by how many calls for that entry
came before. The others return an error that is logged. -/
abbrev CallPattern := Nat → Nat → Bool

/-- Redis, the calls of `process_entry` so far by entry id, and the locals of the loop. -/
structure Draining where
  redis : Redis
  attempts : Nat → Nat
  totalClaimed : Nat
  rounds : Nat

/-- The start of `drain_pending`. -/
def Draining.start (r : Redis) : Draining := ⟨r, fun _ => 0, 0, 0⟩

inductive DrainEnd where
  | drained (d : Draining)
  /-- `XAUTOCLAIM` failed: `drain_pending` returns its error. -/
  | failed (d : Draining)
  | outOfFuel

section Loop

variable (serde : SerdeJson) (reaches : CallPattern)

/-- `EventConsumer::process_entry` over a connection that may fail. -/
def Draining.processEntry (d : Draining) (e : StreamId) : Draining :=
  { d with
    redis := if reaches e.id (d.attempts e.id) then Kurl.processEntry serde d.redis e else d.redis
    attempts := fun id => if id = e.id then d.attempts id + 1 else d.attempts id }

/-- `EventConsumer::drain_pending_batch`. -/
def drainPendingBatch (count : Nat) (d : Draining) : Option (Draining × Nat) :=
  (d.redis.xautoclaim count).map fun reply =>
    (reply.2.foldl (Draining.processEntry serde reaches) { d with redis := reply.1 },
      reply.2.length)

/-- `EventConsumer::drain_pending`. `shutdown` tells in which rounds the token is cancelled. -/
def drainPending (shutdown : Nat → Bool) (count : Nat) : Nat → Draining → DrainEnd
  | 0, _ => .outOfFuel
  | fuel + 1, d =>
    if shutdown d.rounds then .drained d
    else match drainPendingBatch serde reaches count d with
      | none => .failed d
      | some (d', claimed) =>
        if claimed = 0 then .drained d'
        else drainPending shutdown count fuel
          { d' with totalClaimed := d'.totalClaimed + claimed, rounds := d'.rounds + 1 }

end Loop

/-! ## One call -/

/-- The entry is not pending any more, and the rest of the stream is as it was. -/
structure TakesOut (r r' : Redis) (id : Nat) : Prop where
  pel : r'.pel = r.pel.filter (fun j => j ≠ id)
  group : r'.group.isSome = r.group.isSome
  entries : ∀ a ∈ r.entries, a.id ≠ id → a ∈ r'.entries

section Calls

variable {r : Redis} {id : Nat}

/-- An entry that is not pending is left alone. -/
theorem TakesOut.of_notMem (hpend : id ∉ r.pel) : TakesOut r r id where
  pel := by
    rw [List.filter_eq_self.mpr]
    intro j hj
    have hne : j ≠ id := fun heq => hpend (heq ▸ hj)
    simpa using hne
  group := rfl
  entries := fun a ha _ => ha

theorem takesOut_xack (hpend : id ∈ r.pel) : TakesOut r (r.xack id).1 id := by
  obtain ⟨g, hg, hack⟩ := xack_of_mem hpend
  rw [hack]
  exact ⟨by simp [Redis.pel, hg], by simp [hg], fun a ha _ => ha⟩

theorem takesOut_xack_xdel (hpend : id ∈ r.pel) : TakesOut r ((r.xack id).1.xdel id) id where
  pel := (takesOut_xack hpend).pel
  group := (takesOut_xack hpend).group
  entries := by
    intro a ha hne
    have hin := (takesOut_xack hpend).entries a ha hne
    exact List.mem_filter.mpr ⟨hin, by simpa using hne⟩

theorem takesOut_dropClickEvent (r : Redis) (id : Nat) : TakesOut r (dropClickEvent r id) id := by
  unfold dropClickEvent
  by_cases hpend : id ∈ r.pel
  · rw [xackDel_of_mem hpend]
    exact takesOut_xack_xdel hpend
  · rw [xackDel_of_notMem hpend]
    exact TakesOut.of_notMem hpend

theorem takesOut_recordClickEvent (r : Redis) (id : Nat) (event : ClickEvent) :
    TakesOut r (recordClickEvent r id event).2 id := by
  by_cases hpend : id ∈ r.pel
  · by_cases hroom : ∀ b, event.hits b = true → r.HasRoom b
    · rw [recordClickEvent_of_mem hpend event hroom]
      obtain ⟨hpel, hgroup, hentries⟩ := takesOut_xack_xdel hpend
      exact ⟨hpel, hgroup, hentries⟩
    · -- a script that fails has acknowledged the entry already
      simp only [not_forall] at hroom
      obtain ⟨b, hb, hfull⟩ := hroom
      obtain ⟨buckets, heq, -⟩ := recordClickEvent_of_full hpend event hb hfull
      rw [heq]
      obtain ⟨hpel, hgroup, hentries⟩ := takesOut_xack hpend
      exact ⟨hpel, hgroup, hentries⟩
  · rw [recordClickEvent_of_notMem hpend]
    exact TakesOut.of_notMem hpend

/-- **A call that reaches Redis** takes its own entry from the pending list and no other,
whether or not its script fails. -/
theorem takesOut_processEntry (serde : SerdeJson) (r : Redis) (e : StreamId) :
    TakesOut r (processEntry serde r e) e.id := by
  unfold processEntry
  cases parseClickEvent serde e with
  | none => exact takesOut_dropClickEvent r e.id
  | some event => exact takesOut_recordClickEvent r e.id event

theorem Redis.Claimable.of_takesOut {r' : Redis} (h : r.Claimable) (hout : TakesOut r r' id) :
    r'.Claimable where
  group := hout.group.trans h.group
  live := by
    intro j hj
    rw [hout.pel, List.mem_filter, decide_eq_true_eq] at hj
    obtain ⟨a, ha, rfl⟩ := List.mem_map.mp (h.live j hj.1)
    exact List.mem_map_of_mem (hout.entries a ha hj.2)

/-- An empty claim leaves nothing pending. -/
theorem pel_eq_nil_of_claimed_nil (h : r.Claimable) {count : Nat} (hcount : 0 < count)
    (hnil : r.entries.filter (fun e => e.id ∈ r.pel.take count) = []) : r.pel = [] := by
  cases hpel : r.pel with
  | nil => rfl
  | cons first rest =>
    have hfirst : first ∈ r.pel := hpel ▸ List.mem_cons_self
    obtain ⟨e, he, hid⟩ := List.mem_map.mp (h.live first hfirst)
    have hscan : e.id ∈ r.pel.take count := by
      rw [hpel, hid]
      cases count with
      | zero => omega
      | succ n => simp
    rw [List.filter_eq_nil_iff] at hnil
    exact absurd (by simpa using hscan) (hnil e he)

end Calls

/-! ## The loop -/

section Rounds

variable {serde : SerdeJson} {reaches : CallPattern} {r : Redis} {d d' : Draining}

/-- What holds after any number of calls, started on `r`. -/
structure Draining.Inv (reaches : CallPattern) (r : Redis) (d : Draining) : Prop where
  claimable : d.redis.Claimable
  subset : ∀ id ∈ d.redis.pel, id ∈ r.pel
  /-- Every call for a pending entry was lost. -/
  lost : ∀ id ∈ d.redis.pel, ∀ k < d.attempts id, reaches id k = false
  /-- An entry leaves the pending list by a call. -/
  passed : ∀ id ∈ r.pel, id ∈ d.redis.pel ∨ 0 < d.attempts id

theorem Draining.Inv.start (h : r.Claimable) : (Draining.start r).Inv reaches r where
  claimable := h
  subset := fun _ hid => hid
  lost := fun _ _ k hk => absurd hk (Nat.not_lt_zero k)
  passed := fun _ hid => .inl hid

/-- The pending list after a call. -/
theorem mem_pel_processEntry {e : StreamId} {id : Nat} :
    id ∈ (d.processEntry serde reaches e).redis.pel ↔
      id ∈ d.redis.pel ∧ ¬ (id = e.id ∧ reaches e.id (d.attempts e.id) = true) := by
  show id ∈ (if reaches e.id (d.attempts e.id) = true then processEntry serde d.redis e
    else d.redis).pel ↔ _
  cases reaches e.id (d.attempts e.id) with
  | false => simp
  | true =>
    rw [if_pos rfl, (takesOut_processEntry serde d.redis e).pel, List.mem_filter]
    simp

theorem Draining.Inv.processEntry (serde : SerdeJson) (h : d.Inv reaches r) (e : StreamId) :
    (d.processEntry serde reaches e).Inv reaches r where
  claimable := by
    show (if reaches e.id (d.attempts e.id) = true then Kurl.processEntry serde d.redis e
      else d.redis).Claimable
    split
    · exact h.claimable.of_takesOut (takesOut_processEntry serde d.redis e)
    · exact h.claimable
  subset := fun id hid => h.subset id (mem_pel_processEntry.mp hid).1
  lost := by
    intro id hid k hk
    obtain ⟨hin, hnot⟩ := mem_pel_processEntry.mp hid
    change k < (if id = e.id then d.attempts id + 1 else d.attempts id) at hk
    split at hk
    · next heq =>
      subst heq
      -- the last call is the one just made, and it left the entry pending
      rcases Nat.lt_succ_iff_lt_or_eq.mp hk with hlt | rfl
      · exact h.lost _ hin k hlt
      · simpa using hnot
    · exact h.lost id hin k hk
  passed := by
    intro id hid
    show _ ∨ 0 < (if id = e.id then d.attempts id + 1 else d.attempts id)
    by_cases heq : id = e.id
    · exact .inr (by rw [if_pos heq]; omega)
    · rw [if_neg heq, mem_pel_processEntry]
      rcases h.passed id hid with hin | hpos
      · exact .inl ⟨hin, fun hboth => heq hboth.1⟩
      · exact .inr hpos

theorem Draining.Inv.foldl (h : d.Inv reaches r) (claimed : List StreamId) :
    (claimed.foldl (Draining.processEntry serde reaches) d).Inv reaches r := by
  induction claimed generalizing d with
  | nil => exact h
  | cons e claimed ih => exact ih (h.processEntry serde e)

/-- The locals of the loop are not part of the invariant. -/
theorem Draining.Inv.nextRound (h : d.Inv reaches r) (claimed : Nat) :
    { d with totalClaimed := d.totalClaimed + claimed, rounds := d.rounds + 1 }.Inv reaches r :=
  ⟨h.claimable, h.subset, h.lost, h.passed⟩

/-- A batch, spelled out. -/
theorem drainPendingBatch_eq (h : d.Inv reaches r) (count : Nat) :
    drainPendingBatch serde reaches count d =
      let claimed := d.redis.entries.filter (fun e => e.id ∈ d.redis.pel.take count)
      some (claimed.foldl (Draining.processEntry serde reaches) d, claimed.length) := by
  unfold drainPendingBatch
  rw [xautoclaim_eq h.claimable]
  rfl

/-! ## Entries that get through -/

/-- The calls still to come, if the entries get through at the attempts `success`. -/
def Draining.remaining (success : Nat → Nat) (r : Redis) (d : Draining) : Nat :=
  ∑ id ∈ r.pel.toFinset, if id ∈ d.redis.pel then success id + 1 - d.attempts id else 0

variable {success : Nat → Nat}

/-- An entry that is still pending has not come to its successful attempt. -/
theorem Draining.Inv.attempts_le (h : d.Inv reaches r)
    (hsuccess : ∀ id ∈ r.pel, reaches id (success id) = true) {id : Nat}
    (hid : id ∈ d.redis.pel) : d.attempts id ≤ success id := by
  by_contra hlt
  have hlost := h.lost id hid (success id) (by omega)
  rw [hsuccess id (h.subset id hid)] at hlost
  cases hlost

/-- A call takes nothing up again, and a call for a pending entry is one call less. -/
theorem Draining.remaining_processEntry (serde : SerdeJson) (h : d.Inv reaches r)
    (hsuccess : ∀ id ∈ r.pel, reaches id (success id) = true) (e : StreamId) :
    (d.processEntry serde reaches e).remaining success r ≤ d.remaining success r ∧
      (e.id ∈ d.redis.pel →
        (d.processEntry serde reaches e).remaining success r < d.remaining success r) := by
  have hterm : ∀ id ∈ r.pel.toFinset,
      (if id ∈ (d.processEntry serde reaches e).redis.pel then
          success id + 1 - (d.processEntry serde reaches e).attempts id else 0) ≤
        if id ∈ d.redis.pel then success id + 1 - d.attempts id else 0 := by
    intro id _
    by_cases hin : id ∈ (d.processEntry serde reaches e).redis.pel
    · rw [if_pos hin, if_pos (mem_pel_processEntry.mp hin).1]
      have hge : d.attempts id ≤ (d.processEntry serde reaches e).attempts id := by
        show d.attempts id ≤ if id = e.id then d.attempts id + 1 else d.attempts id
        split <;> omega
      omega
    · rw [if_neg hin]
      exact Nat.zero_le _
  refine ⟨Finset.sum_le_sum hterm, fun hpend => ?_⟩
  refine Finset.sum_lt_sum hterm ⟨e.id, List.mem_toFinset.mpr (h.subset _ hpend), ?_⟩
  have hle := h.attempts_le hsuccess hpend
  rw [if_pos hpend]
  split
  · show success e.id + 1 - (if e.id = e.id then d.attempts e.id + 1 else d.attempts e.id) < _
    rw [if_pos rfl]
    omega
  · omega

theorem Draining.remaining_foldl (serde : SerdeJson) (h : d.Inv reaches r)
    (hsuccess : ∀ id ∈ r.pel, reaches id (success id) = true) (claimed : List StreamId) :
    (claimed.foldl (Draining.processEntry serde reaches) d).remaining success r ≤
      d.remaining success r := by
  induction claimed generalizing d with
  | nil => exact Nat.le_refl _
  | cons e claimed ih =>
    have hstep := (Draining.remaining_processEntry serde h hsuccess e).1
    exact Nat.le_trans (ih (h.processEntry serde e)) hstep

/-- A batch with an entry in it is some calls less. -/
theorem Draining.remaining_batch (serde : SerdeJson) (h : d.Inv reaches r)
    (hsuccess : ∀ id ∈ r.pel, reaches id (success id) = true) {claimed : List StreamId}
    (hne : claimed ≠ []) (hpend : ∀ e ∈ claimed, e.id ∈ d.redis.pel) :
    (claimed.foldl (Draining.processEntry serde reaches) d).remaining success r <
      d.remaining success r := by
  cases claimed with
  | nil => exact absurd rfl hne
  | cons e claimed =>
    have hfirst := (Draining.remaining_processEntry serde h hsuccess e).2
      (hpend e List.mem_cons_self)
    have hrest := Draining.remaining_foldl serde (h.processEntry serde e) hsuccess claimed
    exact Nat.lt_of_le_of_lt hrest hfirst

/-- **The loop ends** once its fuel exceeds the calls to come, with nothing pending. -/
theorem drainPending_drained (serde : SerdeJson) {count : Nat} (hcount : 0 < count)
    (hsuccess : ∀ id ∈ r.pel, reaches id (success id) = true) {fuel : Nat}
    (h : d.Inv reaches r) (hfuel : d.remaining success r < fuel) :
    ∃ d', drainPending serde reaches (fun _ => false) count fuel d = .drained d' ∧
      d'.Inv reaches r ∧ d'.redis.pel = [] := by
  induction fuel generalizing d with
  | zero => omega
  | succ fuel ih =>
    unfold drainPending
    rw [if_neg (by simp), drainPendingBatch_eq h]
    dsimp only
    have hfirst : ∀ e ∈ d.redis.entries.filter (fun e => e.id ∈ d.redis.pel.take count),
        e.id ∈ d.redis.pel := by
      intro e he
      rw [List.mem_filter, decide_eq_true_eq] at he
      exact List.mem_of_mem_take he.2
    by_cases hnil : d.redis.entries.filter (fun e => e.id ∈ d.redis.pel.take count) = []
    · rw [hnil, if_pos List.length_nil]
      exact ⟨d, rfl, h, pel_eq_nil_of_claimed_nil h.claimable hcount hnil⟩
    · rw [if_neg (by rwa [List.length_eq_zero_iff])]
      have hless := Draining.remaining_batch serde h hsuccess hnil hfirst
      exact ih ((h.foldl _).nextRound _) (by
        show Draining.remaining success r (List.foldl _ d _) < fuel
        omega)

/-! ## Entries that never get through -/

/-- An entry is pending whose calls are all lost. -/
def Draining.Stuck (reaches : CallPattern) (d : Draining) : Prop :=
  ∃ id ∈ d.redis.pel, ∀ k, reaches id k = false

theorem Draining.Stuck.foldl (h : d.Stuck reaches) (claimed : List StreamId) :
    (claimed.foldl (Draining.processEntry serde reaches) d).Stuck reaches := by
  induction claimed generalizing d with
  | nil => exact h
  | cons e claimed ih =>
    obtain ⟨id, hid, hlost⟩ := h
    apply ih
    refine ⟨id, mem_pel_processEntry.mpr ⟨hid, ?_⟩, hlost⟩
    rintro ⟨rfl, htrue⟩
    rw [hlost] at htrue
    cases htrue

/-- **The loop does not end** while such an entry is pending: every batch claims something. -/
theorem drainPending_outOfFuel {count : Nat} (hcount : 0 < count) (fuel : Nat)
    (h : d.Inv reaches r) (hstuck : d.Stuck reaches) :
    drainPending serde reaches (fun _ => false) count fuel d = .outOfFuel := by
  induction fuel generalizing d with
  | zero => rfl
  | succ fuel ih =>
    unfold drainPending
    rw [if_neg (by simp), drainPendingBatch_eq h]
    dsimp only
    rw [if_neg]
    · exact ih ((h.foldl _).nextRound _) (hstuck.foldl _)
    · intro hzero
      have hnil := pel_eq_nil_of_claimed_nil h.claimable hcount (List.length_eq_zero_iff.mp hzero)
      obtain ⟨id, hid, -⟩ := hstuck
      rw [hnil] at hid
      cases hid

end Rounds

/-- **When `drain_pending` ends.** Without a shutdown and a failing `XAUTOCLAIM` the loop ends,
and has passed every entry pending at its start to `process_entry`, exactly if each of them has
an attempt that gets through. -/
theorem drainPending_ends_iff (serde : SerdeJson) (reaches : CallPattern) {r : Redis}
    (h : r.Claimable) {count : Nat} (hcount : 0 < count) :
    (∃ fuel d, drainPending serde reaches (fun _ => false) count fuel (.start r) = .drained d ∧
      ∀ id ∈ r.pel, 0 < d.attempts id) ↔ ∀ id ∈ r.pel, ∃ k, reaches id k = true := by
  constructor
  · rintro ⟨fuel, d, hend, -⟩ id hid
    by_contra hnone
    have hstuck : (Draining.start r).Stuck reaches :=
      ⟨id, hid, fun k => by simpa using fun htrue => hnone ⟨k, htrue⟩⟩
    rw [drainPending_outOfFuel hcount fuel (Draining.Inv.start h) hstuck] at hend
    cases hend
  · intro hall
    have hsome : ∀ id, ∃ k, id ∈ r.pel → reaches id k = true := by
      intro id
      by_cases hid : id ∈ r.pel
      · obtain ⟨k, hk⟩ := hall id hid
        exact ⟨k, fun _ => hk⟩
      · exact ⟨0, fun hin => absurd hin hid⟩
    obtain ⟨success, hsuccess⟩ := Classical.axiomOfChoice hsome
    obtain ⟨d, hend, hinv, hnil⟩ := drainPending_drained serde hcount hsuccess
      (Draining.Inv.start h) (Nat.lt_succ_self _)
    refine ⟨_, d, hend, fun id hid => ?_⟩
    rcases hinv.passed id hid with hin | hpos
    · rw [hnil] at hin
      cases hin
    · exact hpos

/-- A stream of two pending entries, neither of them an event. -/
def twoPending : Redis :=
  { Redis.empty with
    entries := [⟨1, HashMap.empty⟩, ⟨2, HashMap.empty⟩]
    lastId := 2
    group := some ⟨2, [1, 2]⟩ }

theorem claimable_twoPending : twoPending.Claimable := ⟨rfl, by decide⟩

/-- No click event parses. -/
def noEvents : SerdeJson := ⟨fun _ => none, fun _ => none⟩

theorem drainPending_ends_twoPending :
    ∃ fuel d, drainPending noEvents (fun _ k => k = 1) (fun _ => false) 1 fuel (.start twoPending) =
      .drained d ∧ ∀ id ∈ twoPending.pel, 0 < d.attempts id :=
  (drainPending_ends_iff noEvents _ claimable_twoPending (by decide)).mpr fun _ _ => ⟨1, rfl⟩

/-- The first entry never gets through: the loop does not end. -/
theorem drainPending_starves_twoPending : ¬ ∃ fuel d,
    drainPending noEvents (fun id _ => id ≠ 1) (fun _ => false) 1 fuel (.start twoPending) =
      .drained d := by
  rintro ⟨fuel, d, hend⟩
  have hstuck : (Draining.start twoPending).Stuck (fun id _ => id ≠ 1) :=
    ⟨1, by decide, fun _ => rfl⟩
  rw [drainPending_outOfFuel (by decide) fuel (Draining.Inv.start claimable_twoPending) hstuck]
    at hend
  cases hend

end Kurl
