import Kurl.RedisStats

/-!
# Kurl — the event consumer (`analytics/src/event_consumer.rs`)

`processEntry` is what the consumer does with one delivered stream entry. Around it this module
develops `StreamInv`, the relation between the Redis stream and the list of all entries ever
appended to it:

* an entry above the last delivered id is in the stream;
* an entry at or below it is in the stream exactly while it is pending.

So an appended entry is *undelivered*, *pending* or *acknowledged* (`Redis.Acked`), and the two
facts every later argument uses are that a delivery acknowledges nothing (`acked_xreadgroup`) and
that `processEntry` acknowledges its own entry and no other (`acked_processEntry`).

Each command of the consumer has three lemmas: what it does to the fields of Redis (`_cases`), that
it keeps the invariant (`StreamInv.`), and what it acknowledges (`acked_`). How the payload of an
entry is parsed is the parameter `SerdeJson`; an entry that does not parse is acknowledged and
counts nowhere.
-/

namespace Kurl

open Lib

/-- `serde_json` at the type `ClickEvent`: the parsers of a third-party crate. -/
structure SerdeJson where
  fromSlice : List UInt8 → Option ClickEvent
  fromStr : String → Option ClickEvent

/-- `EventConsumer::parse_click_event`. -/
def parseClickEvent (serde : SerdeJson) (entry : StreamId) : Option ClickEvent :=
  match entry.map.get "event" with
  | none => none
  | some (.bulkString bytes) => serde.fromSlice bytes
  | some (.simpleString s) => serde.fromStr s
  | some .other => none

/-- `EventConsumer::process_entry`. Errors of either call are logged and dropped. -/
def processEntry (serde : SerdeJson) (r : Redis) (entry : StreamId) : Redis :=
  match parseClickEvent serde entry with
  | some event => (recordClickEvent r entry.id event).2
  | none => dropClickEvent r entry.id

/-! ## The stream and everything ever appended to it -/

/-- The entry was delivered and is not pending any more. -/
def Redis.Acked (r : Redis) (e : StreamId) : Prop := e.id ≤ r.lastDelivered ∧ e.id ∉ r.pel

instance (r : Redis) (e : StreamId) : Decidable (r.Acked e) :=
  inferInstanceAs (Decidable (_ ∧ _))

/-- The state of the stream in terms of `log`, the entries appended since Redis was empty. -/
structure StreamInv (r : Redis) (log : List StreamId) : Prop where
  sorted : log.Pairwise (fun a b => a.id < b.id)
  positive : ∀ e ∈ log, 0 < e.id
  bounded : ∀ e ∈ log, e.id ≤ r.lastId
  delivered_le : r.lastDelivered ≤ r.lastId
  sublist : r.entries.Sublist log
  undelivered_mem : ∀ e ∈ log, r.lastDelivered < e.id → e ∈ r.entries
  pending_mem : ∀ id ∈ r.pel, id ≤ r.lastDelivered ∧ ∃ e ∈ r.entries, e.id = id
  delivered_mem : ∀ e ∈ r.entries, e.id ≤ r.lastDelivered → e.id ∈ r.pel

namespace StreamInv

variable {r : Redis} {log : List StreamId}

theorem nodup (h : StreamInv r log) : log.Nodup :=
  h.sorted.imp fun hab heq => Nat.ne_of_lt hab (congrArg StreamId.id heq)

theorem nodup_ids (h : StreamInv r log) : (log.map StreamId.id).Nodup := by
  rw [List.Nodup, List.pairwise_map]
  exact h.sorted.imp fun hab => Nat.ne_of_lt hab

/-- Ids identify the appended entries. -/
theorem eq_of_id_eq (h : StreamInv r log) {a b : StreamId} (ha : a ∈ log) (hb : b ∈ log)
    (hid : a.id = b.id) : a = b :=
  List.inj_on_of_nodup_map h.nodup_ids ha hb hid

theorem mem_log (h : StreamInv r log) {e : StreamId} (he : e ∈ r.entries) : e ∈ log :=
  h.sublist.subset he

/-- A pending id whose appended entry is known is in the stream. -/
theorem mem_entries_of_pending (h : StreamInv r log) {e : StreamId} (he : e ∈ log)
    (hpend : e.id ∈ r.pel) : e ∈ r.entries := by
  obtain ⟨-, e', he', hid⟩ := h.pending_mem e.id hpend
  rwa [h.eq_of_id_eq he (h.mem_log he') hid.symm]

/-- An acknowledged entry is not in the stream. -/
theorem notMem_of_acked (h : StreamInv r log) {e : StreamId} (hack : r.Acked e) :
    e ∉ r.entries := fun he => hack.2 (h.delivered_mem e he hack.1)

/-- The invariant speaks of the stream and the group only. -/
theorem congr {r' : Redis} (h : StreamInv r log) (hentries : r'.entries = r.entries)
    (hlast : r'.lastId = r.lastId) (hdelivered : r'.lastDelivered = r.lastDelivered)
    (hpel : r'.pel = r.pel) : StreamInv r' log where
  sorted := h.sorted
  positive := h.positive
  bounded := by rw [hlast]; exact h.bounded
  delivered_le := by rw [hlast, hdelivered]; exact h.delivered_le
  sublist := by rw [hentries]; exact h.sublist
  undelivered_mem := by rw [hentries, hdelivered]; exact h.undelivered_mem
  pending_mem := by rw [hentries, hdelivered, hpel]; exact h.pending_mem
  delivered_mem := by rw [hentries, hdelivered, hpel]; exact h.delivered_mem

theorem empty : StreamInv Redis.empty [] where
  sorted := List.Pairwise.nil
  positive := by simp
  bounded := by simp
  delivered_le := by simp [Redis.lastDelivered, Redis.empty]
  sublist := List.Sublist.slnil
  undelivered_mem := by simp
  pending_mem := by simp [Redis.pel, Redis.empty]
  delivered_mem := by simp [Redis.empty]

end StreamInv

/-! ## Appends and deliveries -/

section Deliveries

variable {r r' : Redis} {log : List StreamId}

theorem xadd_cases {e : StreamId} (hadd : r.xadd e = some r') :
    r.lastId < e.id ∧ r' = { r with entries := r.entries ++ [e], lastId := e.id } := by
  unfold Redis.xadd at hadd
  split at hadd
  · next hlt => exact ⟨hlt, (Option.some.inj hadd).symm⟩
  · simp at hadd

theorem StreamInv.xadd (h : StreamInv r log) {e : StreamId} (hadd : r.xadd e = some r') :
    StreamInv r' (log ++ [e]) := by
  obtain ⟨hlt, rfl⟩ := xadd_cases hadd
  have hbelow : ∀ a ∈ log, a.id < e.id := fun a ha => Nat.lt_of_le_of_lt (h.bounded a ha) hlt
  have hdel : r.lastDelivered < e.id := Nat.lt_of_le_of_lt h.delivered_le hlt
  refine
    { sorted := ?_, positive := ?_, bounded := ?_, delivered_le := Nat.le_of_lt hdel,
      sublist := h.sublist.append_right [e], undelivered_mem := ?_, pending_mem := ?_,
      delivered_mem := ?_ }
  · rw [List.pairwise_append]
    refine ⟨h.sorted, List.pairwise_singleton _ _, fun a ha b hb => ?_⟩
    rw [List.mem_singleton.mp hb]
    exact hbelow a ha
  · intro a ha
    rcases List.mem_append.mp ha with ha | ha
    · exact h.positive a ha
    · rw [List.mem_singleton.mp ha]
      exact Nat.lt_of_le_of_lt (Nat.zero_le _) hlt
  · intro a ha
    rcases List.mem_append.mp ha with ha | ha
    · exact Nat.le_of_lt (hbelow a ha)
    · rw [List.mem_singleton.mp ha]
  · intro a ha hlow
    rcases List.mem_append.mp ha with ha | ha
    · exact List.mem_append_left _ (h.undelivered_mem a ha hlow)
    · exact List.mem_append_right _ ha
  · intro id hid
    obtain ⟨hle, a, ha, hida⟩ := h.pending_mem id hid
    exact ⟨hle, a, List.mem_append_left _ ha, hida⟩
  · intro a ha hle
    rcases List.mem_append.mp ha with ha | ha
    · exact h.delivered_mem a ha hle
    · -- the new entry lies above everything delivered
      rw [List.mem_singleton.mp ha] at hle
      exact absurd hle (Nat.not_le_of_lt hdel)

theorem acked_xadd {e : StreamId} (hadd : r.xadd e = some r') (a : StreamId) :
    r'.Acked a ↔ r.Acked a := by
  obtain ⟨-, rfl⟩ := xadd_cases hadd
  exact Iff.rfl

theorem not_acked_xadd (h : StreamInv r log) {e : StreamId} (hadd : r.xadd e = some r') :
    ¬ r'.Acked e := by
  obtain ⟨hlt, rfl⟩ := xadd_cases hadd
  rintro ⟨hle, -⟩
  exact absurd (Nat.le_trans hle h.delivered_le) (Nat.not_le_of_lt hlt)

/-- `XGROUP CREATE .. 0` on a stream without a group delivers nothing. -/
theorem xgroupCreateMkstream_data (r : Redis) :
    r.xgroupCreateMkstream.lastDelivered = r.lastDelivered ∧
      r.xgroupCreateMkstream.pel = r.pel ∧ r.xgroupCreateMkstream.entries = r.entries ∧
      r.xgroupCreateMkstream.lastId = r.lastId ∧ r.xgroupCreateMkstream.buckets = r.buckets ∧
      r.xgroupCreateMkstream.lastClickedAt = r.lastClickedAt := by
  cases hg : r.group with
  | none => simp [Redis.xgroupCreateMkstream, Redis.lastDelivered, Redis.pel, hg]
  | some g => simp [Redis.xgroupCreateMkstream, hg]

theorem StreamInv.xgroupCreateMkstream (h : StreamInv r log) :
    StreamInv r.xgroupCreateMkstream log := by
  obtain ⟨hdel, hpel, hentries, hlast, -, -⟩ := xgroupCreateMkstream_data r
  exact h.congr hentries hlast hdel hpel

theorem acked_xgroupCreateMkstream (r : Redis) (e : StreamId) :
    r.xgroupCreateMkstream.Acked e ↔ r.Acked e := by
  obtain ⟨hdel, hpel, -⟩ := xgroupCreateMkstream_data r
  unfold Redis.Acked
  rw [hdel, hpel]

/-- Everything `XREADGROUP` does: the batch is the first part of the undelivered entries,
its ids become pending, and the last delivered id moves to the end of the batch. -/
theorem xreadgroup_cases {count : Nat} {batch : List StreamId}
    (hread : r.xreadgroup count = some (r', batch)) :
    ∃ rest, r.entries.filter (fun e => r.lastDelivered < e.id) = batch ++ rest ∧
      r'.lastDelivered = batch.getLast?.elim r.lastDelivered StreamId.id ∧
      r'.pel = r.pel ++ batch.map StreamId.id ∧ r'.entries = r.entries ∧
      r'.lastId = r.lastId ∧ r'.buckets = r.buckets ∧ r'.lastClickedAt = r.lastClickedAt := by
  unfold Redis.xreadgroup at hread
  cases hg : r.group with
  | none => simp [hg] at hread
  | some g =>
    rw [hg, Option.map_some, Option.some.injEq, Prod.mk.injEq] at hread
    obtain ⟨rfl, rfl⟩ := hread
    refine ⟨(r.entries.filter (fun e => g.lastDelivered < e.id)).drop count, ?_, ?_, ?_,
      rfl, rfl, rfl, rfl⟩
    · rw [List.take_append_drop]
      simp [Redis.lastDelivered, hg]
    · simp [Redis.lastDelivered, hg]
    · simp [Redis.pel, hg]

/-- A delivery moves the last delivered id to the entries it delivers and no further. -/
theorem xreadgroup_lastDelivered (h : StreamInv r log) {count : Nat} {batch : List StreamId}
    (hread : r.xreadgroup count = some (r', batch)) :
    (∀ e ∈ batch, e ∈ r.entries ∧ r.lastDelivered < e.id ∧ e.id ≤ r'.lastDelivered) ∧
      (∀ e ∈ r.entries, r.lastDelivered < e.id → e.id ≤ r'.lastDelivered → e ∈ batch) ∧
      r.lastDelivered ≤ r'.lastDelivered ∧
      (r'.lastDelivered = r.lastDelivered ∨ ∃ e ∈ batch, e.id = r'.lastDelivered) := by
  obtain ⟨rest, hsplit, hdel, -⟩ := xreadgroup_cases hread
  have hmem : ∀ e, e ∈ r.entries ∧ r.lastDelivered < e.id ↔ e ∈ batch ++ rest := by
    intro e
    rw [← hsplit, List.mem_filter]
    simp
  have hsorted : (batch ++ rest).Pairwise (fun a b => a.id < b.id) := by
    rw [← hsplit]
    exact (h.sorted.sublist h.sublist).sublist List.filter_sublist
  -- the last delivered id is that of the last entry of the batch, if there is one
  rcases List.eq_nil_or_concat' batch with hnil | ⟨init, e, hcat⟩
  · subst hnil
    have heq : r'.lastDelivered = r.lastDelivered := hdel
    refine ⟨by simp, fun e _ hlt hle => absurd hle (by omega), by omega, .inl heq⟩
  · subst hcat
    have heq : r'.lastDelivered = e.id := by simpa using hdel
    rw [List.pairwise_append, List.pairwise_append] at hsorted
    obtain ⟨⟨-, -, hinit⟩, -, hrest⟩ := hsorted
    have hlow : r.lastDelivered < e.id := ((hmem e).mpr (by simp)).2
    refine ⟨fun a ha => ?_, fun a ha hlt hle => ?_, by omega, .inr ⟨e, by simp, heq.symm⟩⟩
    · have hboth := (hmem a).mpr (List.mem_append_left _ ha)
      refine ⟨hboth.1, hboth.2, ?_⟩
      rcases List.mem_append.mp ha with hin | hin
      · exact heq ▸ Nat.le_of_lt (hinit a hin e (by simp))
      · rw [List.mem_singleton.mp hin, heq]
    · -- an entry of the remainder lies above the last entry of the batch
      rcases List.mem_append.mp ((hmem a).mp ⟨ha, hlt⟩) with hin | hin
      · exact hin
      · have := hrest e (by simp) a hin
        omega

theorem StreamInv.xreadgroup (h : StreamInv r log) {count : Nat} {batch : List StreamId}
    (hread : r.xreadgroup count = some (r', batch)) : StreamInv r' log := by
  obtain ⟨-, -, -, hpel, hentries, hlast, -, -⟩ := xreadgroup_cases hread
  obtain ⟨hbatch, hback, hmono, hend⟩ := xreadgroup_lastDelivered h hread
  refine
    { sorted := h.sorted, positive := h.positive, bounded := hlast ▸ h.bounded,
      delivered_le := ?_, sublist := hentries ▸ h.sublist, undelivered_mem := ?_,
      pending_mem := ?_, delivered_mem := ?_ }
  · rw [hlast]
    rcases hend with heq | ⟨e, he, heq⟩
    · exact heq ▸ h.delivered_le
    · exact heq ▸ h.bounded e (h.mem_log (hbatch e he).1)
  · rw [hentries]
    exact fun e he hlt => h.undelivered_mem e he (Nat.lt_of_le_of_lt hmono hlt)
  · rw [hentries, hpel]
    intro id hid
    rcases List.mem_append.mp hid with hid | hid
    · obtain ⟨hle, hex⟩ := h.pending_mem id hid
      exact ⟨Nat.le_trans hle hmono, hex⟩
    · obtain ⟨e, he, rfl⟩ := List.mem_map.mp hid
      exact ⟨(hbatch e he).2.2, e, (hbatch e he).1, rfl⟩
  · rw [hentries, hpel]
    intro e he hle
    rw [List.mem_append]
    by_cases hlt : r.lastDelivered < e.id
    · exact .inr (List.mem_map_of_mem (hback e he hlt hle))
    · exact .inl (h.delivered_mem e he (Nat.le_of_not_lt hlt))

/-- A delivery acknowledges nothing and takes nothing back. -/
theorem acked_xreadgroup (h : StreamInv r log) {count : Nat} {batch : List StreamId}
    (hread : r.xreadgroup count = some (r', batch)) {e : StreamId} (he : e ∈ log) :
    r'.Acked e ↔ r.Acked e := by
  obtain ⟨-, -, -, hpel, -⟩ := xreadgroup_cases hread
  obtain ⟨hbatch, hback, hmono, -⟩ := xreadgroup_lastDelivered h hread
  unfold Redis.Acked
  rw [hpel, List.mem_append]
  constructor
  · rintro ⟨hle, hnot⟩
    refine ⟨?_, fun hpend => hnot (.inl hpend)⟩
    by_contra hlt
    have hin := h.undelivered_mem e he (Nat.lt_of_not_le hlt)
    exact hnot (.inr (List.mem_map_of_mem (hback e hin (Nat.lt_of_not_le hlt) hle)))
  · rintro ⟨hle, hnot⟩
    refine ⟨Nat.le_trans hle hmono, ?_⟩
    rintro (hpend | hin)
    · exact hnot hpend
    · obtain ⟨a, ha, hid⟩ := List.mem_map.mp hin
      have := (hbatch a ha).2.1
      omega

/-- Every pending entry is still in the stream of a group. -/
structure Redis.Claimable (r : Redis) : Prop where
  group : r.group.isSome = true
  live : ∀ id ∈ r.pel, id ∈ r.entries.map StreamId.id

/-- A claim hands out the entries of the first pending ids. -/
theorem xautoclaim_eq (h : r.Claimable) (count : Nat) :
    r.xautoclaim count = some (r, r.entries.filter (fun e => e.id ∈ r.pel.take count)) := by
  obtain ⟨g, hg⟩ := Option.isSome_iff_exists.mp h.group
  have hpel : r.pel = g.pel := by simp [Redis.pel, hg]
  have hlive := h.live
  rw [hpel] at hlive ⊢
  -- no id of the scan has lost its entry
  have hdead : (g.pel.take count).filter (fun id => id ∉ r.entries.map StreamId.id) = [] := by
    rw [List.filter_eq_nil_iff]
    intro id hid
    have hin := hlive id (List.mem_of_mem_take hid)
    simpa using hin
  unfold Redis.xautoclaim
  rw [hg, Option.map_some]
  simp only [hdead]
  obtain ⟨entries, lastId, group, buckets, lastClickedAt⟩ := r
  simp only at hg
  simp [hg]

/-- Every pending entry of the appended ones is still in the stream. -/
theorem StreamInv.claimable (h : StreamInv r log) (hgroup : r.group.isSome = true) :
    r.Claimable where
  group := hgroup
  live := by
    intro id hid
    obtain ⟨-, e, he, rfl⟩ := h.pending_mem id hid
    exact List.mem_map_of_mem he

/-- `XAUTOCLAIM` hands out pending entries and drops no id from the pending list. -/
theorem xautoclaim_cases (h : StreamInv r log) {count : Nat} {claimed : List StreamId}
    (hclaim : r.xautoclaim count = some (r', claimed)) :
    r' = r ∧ ∀ e ∈ claimed, e ∈ r.entries ∧ e.id ∈ r.pel := by
  have hgroup : r.group.isSome = true := by
    cases hg : r.group with
    | none => simp [Redis.xautoclaim, hg] at hclaim
    | some g => rfl
  rw [xautoclaim_eq (h.claimable hgroup), Option.some.injEq, Prod.mk.injEq] at hclaim
  obtain ⟨rfl, rfl⟩ := hclaim
  refine ⟨rfl, fun e he => ?_⟩
  rw [List.mem_filter, decide_eq_true_eq] at he
  exact ⟨he.1, List.mem_of_mem_take he.2⟩

end Deliveries

/-! ## Acknowledgement -/

section Acknowledgement

variable {r r' : Redis} {log : List StreamId}

/-- Take a pending entry out of the pending list and out of the stream. -/
theorem StreamInv.acknowledge (h : StreamInv r log) {id : Nat}
    (hentries : r'.entries = r.entries.filter (fun e => e.id ≠ id))
    (hlast : r'.lastId = r.lastId) (hdel : r'.lastDelivered = r.lastDelivered)
    (hpel : r'.pel = r.pel.filter (fun j => j ≠ id)) (hid : id ≤ r.lastDelivered) :
    StreamInv r' log where
  sorted := h.sorted
  positive := h.positive
  bounded := hlast ▸ h.bounded
  delivered_le := by rw [hlast, hdel]; exact h.delivered_le
  sublist := hentries ▸ List.filter_sublist.trans h.sublist
  undelivered_mem := by
    intro e he hlt
    rw [hdel] at hlt
    rw [hentries, List.mem_filter]
    exact ⟨h.undelivered_mem e he hlt, by simp; omega⟩
  pending_mem := by
    intro j hj
    rw [hpel, List.mem_filter, decide_eq_true_eq] at hj
    obtain ⟨hle, e, he, hej⟩ := h.pending_mem j hj.1
    rw [hdel, hentries]
    exact ⟨hle, e, List.mem_filter.mpr ⟨he, by simpa [hej] using hj.2⟩, hej⟩
  delivered_mem := by
    intro e he hle
    rw [hentries, List.mem_filter, decide_eq_true_eq] at he
    rw [hdel] at hle
    rw [hpel, List.mem_filter, decide_eq_true_eq]
    exact ⟨h.delivered_mem e he.1 hle, he.2⟩

theorem xackDel_of_notMem {id : Nat} (h : id ∉ r.pel) : r.xackDel id = r := if_neg h

theorem xackDel_of_mem {id : Nat} (h : id ∈ r.pel) : r.xackDel id = (r.xack id).1.xdel id :=
  if_pos h

/-- `XACK` and `XDEL` of a pending entry. -/
theorem xack_xdel_data {id : Nat} (h : id ∈ r.pel) :
    ((r.xack id).1.xdel id).entries = r.entries.filter (fun e => e.id ≠ id) ∧
      ((r.xack id).1.xdel id).lastId = r.lastId ∧
      ((r.xack id).1.xdel id).lastDelivered = r.lastDelivered ∧
      ((r.xack id).1.xdel id).pel = r.pel.filter (fun j => j ≠ id) ∧
      ((r.xack id).1.xdel id).buckets = r.buckets ∧
      ((r.xack id).1.xdel id).lastClickedAt = r.lastClickedAt := by
  obtain ⟨g, hg, hack⟩ := xack_of_mem h
  rw [hack]
  simp [Redis.xdel, Redis.lastDelivered, Redis.pel, hg]

/-- The counters the entry would be counted in. -/
def entryHits (serde : SerdeJson) (e : StreamId) (b : Bucket) : Bool :=
  (parseClickEvent serde e).any (fun event => event.hits b)

/-- The last-click timestamps after the entry is counted. -/
def entryClickedAt (serde : SerdeJson) (lastClickedAt : Table String Int) (e : StreamId) :
    Table String Int :=
  (parseClickEvent serde e).elim lastClickedAt (advanceLastClickedAt lastClickedAt)

variable (serde : SerdeJson) {e : StreamId}

/-- A delivered entry that is not pending any more is left alone, malformed or not. -/
theorem processEntry_of_notMem (h : e.id ∉ r.pel) : processEntry serde r e = r := by
  unfold processEntry
  cases parseClickEvent serde e with
  | none => exact xackDel_of_notMem h
  | some event =>
    show (recordClickEvent r e.id event).2 = r
    rw [recordClickEvent_of_notMem h]

/-- **A pending entry.** `process_entry` acknowledges and deletes it, adds one to the
buckets it hits (none if it is malformed) and advances the last click of its code. -/
theorem processEntry_of_mem (h : e.id ∈ r.pel)
    (hroom : ∀ b, entryHits serde e b = true → r.HasRoom b) :
    let r' := processEntry serde r e
    r'.entries = r.entries.filter (fun a => a.id ≠ e.id) ∧ r'.lastId = r.lastId ∧
      r'.lastDelivered = r.lastDelivered ∧ r'.pel = r.pel.filter (fun j => j ≠ e.id) ∧
      (∀ b, r'.buckets.val b = r.buckets.val b + if entryHits serde e b then 1 else 0) ∧
      r'.lastClickedAt = entryClickedAt serde r.lastClickedAt e := by
  obtain ⟨hentries, hlast, hdel, hpel, hbuckets, hclicked⟩ := xack_xdel_data h
  -- malformed, it is dropped; well-formed, the script counts it. Both acknowledge and delete
  cases hparse : parseClickEvent serde e with
  | none =>
    have heq : processEntry serde r e = (r.xack e.id).1.xdel e.id := by
      unfold processEntry
      rw [hparse]
      exact xackDel_of_mem h
    rw [heq]
    refine ⟨hentries, hlast, hdel, hpel, fun b => ?_, ?_⟩
    · simp [entryHits, hparse, hbuckets]
    · simp [entryClickedAt, hparse, hclicked]
  | some event =>
    have heq : processEntry serde r e = r.counted e.id event := by
      unfold processEntry
      rw [hparse]
      show (recordClickEvent r e.id event).2 = _
      rw [recordClickEvent_of_mem h event fun b hb => hroom b (by simpa [entryHits, hparse])]
    rw [heq]
    refine ⟨hentries, hlast, hdel, hpel, fun b => ?_, ?_⟩
    · simpa [entryHits, hparse, Redis.counted] using val_countClick r.buckets event b
    · simp [entryClickedAt, hparse, Redis.counted]

theorem StreamInv.processEntry (h : StreamInv r log)
    (hroom : ∀ b, entryHits serde e b = true → r.HasRoom b) :
    StreamInv (processEntry serde r e) log := by
  by_cases hpend : e.id ∈ r.pel
  · obtain ⟨hentries, hlast, hdel, hpel, -⟩ := processEntry_of_mem serde hpend hroom
    exact h.acknowledge hentries hlast hdel hpel (h.pending_mem _ hpend).1
  · rw [processEntry_of_notMem serde hpend]
    exact h

/-- `process_entry` acknowledges a pending entry and no other. -/
theorem acked_processEntry (h : StreamInv r log) (he : e ∈ log) (hpend : e.id ∈ r.pel)
    (hroom : ∀ b, entryHits serde e b = true → r.HasRoom b) {a : StreamId} (ha : a ∈ log) :
    (processEntry serde r e).Acked a ↔ r.Acked a ∨ a = e := by
  obtain ⟨-, -, hdel, hpel, -⟩ := processEntry_of_mem serde hpend hroom
  unfold Redis.Acked
  rw [hdel, hpel, List.mem_filter, decide_eq_true_eq]
  constructor
  · rintro ⟨hle, hnot⟩
    by_cases hid : a.id = e.id
    · exact .inr (h.eq_of_id_eq ha he hid)
    · exact .inl ⟨hle, fun hmem => hnot ⟨hmem, hid⟩⟩
  · rintro (⟨hle, hnot⟩ | rfl)
    · exact ⟨hle, fun hmem => hnot hmem.1⟩
    · exact ⟨(h.pending_mem _ hpend).1, fun hmem => hmem.2 rfl⟩

end Acknowledgement

end Kurl
