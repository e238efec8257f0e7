import Kurl.Core.Service

/-!
# Kurl — cache coherence (`core/src/cache.rs`, `core/src/grpc.rs`)

The worker applies ops in the order in which they were sent, and the deletion of a key is sent after
the deletion of its row. So an entry in the cache, or a `Set` in the queue, may be stale only while
the deletion that will remove it is still to come (`Outlived`). That survives every step but one: a
request that sends a `Set` of a row which is gone, after the request that deleted the row has sent
its `Del`. `sendsBeforeDel` excludes that step, and `stale_set_after_del` is a run that takes it.

* `CacheInv` — the entries and the queued `Set`s are outlived; `CacheInv.step` keeps it;
* `coherent_of_idle` — with no request and an empty queue nothing is left that could be outlived by
  a `Del` to come, so every live entry has its row.

The condition asks what a request sends, not what kind of request it is: one whose link has expired,
or has less than a second left, sends nothing and meets it.
-/

namespace Kurl

open Lib

namespace CoreState

/-- Every live entry agrees with the row of its code. -/
def Coherent (st : CoreState) : Prop := ∀ code entry, st.redisQuery code = some entry →
  (st.pg.links.get code).map LinkRow.target = some entry.value

/-- No request is in progress and the queue is empty. -/
def Idle (st : CoreState) : Prop := st.requests = [] ∧ st.queue = []

instance (st : CoreState) : Decidable st.Idle := inferInstanceAs (Decidable (_ ∧ _))

/-- The value is the one of the row, or a `Del` is among these ops, or still to be sent. -/
def Outlived (st : CoreState) (code value : String) (ops : List CacheOp) : Prop :=
  (st.pg.links.get code).map LinkRow.target = some value ∨ .del code ∈ ops ∨
    .deleted code ∈ st.requests

/-- The live entries and the queued `Set`s are backed by their row, or outlived by a `Del`. -/
structure CacheInv (st : CoreState) : Prop where
  cache : ∀ code entry, st.cache.get code = some entry → st.now < entry.deadline →
    st.Outlived code entry.value st.queue
  queue : ∀ before code value ttl origin rest,
    st.queue = before ++ .set code value ttl origin :: rest → st.Outlived code value rest

end CoreState

/-- A `Set` is of a row that is there, or that is gone and whose `Del` is still to be sent. -/
def CoreState.backs (st : CoreState) : CacheOp → Bool
  | .set code target _ _ =>
    (st.pg.links.get code).map LinkRow.target = some target || st.requests.contains (.deleted code)
  | .del _ => true

/-- A request does not send a `Set` once its row is gone, unless the `Del` for the row is still
to be sent. A request that sends no `Set` is not asked for anything: its link has expired, or has
no whole second left for the cache. -/
def sendsBeforeDel (cacheTtl : Nat) (st : CoreState) : CoreAction → Bool
  | .send i =>
    match st.requests[i]? with
    | some request => (request.ops cacheTtl st).all st.backs
    | none => true
  | _ => true

namespace CoreState

section Steps

variable {st : CoreState}

/-- What the deletion of a link does to the row of a code. -/
theorem get_links_deleteLink {pg pg' : Postgres} {code : String} (h : pg.deleteLink code = .ok pg')
    (c : String) : pg'.links.get c = if c = code then none else pg.links.get c := by
  obtain rfl := Postgres.deleteLink_ok h
  exact pg.links.get_erase code c

theorem get_links_createLink {pg pg' : Postgres} {code target : String}
    {expiration : Option DateTime} (h : pg.createLink code target expiration = .ok pg')
    (c : String) : pg.links.get code = none ∧
      pg'.links.get c = if c = code then some (Postgres.newLink target expiration)
        else pg.links.get c := by
  obtain ⟨hnone, rfl⟩ := Postgres.createLink_ok h
  exact ⟨hnone, pg.links.get_set code c _⟩

/-- A step that keeps the cache, the queue and the clock, and after which whatever was outlived
still is. -/
theorem CacheInv.of_outlived (h : CacheInv st) {pg : Postgres} {requests : List Pending}
    (hkeep : ∀ code value ops, st.Outlived code value ops →
      Outlived { st with pg := pg, requests := requests } code value ops) :
    CacheInv { st with pg := pg, requests := requests } :=
  ⟨fun code entry hget hlive => hkeep _ _ _ (h.cache code entry hget hlive),
    fun before code value ttl origin rest hqueue =>
      hkeep _ _ _ (h.queue before code value ttl origin rest hqueue)⟩

theorem CacheInv.createLink (h : CacheInv st) {code target : String}
    {expiration : Option DateTime} {pg : Postgres}
    (hcreate : st.pg.createLink code target expiration = .ok pg) :
    CacheInv { st with
      pg := pg
      requests := st.requests ++ [.created code target expiration] } := by
  refine h.of_outlived fun c value ops hout => ?_
  rcases hout with hrow | hdel | hdel
  · -- the row that is there is not the one created
    obtain ⟨hnone, hget⟩ := get_links_createLink hcreate c
    have hne : c ≠ code := by
      rintro rfl
      simp [hnone] at hrow
    refine Or.inl ?_
    show (pg.links.get c).map LinkRow.target = some value
    rw [hget, if_neg hne, hrow]
  · exact Or.inr (Or.inl hdel)
  · exact Or.inr (Or.inr (List.mem_append_left _ hdel))

theorem CacheInv.deleteLink (h : CacheInv st) {code : String} {pg : Postgres}
    (hdelete : st.pg.deleteLink code = .ok pg) :
    CacheInv { st with pg := pg, requests := st.requests ++ [.deleted code] } := by
  refine h.of_outlived fun c value ops hout => ?_
  by_cases hc : c = code
  · exact Or.inr (Or.inr (by simp [hc]))
  · rcases hout with hrow | hdel | hdel
    · refine Or.inl ?_
      show (pg.links.get c).map LinkRow.target = some value
      rw [get_links_deleteLink hdelete, if_neg hc, hrow]
    · exact Or.inr (Or.inl hdel)
    · exact Or.inr (Or.inr (List.mem_append_left _ hdel))

theorem mem_eraseIdx_of_ne {requests : List Pending} {i : Nat} {request other : Pending}
    (hrequest : requests[i]? = some request) (hne : request ≠ other) (hmem : other ∈ requests) :
    other ∈ requests.eraseIdx i := by
  rw [List.mem_eraseIdx_iff_getElem?]
  obtain ⟨j, hj⟩ := List.mem_iff_getElem?.mp hmem
  refine ⟨j, fun hij => ?_, hj⟩
  rw [hij, hrequest] at hj
  exact hne (Option.some.inj hj)

/-- What was to be deleted by a request that now sends is deleted by what it sends. -/
theorem Outlived.send {cacheTtl i : Nat} {request : Pending}
    (hrequest : st.requests[i]? = some request) {code value : String} {ops : List CacheOp}
    (h : st.Outlived code value ops) :
    Outlived { st with
      queue := st.queue ++ request.ops cacheTtl st
      requests := st.requests.eraseIdx i } code value (ops ++ request.ops cacheTtl st) := by
  rcases h with hrow | hdel | hdel
  · exact Or.inl hrow
  · exact Or.inr (Or.inl (List.mem_append_left _ hdel))
  · by_cases hsame : request = .deleted code
    · subst hsame
      exact Or.inr (Or.inl (List.mem_append_right _ (List.mem_singleton.mpr rfl)))
    · exact Or.inr (Or.inr (mem_eraseIdx_of_ne hrequest hsame hdel))

/-- What the condition says about a `Set` that is sent. -/
theorem sendsBeforeDel_set {cacheTtl i : Nat} {request : Pending}
    (hrequest : st.requests[i]? = some request)
    (hcond : sendsBeforeDel cacheTtl st (.send i) = true) {code value : String} {ttl : Nat}
    {origin : Origin} (hop : .set code value ttl origin ∈ request.ops cacheTtl st)
    (ops : List CacheOp) :
    Outlived { st with
      queue := st.queue ++ request.ops cacheTtl st
      requests := st.requests.eraseIdx i } code value ops := by
  have hbacks : st.backs (.set code value ttl origin) = true := by
    simp only [sendsBeforeDel, hrequest] at hcond
    exact List.all_eq_true.mp hcond _ hop
  -- a request that sends a `Set` is not the one that deletes
  have hother : request ≠ .deleted code := by
    rintro rfl
    cases List.mem_singleton.mp hop
  simp only [backs, Bool.or_eq_true, decide_eq_true_eq, List.contains_iff_mem] at hbacks
  rcases hbacks with hrow | hdel
  · exact Or.inl hrow
  · exact Or.inr (Or.inr (mem_eraseIdx_of_ne hrequest hother hdel))

theorem CacheInv.send {cacheTtl i : Nat} (h : CacheInv st) {request : Pending}
    (hrequest : st.requests[i]? = some request)
    (hcond : sendsBeforeDel cacheTtl st (.send i) = true) :
    CacheInv { st with
      queue := st.queue ++ request.ops cacheTtl st
      requests := st.requests.eraseIdx i } := by
  refine ⟨fun code entry hget hlive => (h.cache code entry hget hlive).send hrequest, ?_⟩
  intro before code value ttl origin rest hqueue
  -- the `Set` is one of the old queue, or the one that is sent
  rcases List.append_eq_append_iff.mp hqueue with ⟨mid, -, hsent⟩ | ⟨mid, hold, hsent⟩
  · exact sendsBeforeDel_set hrequest hcond (hsent ▸ List.mem_append_right mid List.mem_cons_self) _
  · cases mid with
    | nil =>
      rw [List.nil_append] at hsent
      exact sendsBeforeDel_set hrequest hcond (hsent ▸ List.mem_cons_self) _
    | cons op mid =>
      rw [List.cons_append, List.cons.injEq] at hsent
      obtain ⟨rfl, rfl⟩ := hsent
      exact (h.queue before code value ttl origin mid hold).send hrequest

/-- The worker turns a `Set` into an entry, and a `Del` ends what it outlived. -/
theorem CacheInv.work (h : CacheInv st) {op : CacheOp} {queue : List CacheOp}
    (hqueue : st.queue = op :: queue) :
    CacheInv { st with cache := processOp st.now st.cache op, queue := queue } := by
  refine ⟨fun code entry hget hlive => ?_, fun before code value ttl origin rest hrest => ?_⟩
  · have hold : st.cache.get code = some entry → op ≠ .del code →
        st.Outlived code entry.value queue := by
      intro hget hne
      rcases h.cache code entry hget hlive with hrow | hdel | hdel
      · exact Or.inl hrow
      · rw [hqueue] at hdel
        exact Or.inr (Or.inl ((List.mem_cons.mp hdel).resolve_left fun heq => hne heq.symm))
      · exact Or.inr (Or.inr hdel)
    cases op with
    | set key value ttl origin =>
      change (processOp st.now st.cache (.set key value ttl origin)).get code = some entry at hget
      simp only [processOp] at hget
      split at hget
      · rw [Table.get_set] at hget
        split at hget
        · next hcode =>
          obtain rfl := Option.some.inj hget
          subst hcode
          exact h.queue [] code value ttl origin queue hqueue
        · exact hold hget (by simp)
      · exact hold hget (by simp)
    | del key =>
      change (st.cache.erase key).get code = some entry at hget
      rw [Table.get_erase] at hget
      split at hget
      · simp at hget
      · next hne => exact hold hget fun heq => hne (CacheOp.del.inj heq).symm
  · change queue = before ++ .set code value ttl origin :: rest at hrest
    exact h.queue (op :: before) code value ttl origin rest (by rw [hqueue, hrest]; rfl)

/-- **Step lemma.** A deletion makes entries stale, and its own `Del` is the one to come; the
condition excludes the send that would bring a stale `Set` in behind it. -/
theorem CacheInv.step {cacheTtl : Nat} {st' : CoreState} {a : CoreAction} (h : CacheInv st)
    (hcond : sendsBeforeDel cacheTtl st a = true) (hstep : (core cacheTtl).step st a = some st') :
    CacheInv st' := by
  cases Step.of_step hstep with
  | refuse _ => exact h
  | create hcreate =>
    -- a new row backs nothing yet, and the rows that are there stay
    exact h.createLink hcreate
  | read _ =>
    exact h.of_outlived fun c value ops hout => hout.imp_right (Or.imp_right (List.mem_append_left _))
  | delete hdelete =>
    -- what was backed by the row waits for the `Del` of this request
    exact h.deleteLink hdelete
  | send hrequest =>
    -- the op goes to the end of the queue, behind the ones it may outlive
    exact h.send hrequest hcond
  | work hqueue =>
    -- the op at the head is applied: a `Set` passes its backing on to the entry
    exact h.work hqueue
  | tick nanos =>
    -- later fewer entries are live
    refine ⟨fun code entry hget hlive => h.cache code entry hget ?_, h.queue⟩
    change st.now + nanos < entry.deadline at hlive
    omega

end Steps

end CoreState

/-- **Cache coherence.** A run that starts idle and coherent is coherent whenever it is idle, if no
request sends a `Set` of a deleted row after the `Del` for it. -/
theorem coherent_of_idle {cacheTtl : Nat} {st st' : CoreState} (hidle : st.Idle)
    (hcoherent : st.Coherent) {as : List CoreAction}
    (hcond : (core cacheTtl).Meets (fun st a => sendsBeforeDel cacheTtl st a = true) st as)
    (hrun : (core cacheTtl).run st as = some st') (hidle' : st'.Idle) : st'.Coherent := by
  have hinit : st.CacheInv := by
    refine ⟨fun code entry hget hlive => Or.inl (hcoherent code entry ?_), ?_⟩
    · simp [CoreState.redisQuery, hget, Option.filter, hlive]
    · intro before code value ttl origin rest hqueue
      rw [hidle.2] at hqueue
      simp at hqueue
  have hinv := (core cacheTtl).run_invariant_of_meets (fun _ _ _ hi hc hs => hi.step hc hs)
    hcond hrun hinit
  intro code entry hquery
  obtain ⟨hget, hlive⟩ := Option.filter_eq_some_iff.mp hquery
  rcases hinv.cache code entry hget (by simpa using hlive) with hrow | hdel | hdel
  · exact hrow
  · rw [hidle'.2] at hdel
    simp at hdel
  · rw [hidle'.1] at hdel
    simp at hdel

/-- The `cache_ttl` of the shipped configuration. -/
def oneMinute : Nat := 60 * nanosPerSec

def twoSeconds : DateTime := ⟨2000000000, by decide, by decide⟩

/-- A link is created, read and deleted, and another one created. A third one expires while it is
read, and its reader sends nothing after the `Del`. -/
def orderedRequests : List CoreAction :=
  [.createLink "a" "https://example.org" none, .send 0, .getLink "a", .deleteLink "a", .send 0,
    .send 0, .createLink "b" "https://example.com" none, .send 0, .work, .work, .work, .work,
    .createLink "c" "https://example.net" (some twoSeconds), .send 0, .getLink "c",
    .tick 2000000000, .deleteLink "c", .send 1, .send 0, .work, .work]

theorem coherent_of_idle_orderedRequests : ∃ st, (core oneMinute).run (CoreState.init 0 Postgres.empty)
    orderedRequests = some st ∧ (st.redisQuery "a").isNone = true ∧
      (st.redisQuery "b").isSome = true ∧ st.Coherent := by
  have hrun : (((core oneMinute).run (CoreState.init 0 Postgres.empty) orderedRequests).map fun st =>
      ((st.redisQuery "a").isNone, (st.redisQuery "b").isSome, decide st.Idle)) =
      some (true, true, true) := by decide
  obtain ⟨st, hst, hvalues⟩ := Option.map_eq_some_iff.mp hrun
  simp only [Prod.mk.injEq, decide_eq_true_eq] at hvalues
  obtain ⟨ha, hb, hidle⟩ := hvalues
  have hcoherent : (CoreState.init 0 Postgres.empty).Coherent := fun code entry hquery => by
    simp [CoreState.init, CoreState.redisQuery] at hquery
  exact ⟨st, hst, ha, hb, coherent_of_idle ⟨rfl, rfl⟩ hcoherent (by decide) hst hidle⟩

/-- A read that sends its `Set` after the deletion of the link has sent its `Del` leaves the
deleted link in the cache. -/
theorem stale_set_after_del : ∃ st, (core oneMinute).run (CoreState.init 0 Postgres.empty)
      [.createLink "a" "https://example.org" none, .send 0, .getLink "a", .deleteLink "a", .send 1,
        .send 0, .work, .work, .work] = some st ∧
    st.Idle ∧ (st.redisQuery "a").map CacheEntry.value = some "https://example.org" ∧
    (st.pg.links.get "a").isNone = true := by
  have hrun : (((core oneMinute).run (CoreState.init 0 Postgres.empty)
      [.createLink "a" "https://example.org" none, .send 0, .getLink "a", .deleteLink "a", .send 1,
        .send 0, .work, .work, .work]).map fun st =>
      (decide st.Idle, (st.redisQuery "a").map CacheEntry.value, (st.pg.links.get "a").isNone)) =
      some (true, some "https://example.org", true) := by decide
  obtain ⟨st, hst, hvalues⟩ := Option.map_eq_some_iff.mp hrun
  simp only [Prod.mk.injEq, decide_eq_true_eq] at hvalues
  exact ⟨st, hst, hvalues⟩

end Kurl
