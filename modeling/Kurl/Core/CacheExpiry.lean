import Kurl.Core.Service

/-!
# Kurl — cached entries and the expiration of their links (`core/src/cache.rs`)

A TTL is computed against the clock of the request and starts to run when the worker applies the op.
An op applied at once is in time (`appliedInTime_of_sent`): its whole seconds fit in what remains of
the link. An op that waited in the queue is in time only if the wait fits in what the rounding to
seconds and the cap left over (`CacheOp.InTime`), and `entry_outlives_link` is a run in which it is
not.

`ExpiryInv` says of every entry that its deadline is not after the expiration of its link. The step
that could break it is that of the worker; the condition on runs, `appliesInTime`, is on the op at
the head of the queue and the clock of that step.
-/

namespace Kurl

open Lib

/-- The delay of an op that is applied now is at most what remained of the link when the op was
sent, less the whole seconds of its TTL. -/
def CacheOp.InTime (now : Int) : CacheOp → Prop
  | .set _ _ ttl origin => ∀ expiration ∈ origin.expiration,
    now - origin.sentAt ≤ (expiration.nanos - origin.sentAt) - (asSecs ttl * nanosPerSec : Nat)
  | .del _ => True

instance (now : Int) : DecidablePred (CacheOp.InTime now)
  | .set _ _ ttl origin => inferInstanceAs (Decidable (∀ expiration ∈ origin.expiration,
    now - origin.sentAt ≤ (expiration.nanos - origin.sentAt) - (asSecs ttl * nanosPerSec : Nat)))
  | .del _ => inferInstanceAs (Decidable True)

/-- The worker takes no op too late. -/
def appliesInTime (st : CoreState) : CoreAction → Bool
  | .work => st.queue.head?.all fun op => decide (op.InTime st.now)
  | _ => true

/-- No entry stays beyond the expiration of its link. -/
def CoreState.ExpiryInv (st : CoreState) : Prop := ∀ code entry, st.cache.get code = some entry →
  ∀ expiration ∈ entry.origin.expiration, entry.deadline ≤ expiration.nanos

/-- Without a delay an op of a link that was read is in time, whatever remains of the link and
whatever the configured TTL. -/
theorem appliedInTime_of_sent {cacheTtl : Nat} {st : CoreState} {code : String}
    {link : Postgres.Link} {op : CacheOp} (h : op ∈ (Pending.read code link).ops cacheTtl st) :
    op.InTime st.now := by
  simp only [Pending.ops] at h
  split at h
  · simp at h
  · unfold setOp at h
    split at h
    · next ttl httl =>
      obtain rfl := List.mem_singleton.mp h
      obtain ⟨-, -, hremaining⟩ := calculateCacheTtl_le httl
      intro expiration hexpiration
      have hle := hremaining expiration hexpiration
      have hsecs : asSecs ttl * nanosPerSec ≤ ttl := Nat.div_mul_le_self _ _
      show st.now - st.now ≤ expiration.nanos - st.now - (asSecs ttl * nanosPerSec : Nat)
      omega
    · simp at h

namespace CoreState

variable {st st' : CoreState}

/-- An op applied in time keeps its entry within the expiration. -/
theorem ExpiryInv.processOp (h : st.ExpiryInv) {op : CacheOp} (hop : op.InTime st.now) {code : String}
    {entry : CacheEntry} (hget : (processOp st.now st.cache op).get code = some entry) :
    ∀ expiration ∈ entry.origin.expiration, entry.deadline ≤ expiration.nanos := by
  cases op with
  | set key value ttl origin =>
    simp only [Kurl.processOp] at hget
    split at hget
    · rw [Table.get_set] at hget
      split at hget
      · obtain rfl := Option.some.inj hget
        intro expiration hexpiration
        have hdelay := hop expiration hexpiration
        show st.now + (asSecs ttl * nanosPerSec : Nat) ≤ expiration.nanos
        omega
      · exact h code entry hget
    · exact h code entry hget
  | del key =>
    change (st.cache.erase key).get code = some entry at hget
    rw [Table.get_erase] at hget
    split at hget
    · simp at hget
    · exact h code entry hget

/-- Only the worker writes to the cache. -/
theorem cache_step {cacheTtl : Nat} {a : CoreAction} (h : (core cacheTtl).step st a = some st') :
    st'.cache = st.cache ∨ a = .work ∧ ∃ op queue, st.queue = op :: queue ∧
      st'.cache = processOp st.now st.cache op := by
  -- the requests compute and send; the cache is the worker's alone
  cases Step.of_step h with
  | work hqueue => exact .inr ⟨rfl, _, _, hqueue, rfl⟩
  | _ => exact .inl rfl

/-- **Step lemma.** Only the worker sets an entry, and the condition is that it does so in time. -/
theorem ExpiryInv.step {cacheTtl : Nat} {a : CoreAction} (h : st.ExpiryInv)
    (hcond : appliesInTime st a = true) (hstep : (core cacheTtl).step st a = some st') :
    st'.ExpiryInv := by
  rcases cache_step hstep with hcache | ⟨rfl, op, queue, hqueue, hcache⟩
  · intro code entry hget
    rw [hcache] at hget
    exact h code entry hget
  · intro code entry hget
    rw [hcache] at hget
    have hop : op.InTime st.now := by simpa [appliesInTime, hqueue] using hcond
    exact h.processOp hop hget

end CoreState

/-- **No cached entry outlives its link**, in a run whose worker applies every op in time: what
the gateway finds in the cache has not expired. -/
theorem redisQuery_not_expired {cacheTtl : Nat} {now : Int} {pg : Postgres} {as : List CoreAction}
    (hcond : (core cacheTtl).Meets (fun st a => appliesInTime st a = true)
      (CoreState.init now pg) as) {st : CoreState}
    (hrun : (core cacheTtl).run (CoreState.init now pg) as = some st) {code : String}
    {entry : CacheEntry} (hquery : st.redisQuery code = some entry) :
    st.expired entry.origin.expiration = false := by
  have hinit : (CoreState.init now pg).ExpiryInv := fun code entry hget => by
    simp [CoreState.init] at hget
  have hinv := (core cacheTtl).run_invariant_of_meets (fun _ _ _ hi hc hs => hi.step hc hs)
    hcond hrun hinit
  obtain ⟨hget, hlive⟩ := Option.filter_eq_some_iff.mp hquery
  have hlive : st.now < entry.deadline := by simpa using hlive
  unfold CoreState.expired
  cases hexpiration : entry.origin.expiration with
  | none => rfl
  | some expiration =>
    have hdeadline := hinv code entry hget expiration hexpiration
    simp only [Option.any_some, decide_eq_false_iff_not]
    omega

/-- The instant this many nanoseconds after the epoch, in the first hundred years. -/
def afterEpoch (nanos : Nat) (h : nanos ≤ 3155760000000000000) : DateTime where
  nanos := nanos
  lower := by unfold minUtc; omega
  upper := by unfold maxUtc; omega

/-- A link that lives for two and a half seconds. -/
def createShortLived : CoreAction :=
  .createLink "a" "https://example.org" (some (afterEpoch 2500000000 (by decide)))

theorem redisQuery_not_expired_prompt : ∃ st entry,
    (core 60000000000).run (CoreState.init 0 Postgres.empty)
      [createShortLived, .send 0, .tick 400000000, .work, .tick 1900000000] = some st ∧
    st.redisQuery "a" = some entry ∧ st.expired entry.origin.expiration = false := by
  have hsome : (((core 60000000000).run (CoreState.init 0 Postgres.empty)
      [createShortLived, .send 0, .tick 400000000, .work, .tick 1900000000]).bind fun st =>
        st.redisQuery "a").isSome = true := by decide
  obtain ⟨entry, hentry⟩ := Option.isSome_iff_exists.mp hsome
  obtain ⟨st, hst, hquery⟩ := Option.bind_eq_some_iff.mp hentry
  exact ⟨st, entry, hst, hquery, redisQuery_not_expired (by decide) hst hquery⟩

/-- One second in the queue, and the entry is still there half a second after the link expired. -/
theorem entry_outlives_link : ∃ st entry,
    (core 60000000000).run (CoreState.init 0 Postgres.empty)
      [createShortLived, .send 0, .tick 1500000000, .work, .tick 1500000000] = some st ∧
    st.redisQuery "a" = some entry ∧ st.expired entry.origin.expiration = true := by
  have hrun : (((core 60000000000).run (CoreState.init 0 Postgres.empty)
      [createShortLived, .send 0, .tick 1500000000, .work, .tick 1500000000]).bind fun st =>
        (st.redisQuery "a").map fun entry => st.expired entry.origin.expiration) = some true := by
    decide
  obtain ⟨st, hst, hquery⟩ := Option.bind_eq_some_iff.mp hrun
  obtain ⟨entry, hentry, hexpired⟩ := Option.map_eq_some_iff.mp hquery
  exact ⟨st, entry, hst, hentry, hexpired⟩

end Kurl
