import Kurl.Gateway.CoreClient
import Kurl.Postgres

/-!
# Kurl — how old a coalesced answer is (`gateway/src/grpc/core_client.rs`, `core/src/grpc.rs`)

The calls of a `CoreClient` together with the table they read. The RPC of a flight reads the row
of its code at one instant, and the core service answers later, with the clock of that time;
`create_link` and `delete_link` commit in between.

A caller shares the answer of the flight it joins, and the flight may have read the table before
the call began. `get_link_fresh` says that this is the only way to an old answer: if the flight
had not read the table when the last write of the code committed, the answer is that of the
table after the write, given with the clock of some moment since then. `ReadsSince` is what carries
it along the run: the row is the one written last, and the flights that read it after the write read
that row.
-/

namespace Kurl

open Lib

/-- `LinkService::get_link` once the row is read, at the time of its check. -/
def getLinkReply (now : Int) : Except DbError Postgres.Link → GetLinkReply
  | .error .notFound => .error ⟨.notFound, "Short code not found"⟩
  | .error _ => .error ⟨.internal, "Failed to get link"⟩
  | .ok link =>
    if link.expiration.any (fun expiration => expiration.nanos ≤ now) then
      .error ⟨.failedPrecondition, "Link has expired"⟩
    else .ok ⟨link.target⟩

/-- A write of the row of a code. -/
inductive LinkWrite where
  | createLink (target : String) (expiration : Option DateTime)
  | deleteLink

namespace LinkWrite

def commit (pg : Postgres) (shortCode : String) : LinkWrite → Except DbError Postgres
  | createLink target expiration => pg.createLink shortCode target expiration
  | deleteLink => pg.deleteLink shortCode

/-- What a `get_link` reads after the write. -/
def row : LinkWrite → Except DbError Postgres.Link
  | createLink target expiration => .ok ⟨target, expiration.map DateTime.toTimestamptz⟩
  | deleteLink => .error .notFound

end LinkWrite

/-- The client of a gateway, the table, the clock, and of each flight what its RPC has read and what
it was answered. -/
structure Lookups where
  client : CoreClient
  pg : Postgres
  now : Int
  /-- The row that the RPC of a flight has read. -/
  read : Nat → Option (Except DbError Postgres.Link)
  /-- What the core service answered to the flight. -/
  answer : Nat → Option GetLinkReply

/-- The client before its first call. -/
def Lookups.init (maxInFlight : Nat) (pg : Postgres) (now : Int) : Lookups :=
  ⟨.withMaxInFlight maxInFlight, pg, now, fun _ => none, fun _ => none⟩

/-- What happens to them. A step of the client on its own, the two halves of an RPC, a write that
commits or is refused, and time. -/
inductive LookupsAction where
  /-- A step of the callers and flights, other than the end of an RPC. -/
  | client (a : CoreClientAction)
  /-- The core service reads the row for the RPC of a flight. -/
  | read (flight : Nat)
  /-- The core service answers. -/
  | answer (flight : Nat)
  /-- The RPC ends without an answer: a timeout, a broken connection. -/
  | fail (flight : Nat) (status : Status)
  /-- A `create_link` or `delete_link` reaches the table. -/
  | write (shortCode : String) (write : LinkWrite)
  | tick (nanos : Nat)

namespace Lookups

def step (st : Lookups) : LookupsAction → Option Lookups
  | .client (.respond _ _) => none
  | .client a => (coreClient.step st.client a).map fun client => { st with client := client }
  | .read i =>
    match st.client.flights[i]?, st.read i with
    | some ⟨key, .calling⟩, none => some
      { st with read := fun j => if j = i then some (st.pg.getLink key) else st.read j }
    | _, _ => none
  | .answer i =>
    match st.read i with
    | some row =>
      let reply := getLinkReply st.now row
      (coreClient.step st.client (.respond i reply)).map fun client =>
        { st with
          client := client
          answer := fun j => if j = i then some reply else st.answer j }
    | none => none
  | .fail i status =>
    (coreClient.step st.client (.respond i (.error status))).map fun client =>
      { st with client := client }
  | .write shortCode write =>
    match write.commit st.pg shortCode with
    | .ok pg => some { st with pg := pg }
    | .error _ => some st
  | .tick nanos => some { st with now := st.now + nanos }

end Lookups

def lookups : Machine Lookups LookupsAction where
  step := Lookups.step

/-- The action leaves the row of the code as it is: it is no write of the code, or one that does not
commit. -/
def Lookups.leaves (code : String) (st : Lookups) : LookupsAction → Bool
  | .write shortCode write => shortCode ≠ code || !(write.commit st.pg shortCode).isOk
  | _ => true

/-! ## What a step does -/

/-- **What each step does**, as far as the table and the reads of it go. -/
inductive Lookups.Step (st : Lookups) : LookupsAction → Lookups → Prop
  | client {a : CoreClientAction} {client : CoreClient}
      (hstep : coreClient.step st.client a = some client) :
      Step st (.client a) { st with client := client }
  | read {i : Nat} {key : String} (hflight : st.client.flights[i]? = some ⟨key, .calling⟩)
      (hread : st.read i = none) : Step st (.read i)
        { st with read := fun j => if j = i then some (st.pg.getLink key) else st.read j }
  | answer {i : Nat} {row : Except DbError Postgres.Link} {client : CoreClient}
      (hread : st.read i = some row)
      (hstep : coreClient.step st.client (.respond i (getLinkReply st.now row)) = some client) :
      Step st (.answer i)
        { st with
          client := client
          answer := fun j => if j = i then some (getLinkReply st.now row) else st.answer j }
  | fail {i : Nat} {status : Status} {client : CoreClient}
      (hstep : coreClient.step st.client (.respond i (.error status)) = some client) :
      Step st (.fail i status) { st with client := client }
  | write {shortCode : String} {write : LinkWrite} {pg : Postgres}
      (hcommit : write.commit st.pg shortCode = .ok pg) :
      Step st (.write shortCode write) { st with pg := pg }
  | writeFails (shortCode : String) (write : LinkWrite) : Step st (.write shortCode write) st
  | tick (nanos : Nat) : Step st (.tick nanos) { st with now := st.now + nanos }

/-- The inversion holds; a step of the client on its own is one that the machine of the calls has.
-/
theorem Lookups.Step.of_step {st st' : Lookups} {a : LookupsAction}
    (h : lookups.step st a = some st') : st.Step a st' := by
  change st.step a = some st' at h
  cases a with
  | client a =>
    have hmap : (coreClient.step st.client a).map (fun client => { st with client := client }) =
        some st' := by
      cases a with
      | respond i reply => cases h
      | _ => exact h
    obtain ⟨client, hstep, rfl⟩ := Option.map_eq_some_iff.mp hmap
    exact .client hstep
  | read i =>
    simp only [step] at h
    split at h
    · next key hflight hread =>
      obtain rfl := Option.some.inj h
      exact .read hflight hread
    · cases h
  | answer i =>
    simp only [step] at h
    split at h
    · next row hread =>
      obtain ⟨client, hstep, rfl⟩ := Option.map_eq_some_iff.mp h
      exact .answer hread hstep
    · cases h
  | fail i status =>
    obtain ⟨client, hstep, rfl⟩ := Option.map_eq_some_iff.mp h
    exact .fail hstep
  | write shortCode write =>
    simp only [step] at h
    split at h
    · next pg hcommit =>
      obtain rfl := Option.some.inj h
      exact .write hcommit
    · obtain rfl := Option.some.inj h
      exact .writeFails shortCode write
  | tick nanos =>
    obtain rfl := Option.some.inj h
    exact .tick nanos

/-- A write of one code leaves the rows of the others. -/
theorem getLink_commit {pg pg' : Postgres} {shortCode code : String} {write : LinkWrite}
    (h : write.commit pg shortCode = .ok pg') :
    pg'.getLink code = if code = shortCode then write.row else pg.getLink code := by
  cases write with
  | createLink target expiration =>
    obtain ⟨-, rfl⟩ := Postgres.createLink_ok h
    unfold Postgres.getLink
    simp only [Table.get_set]
    by_cases hcode : code = shortCode
    · rw [if_pos hcode, if_pos hcode]
      rfl
    · rw [if_neg hcode, if_neg hcode]
  | deleteLink =>
    obtain rfl := Postgres.deleteLink_ok h
    unfold Postgres.getLink
    simp only [Table.get_erase]
    by_cases hcode : code = shortCode
    · rw [if_pos hcode, if_pos hcode]
      rfl
    · rw [if_neg hcode, if_neg hcode]

/-! ## Runs -/

/-- What holds of every run: a read has its flight, and an answer was made of what was read. -/
structure LookupsInv (maxInFlight : Nat) (st : Lookups) : Prop where
  client : CoreClientInv maxInFlight st.client
  /-- Only flights read. -/
  read : ∀ i row, st.read i = some row → ∃ f, st.client.flights[i]? = some f
  /-- An answer is made from the row that was read. -/
  answer : ∀ i reply, st.answer i = some reply →
    ∃ now row, st.read i = some row ∧ reply = getLinkReply now row

/-- The row of the code, and what the flights read and answered that had read nothing before: those
of the code read that row, and all of them answer with a clock of the time since. -/
structure ReadsSince (before : Lookups) (code : String) (current : Except DbError Postgres.Link)
    (st : Lookups) : Prop where
  table : st.pg.getLink code = current
  clock : before.now ≤ st.now
  reads : ∀ i row stage, before.read i = none → st.read i = some row →
    st.client.flights[i]? = some ⟨code, stage⟩ → row = current
  answers : ∀ i reply, before.read i = none → st.answer i = some reply →
    ∃ now row, before.now ≤ now ∧ now ≤ st.now ∧ st.read i = some row ∧
      reply = getLinkReply now row

section Runs

variable {maxInFlight : Nat} {st st' : Lookups} {a : LookupsAction}

theorem LookupsInv.init (maxInFlight : Nat) (pg : Postgres) (now : Int) :
    LookupsInv maxInFlight (.init maxInFlight pg now) where
  client := CoreClientInv.init maxInFlight
  read := fun i row hread => by cases hread
  answer := fun i reply hanswer => by cases hanswer

/-- A step of the client on its own. -/
theorem LookupsInv.setClient (h : LookupsInv maxInFlight st) {a : CoreClientAction}
    {client : CoreClient} (hstep : coreClient.step st.client a = some client) :
    LookupsInv maxInFlight { st with client := client } where
  client := h.client.step hstep
  read := by
    intro i row hread
    obtain ⟨f, hf⟩ := h.read i row hread
    obtain ⟨stage, hf'⟩ := (CoreClient.Step.of_step hstep).keeps_key hf
    exact ⟨_, hf'⟩
  answer := h.answer

/-- **Step lemma.** A flight reads once and is answered from what it has read. -/
theorem LookupsInv.step (h : LookupsInv maxInFlight st) (hstep : lookups.step st a = some st') :
    LookupsInv maxInFlight st' := by
  cases Lookups.Step.of_step hstep with
  | client hclient => exact h.setClient hclient
  | fail hclient => exact h.setClient hclient
  | read hflight hread =>
    -- each flight reads once, so no answer loses the read it came from
    refine ⟨h.client, fun j row hj => ?_, fun j reply hanswer => ?_⟩
    · change (if j = _ then _ else st.read j) = some row at hj
      split at hj
      · next hji => exact ⟨_, hji ▸ hflight⟩
      · exact h.read j row hj
    · obtain ⟨now, row, hj, hreply⟩ := h.answer j reply hanswer
      refine ⟨now, row, ?_, hreply⟩
      show (if j = _ then _ else st.read j) = some row
      rw [if_neg]
      · exact hj
      · rintro rfl
        rw [hread] at hj
        cases hj
  | @answer i row client hread hclient =>
    have hset := h.setClient hclient
    refine ⟨hset.client, hset.read, fun j reply hanswer => ?_⟩
    change (if j = i then some (getLinkReply st.now row) else st.answer j) = some reply at hanswer
    split at hanswer
    · next hji => exact ⟨st.now, row, hji ▸ hread, (Option.some.inj hanswer).symm⟩
    · exact h.answer j reply hanswer
  | write _ => exact ⟨h.client, h.read, h.answer⟩
  | writeFails _ _ => exact h
  | tick _ => exact ⟨h.client, h.read, h.answer⟩

/-- A step of the client reads nothing. -/
theorem ReadsSince.setClient {before : Lookups} {code : String}
    {current : Except DbError Postgres.Link} (h : ReadsSince before code current st)
    (hinv : LookupsInv maxInFlight st) {a : CoreClientAction} {client : CoreClient}
    (hstep : coreClient.step st.client a = some client) :
    ReadsSince before code current { st with client := client } where
  table := h.table
  clock := h.clock
  reads := by
    intro i row' stage hbefore hread hflight
    obtain ⟨f, hf⟩ := hinv.read i row' hread
    obtain ⟨stage', hf'⟩ := (CoreClient.Step.of_step hstep).keeps_key hf
    obtain ⟨hkey, -⟩ := Flight.mk.inj (Option.some.inj (hf'.symm.trans hflight))
    exact h.reads i row' f.stage hbefore hread (by rw [hf, ← hkey])
  answers := h.answers

/-- A read changes no other, and this flight had none. -/
theorem ReadsSince.answers_read {before : Lookups} {code : String}
    {current row : Except DbError Postgres.Link} (h : ReadsSince before code current st) {i : Nat}
    (hread : st.read i = none) {j : Nat} {reply : GetLinkReply} (hbefore : before.read j = none)
    (hanswer : st.answer j = some reply) :
    ∃ now row', before.now ≤ now ∧ now ≤ st.now ∧
      (if j = i then some row else st.read j) = some row' ∧ reply = getLinkReply now row' := by
  obtain ⟨now, row', hfrom, hto, hj, hreply⟩ := h.answers j reply hbefore hanswer
  refine ⟨now, row', hfrom, hto, ?_, hreply⟩
  rw [if_neg]
  · exact hj
  · rintro rfl
    rw [hread] at hj
    cases hj

/-- **Step lemma**, for steps that leave the row as it is: the flights that had read nothing read
this row, and are answered with a clock of now. -/
theorem ReadsSince.step {before : Lookups} {code : String}
    {current : Except DbError Postgres.Link} (h : ReadsSince before code current st)
    (hinv : LookupsInv maxInFlight st) (hleaves : st.leaves code a = true)
    (hstep : lookups.step st a = some st') : ReadsSince before code current st' := by
  cases Lookups.Step.of_step hstep with
  | client hclient => exact h.setClient hinv hclient
  | fail hclient => exact h.setClient hinv hclient
  | @read i key hflight hread =>
    refine ⟨h.table, h.clock, fun j row' stage hbefore hj hflightⱼ => ?_,
      fun j reply hbefore hanswer => h.answers_read hread hbefore hanswer⟩
    change (if j = i then some (st.pg.getLink key) else st.read j) = some row' at hj
    split at hj
    · next hji =>
      -- the flight of the code reads the row as it is now
      subst hji
      obtain ⟨rfl, -⟩ := Flight.mk.inj (Option.some.inj (hflight.symm.trans hflightⱼ))
      rw [← Option.some.inj hj]
      exact h.table
    · exact h.reads j row' stage hbefore hj hflightⱼ
  | @answer i row client hread hclient =>
    obtain ⟨htable, hclock, hreads, hanswers⟩ := h.setClient hinv hclient
    refine ⟨htable, hclock, hreads, fun j reply hbefore hanswer => ?_⟩
    change (if j = i then some (getLinkReply st.now row) else st.answer j) = some reply at hanswer
    split at hanswer
    · next hji =>
      -- the core service checks the expiration with its clock of now
      refine ⟨st.now, row, h.clock, le_refl _, hji ▸ hread, (Option.some.inj hanswer).symm⟩
    · exact hanswers j reply hbefore hanswer
  | @write shortCode write pg hcommit =>
    -- a write that commits is of another code
    refine ⟨?_, h.clock, h.reads, h.answers⟩
    show pg.getLink code = current
    rw [getLink_commit hcommit, if_neg]
    · exact h.table
    · rintro rfl
      simp [Lookups.leaves, hcommit, Except.isOk, Except.toBool] at hleaves
  | writeFails _ _ => exact h
  | tick nanos =>
    -- the answers were given with a clock that is still not after now
    have hlater : st.now ≤ st.now + nanos := by omega
    refine ⟨h.table, h.clock.trans hlater, h.reads, fun j reply hbefore hanswer => ?_⟩
    obtain ⟨now, row, hfrom, hto, hread, hreply⟩ := h.answers j reply hbefore hanswer
    exact ⟨now, row, hfrom, hto.trans hlater, hread, hreply⟩

end Runs

/-- **How old an answer can be.** Once a write of a code has committed, and while no other write
of the code commits, a call for the code that returns an answer of the core service returns the
answer of the table after the write, with the clock of some moment since the write, unless the
flight it joined had read the table before. -/
theorem get_link_fresh {maxInFlight : Nat} {pg pg₁ : Postgres} {now₀ : Int}
    {as bs : List LookupsAction} {st₀ st : Lookups} {code : String} {write : LinkWrite}
    (hrun₀ : lookups.run (.init maxInFlight pg now₀) as = some st₀)
    (hwrite : write.commit st₀.pg code = .ok pg₁)
    (hquiet : lookups.Meets (fun st a => st.leaves code a) { st₀ with pg := pg₁ } bs)
    (hrun : lookups.run { st₀ with pg := pg₁ } bs = some st)
    {caller : Caller} (hcaller : caller ∈ st.client.callers) (hcode : caller.code = code)
    (hjoined : st₀.read caller.flight = none) {reply : GetLinkReply}
    (hreturned : caller.stage = .returned reply) (hanswer : st.answer caller.flight = some reply) :
    ∃ now, st₀.now ≤ now ∧ now ≤ st.now ∧ reply = getLinkReply now write.row := by
  have hstep : lookups.step st₀ (.write code write) = some { st₀ with pg := pg₁ } := by
    simp only [lookups, Lookups.step, hwrite]
  have hinv₀ : LookupsInv maxInFlight st₀ :=
    lookups.run_invariant (fun _ _ _ h hs => h.step hs) hrun₀
      (LookupsInv.init maxInFlight pg now₀)
  have hsince₀ : ReadsSince st₀ code write.row { st₀ with pg := pg₁ } := by
    refine ⟨?_, le_refl _, fun i row stage hnone hread => ?_, fun i reply hnone hanswer => ?_⟩
    · show pg₁.getLink code = write.row
      rw [getLink_commit hwrite, if_pos rfl]
    · change st₀.read i = some row at hread
      rw [hnone] at hread
      cases hread
    · -- a flight that has read nothing has no answer
      obtain ⟨now, row, hread, -⟩ := hinv₀.answer i reply hanswer
      rw [hnone] at hread
      cases hread
  -- the two invariants together, from the state right after the write
  obtain ⟨hinv, hsince⟩ : LookupsInv maxInFlight st ∧ ReadsSince st₀ code write.row st :=
    lookups.run_invariant_of_meets
      (I := fun st => LookupsInv maxInFlight st ∧ ReadsSince st₀ code write.row st)
      (fun _ _ _ h hleaves hs => ⟨h.1.step hs, h.2.step h.1 hleaves hs⟩)
      hquiet hrun ⟨hinv₀.step hstep, hsince₀⟩
  obtain ⟨stage, hflight, -⟩ := hinv.client.callers caller hcaller
  -- the answer was made of the row that the flight had read, and that is the one written
  obtain ⟨now, row, hfrom, hto, hread, rfl⟩ := hsince.answers _ reply hjoined hanswer
  obtain rfl := hsince.reads _ row stage hjoined hread (hcode ▸ hflight)
  exact ⟨now, hfrom, hto, rfl⟩

/-- The tables with one link. -/
def oneLink : Postgres :=
  { Postgres.empty with links := Table.empty.set "a" (Postgres.newLink "https://example.org" none) }

/-- A call after the link was created. A second link with its code is refused meanwhile. -/
def readsAfter : List LookupsAction :=
  [.client (.getLink "a"), .client (.acquire 0), .read 0, .tick 3,
    .write "a" (.createLink "https://example.net" none), .answer 0, .client (.release 0),
    .client (.publish 0), .client (.wake 0)]

theorem get_link_fresh_readsAfter : ∃ st caller now,
    lookups.run ⟨.withMaxInFlight 1, oneLink, 0, fun _ => none, fun _ => none⟩ readsAfter =
        some st ∧
      caller ∈ st.client.callers ∧ 0 ≤ now ∧ now ≤ st.now ∧
      caller.stage = .returned (getLinkReply now (.ok ⟨"https://example.org", none⟩)) := by
  have hrun : (lookups.run ⟨.withMaxInFlight 1, oneLink, 0, fun _ => none, fun _ => none⟩
      readsAfter).map (fun st => (st.client.callers, st.answer 0)) =
        some ([⟨"a", 0, .returned (.ok ⟨"https://example.org"⟩)⟩],
          some (.ok ⟨"https://example.org"⟩)) := by
    decide
  obtain ⟨st, hst, hvalues⟩ := Option.map_eq_some_iff.mp hrun
  obtain ⟨hcallers, hanswer⟩ := Prod.mk.inj hvalues
  have hmem : ⟨"a", 0, .returned (.ok ⟨"https://example.org"⟩)⟩ ∈ st.client.callers := by
    rw [hcallers]
    exact List.mem_singleton.mpr rfl
  obtain ⟨now, hfrom, hto, hnow⟩ := @get_link_fresh 1 Postgres.empty oneLink 0 [] readsAfter _ st
    "a" (.createLink "https://example.org" none) rfl rfl (by decide) hst _ hmem rfl rfl _ rfl
    hanswer
  exact ⟨st, _, now, hst, hmem, hfrom, hto, congrArg CallerStage.returned hnow⟩

/-- The link is created, and a call begins, while the answer to an older call is on its way. -/
theorem joined_answer_is_old : (lookups.run (.init 1 Postgres.empty 0)
      [.client (.getLink "a"), .client (.acquire 0), .read 0,
        .write "a" (.createLink "https://example.org" none), .client (.getLink "a"), .answer 0,
        .client (.release 0), .client (.publish 0), .client (.wake 1)]).map
      (fun st => (st.pg.linkExists "a", st.client.callers.map Caller.stage, st.answer 0)) =
    some (true, [.waiting, .returned (.error ⟨.notFound, "Short code not found"⟩)],
      some (.error ⟨.notFound, "Short code not found"⟩)) := by
  decide

end Kurl
