import Kurl.Core.CreateLink
import Kurl.Lib.Count
import Kurl.Lib.Machine

/-!
# Kurl — generated short codes under concurrency (`core/src/grpc.rs`)

Any number of `create_link` requests at the granularity of their database calls. A request without a
short code first asks, up to ten times, whether a random one is free, and inserts the one that was;
a request with a short code inserts it at once. The insertion is `LinkService.createLink` with the
code that the request has by then.

Between the answer that a code is free and its insertion another request can insert it, and the
insertion is not tried again. So what a run may do to a generated code depends on the step that
inserts it (`insertion_cases`), and what holds of every run is what the unique key gives
(`CreateInv`): a request that succeeded has a link of its own.

`meets_iff_generated` is the rule behind the results: what holds at every insertion of a generated
code holds of every request without a short code when the run ends, and the other way round. The two
halves of `generated_never_conflicts_iff` are instances of it.
-/

namespace Kurl

open Lib

/-- `random_string(LEN)`: letters and digits of `rand::distr::Alphanumeric`. -/
structure RandomString where
  text : String
  length_eq : text.length = 6
  alphanumeric : text.toList.all Char.isAlphanum = true

/-- The table takes a random string: it has six characters, and none of them is NUL. -/
theorem RandomString.hasRoom (code : RandomString) : Postgres.HasRoom code.text := by
  have hlength := code.length_eq
  refine ⟨?_, by omega, by omega⟩
  rw [Postgres.hasNul, ← Bool.not_eq_true, List.contains_iff_mem]
  intro hnul
  exact absurd (List.all_eq_true.mp code.alphanumeric _ hnul) (by decide)

/-- Where a `create_link` request is: it asks for a free code (after so many attempts), inserts one,
has answered or has panicked. -/
inductive CreateStage where
  /-- In the loop of `generate_short_code`, after so many attempts. -/
  | generating (attempts : ℕ)
  | inserting (shortCode : String)
  | answered (reply : Except Status CreateLinkResponse)
  | panicked

/-- A request and where it is. -/
structure CreateCall where
  request : CreateLinkRequest
  stage : CreateStage

/-- The tables and the requests, in the order in which they came. -/
structure CreateRuns where
  pg : Postgres
  calls : List CreateCall

/-- A database call is a step. It may fail, and the clock is read at the time of the insertion. -/
inductive CreateAction where
  | begin (request : CreateLinkRequest)
  | linkExists (i : ℕ) (code : RandomString) (fails : Bool)
  | createLink (i : ℕ) (now : DateTime) (fails : Bool)

/-- The repository while its calls fail. -/
def failingRepository : LinkRepository where
  linkExists _ := .error .transient
  createLink _ _ _ := .error .transient

def noFreeCode : Status := ⟨.internal, "Failed to generate a unique short code"⟩

namespace CreateRuns

/-- Where a request starts. -/
def firstStage (request : CreateLinkRequest) : CreateStage :=
  match request.shortCode with
  | some shortCode => .inserting shortCode
  | none => .generating 0

/-- `if let Ok(false) = link_exists(..)`, and the next attempt if there is one. -/
def afterExists (pg : Postgres) (attempts : ℕ) (code : RandomString) (fails : Bool) :
    CreateStage :=
  if !fails && !pg.linkExists code.text then .inserting code.text
  else if attempts + 1 < retries then .generating (attempts + 1)
  else .answered (.error noFreeCode)

/-- `create_link` from the code on. -/
def insertion (prost : ProstWkt) (pg : Postgres) (request : CreateLinkRequest) (shortCode : String)
    (now : DateTime) (fails : Bool) : Panics (Except Status (CreateLinkResponse × Postgres)) :=
  LinkService.createLink prost (if fails then failingRepository else pg.repository) [] now
    { request with shortCode := some shortCode }

/-- The tables and the stage that an insertion leaves. -/
def afterInsertion (pg : Postgres) :
    Panics (Except Status (CreateLinkResponse × Postgres)) → Postgres × CreateStage
  | .error _ => (pg, .panicked)
  | .ok (.error status) => (pg, .answered (.error status))
  | .ok (.ok (response, pg')) => (pg', .answered (.ok response))

def step (prost : ProstWkt) (st : CreateRuns) : CreateAction → Option CreateRuns
  | .begin request => some { st with calls := st.calls ++ [⟨request, firstStage request⟩] }
  | .linkExists i code fails =>
    match st.calls[i]? with
    | some ⟨request, .generating attempts⟩ => some { st with
        calls := st.calls.set i ⟨request, afterExists st.pg attempts code fails⟩ }
    | _ => none
  | .createLink i now fails =>
    match st.calls[i]? with
    | some ⟨request, .inserting shortCode⟩ =>
      let after := afterInsertion st.pg (insertion prost st.pg request shortCode now fails)
      some { pg := after.1, calls := st.calls.set i ⟨request, after.2⟩ }
    | _ => none

end CreateRuns

def creates (prost : ProstWkt) : Machine CreateRuns CreateAction where
  step := CreateRuns.step prost

namespace CreateRuns

/-! ## What a step does -/

section Steps

variable {prost : ProstWkt} {st st' : CreateRuns} {a : CreateAction}

/-- A request comes, or the stage of one request changes: by a question that writes nothing, or by
an insertion. -/
theorem step_cases (h : st.step prost a = some st') :
    (∃ request, a = .begin request ∧
      st' = { st with calls := st.calls ++ [⟨request, firstStage request⟩] }) ∨
    (∃ i request attempts code fails, a = .linkExists i code fails ∧
      st.calls[i]? = some ⟨request, .generating attempts⟩ ∧ st' = { st with
        calls := st.calls.set i ⟨request, afterExists st.pg attempts code fails⟩ }) ∨
    ∃ i request shortCode now fails, a = .createLink i now fails ∧
      st.calls[i]? = some ⟨request, .inserting shortCode⟩ ∧
      st' = ⟨(afterInsertion st.pg (insertion prost st.pg request shortCode now fails)).1,
        st.calls.set i ⟨request,
          (afterInsertion st.pg (insertion prost st.pg request shortCode now fails)).2⟩⟩ := by
  cases a with
  | begin request => exact Or.inl ⟨request, rfl, (Option.some.inj h).symm⟩
  | linkExists i code fails =>
    simp only [step] at h
    split at h
    · next request attempts hcall =>
      exact Or.inr (Or.inl ⟨i, request, attempts, code, fails, rfl, hcall,
        (Option.some.inj h).symm⟩)
    · cases h
  | createLink i now fails =>
    simp only [step] at h
    split at h
    · next request shortCode hcall =>
      exact Or.inr (Or.inr ⟨i, request, shortCode, now, fails, rfl, hcall,
        (Option.some.inj h).symm⟩)
    · cases h

/-- The request can be inserted at this time: its expiration can be decoded and is to come. -/
def Accepted (prost : ProstWkt) (now : DateTime) (request : CreateLinkRequest) : Prop :=
  ∃ expiration, decodeExpiration prost request.expiration = .ok (.ok expiration) ∧
    expiration.any (fun expiration => expiration ≤ now) = false

/-- A decoding that fails is `InvalidArgument`. -/
theorem code_of_decodeExpiration {timestamp : Option Timestamp} {status : Status}
    (h : decodeExpiration prost timestamp = .ok (.error status)) :
    status.code = .invalidArgument := by
  cases timestamp with
  | none => cases h
  | some timestamp =>
    simp only [decodeExpiration] at h
    cases hdecode : timestampToDatetime prost timestamp with
    | error panic =>
      rw [hdecode] at h
      cases h
    | ok result =>
      rw [hdecode] at h
      cases result with
      | ok t => cases h
      | error status' =>
        have hstatus : status' = status := Except.error.inj (Except.ok.inj h)
        rw [← hstatus]
        exact code_of_timestampToDatetime hdecode

/-- An insertion that is not refused before it reaches the table. -/
theorem insertion_of_decoded (pg : Postgres) {request : CreateLinkRequest} (shortCode : String)
    {now : DateTime} (fails : Bool) {expiration : Option DateTime}
    (hdecode : decodeExpiration prost request.expiration = .ok (.ok expiration))
    (hlater : expiration.any (fun expiration => expiration ≤ now) = false) :
    insertion prost pg request shortCode now fails =
      .ok ((((if fails then failingRepository else pg.repository).createLink shortCode
        request.target expiration).mapError insertionStatus).map
          fun pg => (⟨shortCode⟩, pg)) := by
  unfold insertion LinkService.createLink
  simp only [Option.some_or, hdecode]
  rw [hlater]
  rfl

/-- A request that cannot be inserted is refused before. -/
theorem insertion_of_not_accepted (pg : Postgres) {request : CreateLinkRequest} (shortCode : String)
    {now : DateTime} (fails : Bool) (h : ¬ Accepted prost now request) :
    (∃ panic, insertion prost pg request shortCode now fails = .error panic) ∨
      ∃ status, insertion prost pg request shortCode now fails = .ok (.error status) ∧
        status.code = .invalidArgument := by
  unfold insertion LinkService.createLink
  simp only [Option.some_or]
  cases hdecode : decodeExpiration prost request.expiration with
  | error panic => exact Or.inl ⟨panic, rfl⟩
  | ok result =>
    cases result with
    | error status => exact Or.inr ⟨status, rfl, code_of_decodeExpiration hdecode⟩
    | ok expiration =>
      by_cases hexpired : (expiration.any fun expiration => decide (expiration ≤ now)) = true
      · exact Or.inr ⟨_, if_pos hexpired, rfl⟩
      · exact absurd ⟨expiration, hdecode, by simpa using hexpired⟩ h

/-- **How the insertion of a code ends**: it is refused before it reaches the table, the call fails
or the table refuses the code itself, the code is taken, or there is a new row. -/
theorem insertion_cases (pg : Postgres) (request : CreateLinkRequest) (shortCode : String)
    (now : DateTime) (fails : Bool) :
    (¬ Accepted prost now request ∧
      ((∃ panic, insertion prost pg request shortCode now fails = .error panic) ∨
        ∃ status, insertion prost pg request shortCode now fails = .ok (.error status) ∧
          status.code = .invalidArgument)) ∨
    (Accepted prost now request ∧ (fails = true ∨ ¬ Postgres.HasRoom shortCode) ∧
      insertion prost pg request shortCode now fails =
        .ok (.error ⟨.internal, "Failed to create link"⟩)) ∨
    (Accepted prost now request ∧ fails = false ∧ pg.linkExists shortCode = true ∧
      insertion prost pg request shortCode now fails =
        .ok (.error ⟨.alreadyExists, "Short code already exists"⟩)) ∨
    (Accepted prost now request ∧ fails = false ∧ pg.linkExists shortCode = false ∧
      ∃ expiration, insertion prost pg request shortCode now fails = .ok (.ok (⟨shortCode⟩,
        { pg with
          links := pg.links.set shortCode (Postgres.newLink request.target expiration) }))) := by
  by_cases haccepted : Accepted prost now request
  · obtain ⟨expiration, hdecode, hlater⟩ := id haccepted
    rw [insertion_of_decoded pg shortCode fails hdecode hlater]
    -- the call fails before anything is known of the code
    cases fails with
    | true => exact Or.inr (Or.inl ⟨haccepted, Or.inl rfl, rfl⟩)
    | false =>
      rw [if_neg Bool.false_ne_true]
      -- the column checks the code itself before the primary key
      by_cases hroom : Postgres.HasRoom shortCode
      · by_cases hexists : pg.linkExists shortCode = true
        · have hcreate : pg.repository.createLink shortCode request.target expiration =
              .error .conflict :=
            (Postgres.createLink_of_hasRoom hroom _ _ _).trans (if_pos hexists)
          rw [hcreate]
          exact Or.inr (Or.inr (Or.inl ⟨haccepted, rfl, hexists, rfl⟩))
        · have hcreate : pg.repository.createLink shortCode request.target expiration =
              .ok { pg with
                links := pg.links.set shortCode (Postgres.newLink request.target expiration) } :=
            (Postgres.createLink_of_hasRoom hroom _ _ _).trans (if_neg hexists)
          rw [hcreate]
          exact Or.inr (Or.inr (Or.inr ⟨haccepted, rfl, Bool.eq_false_of_not_eq_true hexists,
            expiration, rfl⟩))
      · have hcreate : pg.repository.createLink shortCode request.target expiration =
            .error .other := Postgres.createLink_of_not_hasRoom hroom _ _ _
        rw [hcreate]
        exact Or.inr (Or.inl ⟨haccepted, Or.inr hroom, rfl⟩)
  · exact Or.inl ⟨haccepted, insertion_of_not_accepted pg shortCode fails haccepted⟩

/-- An insertion answers without a link and leaves the tables as they are, or it adds a row. -/
theorem afterInsertion_cases (pg : Postgres) (request : CreateLinkRequest) (shortCode : String)
    (now : DateTime) (fails : Bool) :
    (∃ stage, afterInsertion pg (insertion prost pg request shortCode now fails) = (pg, stage) ∧
      (∀ response, stage ≠ .answered (.ok response)) ∧ ∀ code, stage ≠ .inserting code) ∨
    (pg.linkExists shortCode = false ∧
      ∃ expiration, afterInsertion pg (insertion prost pg request shortCode now fails) =
        ({ pg with
          links := pg.links.set shortCode (Postgres.newLink request.target expiration) },
          .answered (.ok ⟨shortCode⟩))) := by
  have hrefused : ∀ status, insertion prost pg request shortCode now fails = .ok (.error status) →
      ∃ stage, afterInsertion pg (insertion prost pg request shortCode now fails) = (pg, stage) ∧
        (∀ response, stage ≠ .answered (.ok response)) ∧ ∀ code, stage ≠ .inserting code := by
    intro status hend
    exact ⟨.answered (.error status), by rw [hend]; rfl, by simp, by simp⟩
  rcases @insertion_cases prost pg request shortCode now fails with
    ⟨-, ⟨panic, hend⟩ | ⟨status, hend, -⟩⟩ | ⟨-, -, hend⟩ | ⟨-, -, -, hend⟩ |
      ⟨-, -, hfree, expiration, hend⟩
  · exact Or.inl ⟨.panicked, by rw [hend]; rfl, by simp, by simp⟩
  · exact Or.inl (hrefused status hend)
  · exact Or.inl (hrefused _ hend)
  · exact Or.inl (hrefused _ hend)
  · exact Or.inr ⟨hfree, expiration, by rw [hend]; rfl⟩

end Steps

/-! ## Every run -/

/-- What the unique key gives, whatever the requests and the failures: the links that were there
stay, a request that succeeded has its link, and no two of them have the same one. -/
structure CreateInv (pg₀ : Postgres) (st : CreateRuns) : Prop where
  kept : ∀ (code : String) (row : LinkRow), pg₀.links.get code = some row →
    st.pg.links.get code = some row
  own : ∀ (i : ℕ) (call : CreateCall) (response : CreateLinkResponse), st.calls[i]? = some call →
    call.stage = .answered (.ok response) → pg₀.links.get response.shortCode = none ∧
      ∃ row, st.pg.links.get response.shortCode = some row ∧ row.target = call.request.target
  apart : ∀ (i j : ℕ) (call call' : CreateCall) (response response' : CreateLinkResponse), i ≠ j →
    st.calls[i]? = some call → call.stage = .answered (.ok response) →
    st.calls[j]? = some call' → call'.stage = .answered (.ok response') →
    response.shortCode ≠ response'.shortCode
  generated : ∀ (i : ℕ) (call : CreateCall) (code : String), st.calls[i]? = some call →
    call.request.shortCode = none → call.stage = .inserting code → Postgres.HasRoom code

section Runs

variable {prost : ProstWkt} {pg₀ : Postgres} {st st' : CreateRuns} {a : CreateAction}

/-- A step that answers no request with a link, and inserts none. -/
theorem CreateInv.of_stage (hinv : CreateInv pg₀ st) {calls : List CreateCall}
    (hcalls : ∀ (j : ℕ) (call : CreateCall), calls[j]? = some call → st.calls[j]? = some call ∨
      ((∀ response, call.stage ≠ .answered (.ok response)) ∧
        ∀ code, call.request.shortCode = none → call.stage = .inserting code →
          Postgres.HasRoom code)) :
    CreateInv pg₀ ⟨st.pg, calls⟩ := by
  constructor
  case kept => exact hinv.kept
  case own =>
    intro i call response hcall hstage
    rcases hcalls i call hcall with hold | ⟨hnew, -⟩
    · exact hinv.own i call response hold hstage
    · exact absurd hstage (hnew response)
  case apart =>
    intro i j call call' response response' hij hcall hstage hcall' hstage'
    rcases hcalls i call hcall with hold | ⟨hnew, -⟩
    · rcases hcalls j call' hcall' with hold' | ⟨hnew', -⟩
      · exact hinv.apart i j call call' response response' hij hold hstage hold' hstage'
      · exact absurd hstage' (hnew' response')
    · exact absurd hstage (hnew response)
  case generated =>
    intro i call code hcall hshort hstage
    rcases hcalls i call hcall with hold | ⟨-, hnew⟩
    · exact hinv.generated i call code hold hshort hstage
    · exact hnew code hshort hstage

/-- A new row, and the request that has it. -/
theorem CreateInv.of_insert (hinv : CreateInv pg₀ st) {i : ℕ} {request : CreateLinkRequest}
    {shortCode : String} (hfree : st.pg.links.get shortCode = none)
    (expiration : Option DateTime) :
    CreateInv pg₀ ⟨{ st.pg with
      links := st.pg.links.set shortCode (Postgres.newLink request.target expiration) },
      st.calls.set i ⟨request, .answered (.ok ⟨shortCode⟩)⟩⟩ := by
  -- the code was free, so no row of before is its own
  have hold : ∀ {code row}, st.pg.links.get code = some row → code ≠ shortCode := by
    rintro code row hrow rfl
    rw [hfree] at hrow
    cases hrow
  have hkeep : ∀ {code row}, st.pg.links.get code = some row →
      (st.pg.links.set shortCode (Postgres.newLink request.target expiration)).get code =
        some row := by
    intro code row hrow
    rw [Table.get_set_of_ne _ _ (hold hrow)]
    exact hrow
  -- the links of the requests that succeeded before are not this one
  have hother : ∀ {j : ℕ} {call : CreateCall} {response : CreateLinkResponse},
      st.calls[j]? = some call →
      call.stage = .answered (.ok response) → response.shortCode ≠ shortCode := by
    intro j call response hcall hstage
    obtain ⟨-, row, hrow, -⟩ := hinv.own j call response hcall hstage
    exact hold hrow
  constructor
  case kept => exact fun code row hrow => hkeep (hinv.kept code row hrow)
  case own =>
    intro j call response hcall hstage
    rcases getElem?_set_cases hcall with ⟨rfl, rfl⟩ | ⟨-, hcall⟩
    · obtain rfl := Except.ok.inj (CreateStage.answered.inj hstage)
      refine ⟨?_, _, Table.get_set_self _ _ _, rfl⟩
      rw [Option.eq_none_iff_forall_ne_some]
      intro row hrow
      exact hold (hinv.kept shortCode row hrow) rfl
    · obtain ⟨hnew, row, hrow, htarget⟩ := hinv.own j call response hcall hstage
      exact ⟨hnew, row, hkeep hrow, htarget⟩
  case apart =>
    intro j k call call' response response' hjk hcall hstage hcall' hstage'
    rcases getElem?_set_cases hcall with ⟨rfl, rfl⟩ | ⟨-, hbefore⟩
    · obtain rfl := Except.ok.inj (CreateStage.answered.inj hstage)
      rcases getElem?_set_cases hcall' with ⟨rfl, -⟩ | ⟨-, hbefore'⟩
      · exact absurd rfl hjk
      · exact (hother hbefore' hstage').symm
    · rcases getElem?_set_cases hcall' with ⟨rfl, rfl⟩ | ⟨-, hbefore'⟩
      · obtain rfl := Except.ok.inj (CreateStage.answered.inj hstage')
        exact hother hbefore hstage
      · exact hinv.apart j k call call' response response' hjk hbefore hstage hbefore' hstage'
  case generated =>
    intro j call code hcall hshort hstage
    rcases getElem?_set_cases hcall with ⟨-, rfl⟩ | ⟨-, hcall⟩
    · cases hstage
    · exact hinv.generated j call code hcall hshort hstage

/-- The stage of one request changes, without a link for it. -/
theorem CreateInv.of_replace (hinv : CreateInv pg₀ st) {i : ℕ} {request : CreateLinkRequest}
    {stage : CreateStage} (hok : ∀ response, stage ≠ .answered (.ok response))
    (hcode : ∀ code, stage = .inserting code → Postgres.HasRoom code) :
    CreateInv pg₀ ⟨st.pg, st.calls.set i ⟨request, stage⟩⟩ := by
  refine hinv.of_stage fun j call hcall => ?_
  rcases getElem?_set_cases hcall with ⟨-, rfl⟩ | ⟨-, hold⟩
  · exact Or.inr ⟨hok, fun code _ => hcode code⟩
  · exact Or.inl hold

theorem createInv_init (pg₀ : Postgres) : CreateInv pg₀ ⟨pg₀, []⟩ := by
  constructor
  case kept => exact fun _ _ hrow => hrow
  all_goals
    intros
    contradiction

/-- **Step lemma.** A request moves to its next stage, or its insertion adds a row that no other
request has. -/
theorem createInv_step (hinv : CreateInv pg₀ st) (h : st.step prost a = some st') :
    CreateInv pg₀ st' := by
  rcases step_cases h with ⟨request, -, rfl⟩ | ⟨i, request, attempts, code, fails, -, -, rfl⟩ |
    ⟨i, request, shortCode, now, fails, -, -, rfl⟩
  · refine hinv.of_stage fun j call hcall => ?_
    rcases getElem?_append_cases hcall with hold | rfl
    · exact Or.inl hold
    · unfold firstStage
      cases request.shortCode <;> simp
  · refine hinv.of_replace (fun response => ?_) (fun code' hstage => ?_)
    · unfold afterExists
      split
      · simp
      · split <;> simp
    · unfold afterExists at hstage
      split at hstage
      · exact CreateStage.inserting.inj hstage ▸ code.hasRoom
      · split at hstage <;> cases hstage
  · rcases @afterInsertion_cases prost st.pg request shortCode now fails with
      ⟨stage, hafter, hok, hcode⟩ | ⟨hfree, expiration, hafter⟩
    · rw [hafter]
      exact hinv.of_replace hok fun code hstage => absurd hstage (hcode code)
    · rw [hafter]
      exact hinv.of_insert (by simpa [Postgres.linkExists] using hfree) expiration

/-- **Run lemma.** From the tables as they were, with no request yet. -/
theorem createInv_run {as : List CreateAction}
    (hrun : (creates prost).run ⟨pg₀, []⟩ as = some st') : CreateInv pg₀ st' :=
  (creates prost).run_invariant (fun _ _ _ hinv hstep => createInv_step hinv hstep) hrun
    (createInv_init pg₀)

/-! ## The requests without a short code -/

/-- What holds of the stage of every request that gave no short code. -/
def Generated (Allowed : CreateStage → Prop) (st : CreateRuns) : Prop :=
  ∀ (i : ℕ) (call : CreateCall), st.calls[i]? = some call → call.request.shortCode = none →
    Allowed call.stage

section Generated

variable {Allowed : CreateStage → Prop}

theorem Generated.append (h : Generated Allowed st) {request : CreateLinkRequest}
    (hgenerating : Allowed (.generating 0)) :
    Generated Allowed { st with calls := st.calls ++ [⟨request, firstStage request⟩] } := by
  intro i call hcall hcode
  rcases getElem?_append_cases hcall with hold | rfl
  · exact h i call hold hcode
  · have hfirst : firstStage request = .generating 0 := by
      unfold firstStage
      rw [hcode]
    rw [hfirst]
    exact hgenerating

theorem Generated.of_append {call : CreateCall} {pg : Postgres}
    (h : Generated Allowed ⟨pg, st.calls ++ [call]⟩) : Generated Allowed st := by
  intro i old hold hcode
  obtain ⟨hi, -⟩ := List.getElem?_eq_some_iff.mp hold
  exact h i old ((List.getElem?_append_left hi).trans hold) hcode

theorem Generated.set (h : Generated Allowed st) {i : ℕ} {request : CreateLinkRequest}
    {stage : CreateStage} {pg : Postgres} (hstage : request.shortCode = none → Allowed stage) :
    Generated Allowed ⟨pg, st.calls.set i ⟨request, stage⟩⟩ := by
  intro j call hcall hcode
  rcases getElem?_set_cases hcall with ⟨-, rfl⟩ | ⟨-, hold⟩
  · exact hstage hcode
  · exact h j call hold hcode

/-- The other way, for a request whose stage before was allowed. -/
theorem Generated.of_set {i : ℕ} {call new : CreateCall} {pg : Postgres}
    (hold : st.calls[i]? = some call) (hallowed : Allowed call.stage)
    (h : Generated Allowed ⟨pg, st.calls.set i new⟩) : Generated Allowed st := by
  intro j call' hcall' hcode
  by_cases hij : i = j
  · subst hij
    obtain rfl := Option.some.inj (hold.symm.trans hcall')
    exact hallowed
  · exact h j call' ((List.getElem?_set_ne hij).trans hcall') hcode

/-- The stage that a step gives to a request. -/
theorem Generated.stage_of_set {i : ℕ} {call : CreateCall} {request : CreateLinkRequest}
    {stage : CreateStage} {pg : Postgres} (hold : st.calls[i]? = some call)
    (hcode : request.shortCode = none)
    (h : Generated Allowed ⟨pg, st.calls.set i ⟨request, stage⟩⟩) : Allowed stage := by
  exact h i ⟨request, stage⟩ ((getElem?_set_of_getElem? hold _ i).trans (if_pos rfl)) hcode

end Generated

/-- What is asked of a step that inserts a generated code. -/
def AtGeneratedInsertion
    (P : Postgres → CreateLinkRequest → String → DateTime → Bool → Prop) (st : CreateRuns) :
    CreateAction → Prop
  | .createLink i now fails => ∀ request shortCode,
      st.calls[i]? = some ⟨request, .inserting shortCode⟩ → request.shortCode = none →
      P st.pg request shortCode now fails
  | _ => True

/-- **The insertions decide.** If the stages in which a request waits are allowed, and the answer
that no free code was found, then all stages of a run are allowed exactly if every insertion of a
generated code leaves one that is. -/
theorem meets_iff_generated {Allowed : CreateStage → Prop}
    {P : Postgres → CreateLinkRequest → String → DateTime → Bool → Prop}
    (hgenerating : ∀ attempts, Allowed (.generating attempts))
    (hinserting : ∀ code, Allowed (.inserting code))
    (hnone : Allowed (.answered (.error noFreeCode)))
    (hP : ∀ pg request code now fails, Postgres.HasRoom code → (P pg request code now fails ↔
      Allowed (afterInsertion pg (insertion prost pg request code now fails)).2))
    {as : List CreateAction} (hrun : (creates prost).run ⟨pg₀, []⟩ as = some st') :
    (creates prost).Meets (AtGeneratedInsertion P) ⟨pg₀, []⟩ as ↔ Generated Allowed st' := by
  -- an allowed state stays allowed through a step that meets the condition
  have hkeep : ∀ st a st', CreateInv pg₀ st ∧ Generated Allowed st → AtGeneratedInsertion P st a →
      (creates prost).step st a = some st' → CreateInv pg₀ st' ∧ Generated Allowed st' := by
    rintro st a st' ⟨hinv, hgood⟩ hmeets hstep
    refine ⟨createInv_step hinv hstep, ?_⟩
    rcases step_cases hstep with ⟨request, -, rfl⟩ |
      ⟨i, request, attempts, code, fails, -, -, rfl⟩ |
      ⟨i, request, shortCode, now, fails, rfl, hcall, rfl⟩
    · exact hgood.append (hgenerating 0)
    · refine hgood.set fun _ => ?_
      unfold afterExists
      split
      · exact hinserting code.text
      · split
        · exact hgenerating (attempts + 1)
        · exact hnone
    · -- the only step that can leave a stage that is not allowed
      refine hgood.set fun hcode => ?_
      have hroom := hinv.generated i _ shortCode hcall hcode rfl
      exact (hP st.pg request shortCode now fails hroom).mp (hmeets request shortCode hcall hcode)
  -- and an insertion that breaks it leaves a stage that is not allowed
  have hbreak : ∀ st a st', CreateInv pg₀ st ∧ Generated Allowed st →
      ¬ AtGeneratedInsertion P st a → (creates prost).step st a = some st' →
      ¬ Generated Allowed st' := by
    rintro st a st' ⟨hinv, -⟩ hnot hstep hgood
    rcases step_cases hstep with ⟨request, rfl, -⟩ | ⟨i, request, attempts, code, fails, rfl, -⟩ |
      ⟨i, request, shortCode, now, fails, rfl, hcall, rfl⟩
    · exact hnot trivial
    · exact hnot trivial
    · refine hnot fun request' shortCode' hcall' hcode => ?_
      obtain ⟨rfl, hstage⟩ := CreateCall.mk.inj (Option.some.inj (hcall.symm.trans hcall'))
      obtain rfl := CreateStage.inserting.inj hstage
      have hroom := hinv.generated i _ shortCode hcall hcode rfl
      exact (hP st.pg request shortCode now fails hroom).mpr (hgood.stage_of_set hcall hcode)
  -- a request that has ended stays as it is
  have hstay : ∀ st a st', ¬ Generated Allowed st → (creates prost).step st a = some st' →
      ¬ Generated Allowed st' := by
    intro st a st' hbad hstep hgood
    apply hbad
    rcases step_cases hstep with ⟨request, -, rfl⟩ |
      ⟨i, request, attempts, code, fails, -, hcall, rfl⟩ |
      ⟨i, request, shortCode, now, fails, -, hcall, rfl⟩
    · exact hgood.of_append
    · exact hgood.of_set hcall (hgenerating attempts)
    · exact hgood.of_set hcall (hinserting shortCode)
  have hinit : CreateInv pg₀ ⟨pg₀, []⟩ ∧ Generated Allowed ⟨pg₀, []⟩ :=
    ⟨createInv_init pg₀, fun i call hcall => by simp at hcall⟩
  rw [(creates prost).meets_iff_of_breaks hkeep hbreak hstay hrun hinit (fun h => not_not.mpr h.2)]
  exact ⟨And.right, fun h => ⟨createInv_run hrun, h⟩⟩

/-- A request without a short code never fails with `AlreadyExists`. -/
def NeverAlreadyExists (st : CreateRuns) : Prop :=
  ∀ (i : ℕ) (call : CreateCall) (status : Status), st.calls[i]? = some call →
    call.request.shortCode = none → call.stage = .answered (.error status) →
    status.code ≠ .alreadyExists

/-- A generated code that can be inserted is still free. -/
def StillFree (prost : ProstWkt) : CreateRuns → CreateAction → Prop :=
  AtGeneratedInsertion fun pg request shortCode now fails =>
    Accepted prost now request → fails = false → pg.linkExists shortCode = false

/-- The link of a request that succeeded: it was not there before the run, it has the target of
this request, and no other request has it. -/
structure OwnLink (pg₀ : Postgres) (st : CreateRuns) (i : ℕ) (call : CreateCall)
    (shortCode : String) : Prop where
  new : pg₀.links.get shortCode = none
  mapped : ∃ row, st.pg.links.get shortCode = some row ∧ row.target = call.request.target
  alone : ∀ (j : ℕ) (other : CreateCall) (response : CreateLinkResponse), i ≠ j →
    st.calls[j]? = some other → other.stage = .answered (.ok response) →
    shortCode ≠ response.shortCode

theorem CreateInv.ownLink (hinv : CreateInv pg₀ st) {i : ℕ} {call : CreateCall}
    {response : CreateLinkResponse} (hcall : st.calls[i]? = some call)
    (hstage : call.stage = .answered (.ok response)) :
    OwnLink pg₀ st i call response.shortCode := by
  obtain ⟨hnew, hmapped⟩ := hinv.own i call response hcall hstage
  exact ⟨hnew, hmapped, fun j other response' hij hother hstage' =>
    hinv.apart i j call other response response' hij hcall hstage hother hstage'⟩

/-- What a request may come to: a link of its own, or that no free code was found. -/
def Outcome (pg₀ : Postgres) (st : CreateRuns) (i : ℕ) (call : CreateCall) : Prop :=
  match call.stage with
  | .generating _ => True
  | .inserting _ => True
  | .answered (.ok response) => OwnLink pg₀ st i call response.shortCode
  | .answered (.error status) => status = noFreeCode
  | .panicked => False

/-- Every request without a short code succeeds, or no free code is found for it. -/
def SucceedsOrNoFreeCode (pg₀ : Postgres) (st : CreateRuns) : Prop :=
  ∀ (i : ℕ) (call : CreateCall), st.calls[i]? = some call → call.request.shortCode = none →
    Outcome pg₀ st i call

/-- A generated code can be inserted when it is. -/
def Insertable (prost : ProstWkt) : CreateRuns → CreateAction → Prop :=
  AtGeneratedInsertion fun pg request shortCode now fails =>
    Accepted prost now request ∧ fails = false ∧ pg.linkExists shortCode = false

theorem Insertable.stillFree (h : Insertable prost st a) : StillFree prost st a := by
  cases a with
  | begin request => trivial
  | linkExists i code fails => trivial
  | createLink i now fails =>
    exact fun request shortCode hcall hcode _ _ => (h request shortCode hcall hcode).2.2

theorem stillFree_iff {as : List CreateAction}
    (hrun : (creates prost).run ⟨pg₀, []⟩ as = some st') :
    (creates prost).Meets (StillFree prost) ⟨pg₀, []⟩ as ↔ NeverAlreadyExists st' := by
  have hgenerated : (creates prost).Meets (StillFree prost) ⟨pg₀, []⟩ as ↔
      Generated (fun stage => ∀ status, stage = .answered (.error status) →
        status.code ≠ .alreadyExists) st' := by
    refine meets_iff_generated (by simp) (by simp) ?_ ?_ hrun
    · rintro status hstage
      obtain rfl := Except.error.inj (CreateStage.answered.inj hstage)
      decide
    · intro pg request code now fails hroom
      rcases insertion_cases pg request code now fails with
        ⟨hnot, ⟨panic, hend⟩ | ⟨status, hend, hcode⟩⟩ | ⟨-, hfails, hend⟩ |
          ⟨haccepted, hfails, htaken, hend⟩ | ⟨-, -, hfree, expiration, hend⟩
      · rw [hend]
        exact iff_of_true (fun h => absurd h hnot) (by simp [afterInsertion])
      · rw [hend]
        exact iff_of_true (fun h => absurd h hnot) (by simp [afterInsertion, hcode])
      · rw [hend]
        -- a generated code has room, so it was the query that failed
        have hfailed : fails = true := hfails.resolve_right (not_not.mpr hroom)
        exact iff_of_true (fun _ h => by simp [hfailed] at h) (by simp [afterInsertion])
      · rw [hend]
        -- the answer `AlreadyExists`
        exact iff_of_false (fun h => by simp [h haccepted hfails] at htaken)
          (by simp [afterInsertion])
      · rw [hend]
        exact iff_of_true (fun _ _ => hfree) (by simp [afterInsertion])
  rw [hgenerated]
  exact ⟨fun h i call status hcall hcode => h i call hcall hcode status,
    fun h i call hcall hcode status => h i call status hcall hcode⟩

theorem insertable_iff {as : List CreateAction}
    (hrun : (creates prost).run ⟨pg₀, []⟩ as = some st') :
    (creates prost).Meets (Insertable prost) ⟨pg₀, []⟩ as ↔ SucceedsOrNoFreeCode pg₀ st' := by
  have hgenerated : (creates prost).Meets (Insertable prost) ⟨pg₀, []⟩ as ↔
      Generated (fun stage => stage ≠ .panicked ∧
        ∀ status, stage = .answered (.error status) → status = noFreeCode) st' := by
    refine meets_iff_generated (by simp) (by simp) (by simp) ?_ hrun
    intro pg request code now fails hroom
    -- the ways an insertion ends, and whether each is allowed
    rcases insertion_cases pg request code now fails with
      ⟨hnot, ⟨panic, hend⟩ | ⟨status, hend, hcode⟩⟩ | ⟨-, hfails, hend⟩ |
        ⟨-, -, htaken, hend⟩ | ⟨haccepted, hfails, hfree, expiration, hend⟩
    · rw [hend]
      exact iff_of_false (fun h => hnot h.1) (by simp [afterInsertion])
    · rw [hend]
      refine iff_of_false (fun h => hnot h.1) fun h => ?_
      rw [h.2 status rfl] at hcode
      cases hcode
    · rw [hend]
      have hfailed : fails = true := hfails.resolve_right (not_not.mpr hroom)
      exact iff_of_false (fun h => by simp [hfailed] at h) (by simp [afterInsertion, noFreeCode])
    · rw [hend]
      exact iff_of_false (fun h => by simp [h.2.2] at htaken)
        (by simp [afterInsertion, noFreeCode])
    · rw [hend]
      exact iff_of_true ⟨haccepted, hfails, hfree⟩ (by simp [afterInsertion])
  rw [hgenerated]
  constructor
  · intro h i call hcall hcode
    obtain ⟨hpanicked, herror⟩ := h i call hcall hcode
    unfold Outcome
    split
    · trivial
    · trivial
    · next response hstage => exact (createInv_run hrun).ownLink hcall hstage
    · next status hstage => exact herror status hstage
    · next hstage => exact hpanicked hstage
  · intro h i call hcall hcode
    have houtcome := h i call hcall hcode
    unfold Outcome at houtcome
    refine ⟨fun hstage => ?_, fun status hstage => ?_⟩
    · rw [hstage] at houtcome
      exact houtcome
    · rw [hstage] at houtcome
      exact houtcome

/-- **A generated code never conflicts exactly while nobody takes it.** In a run of any requests a
request without a short code never fails with `AlreadyExists` iff every generated code that can be
inserted is still free by then. It has a link of its own, or no free code was found, iff every
generated code can be inserted and is still free. -/
theorem generated_never_conflicts_iff {as : List CreateAction}
    (hrun : (creates prost).run ⟨pg₀, []⟩ as = some st') :
    ((creates prost).Meets (StillFree prost) ⟨pg₀, []⟩ as ↔ NeverAlreadyExists st') ∧
      ((creates prost).Meets (Insertable prost) ⟨pg₀, []⟩ as ↔ SucceedsOrNoFreeCode pg₀ st') :=
  ⟨stillFree_iff hrun, insertable_iff hrun⟩

end Runs

def toExample (shortCode : Option String) : CreateLinkRequest :=
  ⟨shortCode, "https://example.org", none⟩

def abcdef : RandomString := ⟨"abcdef", rfl, by decide⟩

def ghijkl : RandomString := ⟨"ghijkl", rfl, by decide⟩

/-- The request without a short code asks after the other one has inserted, and draws again. -/
def secondDraw : List CreateAction :=
  [.begin (toExample (some "abcdef")), .begin (toExample none),
    .createLink 0 DateTime.unixEpoch false, .linkExists 1 abcdef false, .linkExists 1 ghijkl false,
    .createLink 1 DateTime.unixEpoch false]

theorem generated_never_conflicts_iff_secondDraw :
    ∃ st, (creates prostWkt).run ⟨Postgres.empty, []⟩ secondDraw = some st ∧
      st.calls.map CreateCall.stage = [.answered (.ok ⟨"abcdef"⟩), .answered (.ok ⟨"ghijkl"⟩)] ∧
      NeverAlreadyExists st ∧ SucceedsOrNoFreeCode Postgres.empty st := by
  have hmeets : (creates prostWkt).Meets (Insertable prostWkt) ⟨Postgres.empty, []⟩ secondDraw := by
    unfold secondDraw
    refine ((creates prostWkt).meets_cons rfl).mpr ⟨trivial, ?_⟩
    refine ((creates prostWkt).meets_cons rfl).mpr ⟨trivial, ?_⟩
    refine ((creates prostWkt).meets_cons rfl).mpr ⟨?_, ?_⟩
    · rintro request shortCode hcall hcode
      cases hcall
      cases hcode
    refine ((creates prostWkt).meets_cons rfl).mpr ⟨trivial, ?_⟩
    refine ((creates prostWkt).meets_cons rfl).mpr ⟨trivial, ?_⟩
    refine ((creates prostWkt).meets_cons rfl).mpr ⟨?_, trivial⟩
    rintro request shortCode hcall -
    cases hcall
    exact ⟨⟨none, rfl, rfl⟩, rfl, rfl⟩
  have hiff := fun st hrun =>
    @generated_never_conflicts_iff prostWkt Postgres.empty st secondDraw hrun
  refine ⟨_, rfl, rfl, (hiff _ rfl).1.mp ?_, (hiff _ rfl).2.mp hmeets⟩
  exact Machine.Meets.mono _ (fun _ _ => Insertable.stillFree) hmeets

/-- The other request takes the code between the answer that it is free and its insertion. -/
def takenCode : List CreateAction :=
  [.begin (toExample none), .linkExists 0 abcdef false, .begin (toExample (some "abcdef")),
    .createLink 1 DateTime.unixEpoch false, .createLink 0 DateTime.unixEpoch false]

theorem generated_conflicts_takenCode :
    ∃ st, (creates prostWkt).run ⟨Postgres.empty, []⟩ takenCode = some st ∧
      st.calls.map CreateCall.stage = [
        .answered (.error ⟨.alreadyExists, "Short code already exists"⟩),
        .answered (.ok ⟨"abcdef"⟩)] ∧
      ¬ NeverAlreadyExists st ∧ ¬ SucceedsOrNoFreeCode Postgres.empty st := by
  refine ⟨_, rfl, rfl, fun h => ?_, fun h => ?_⟩
  · exact h 0 _ _ rfl rfl rfl rfl
  · have houtcome := h 0 _ rfl rfl
    cases houtcome

end CreateRuns

end Kurl
