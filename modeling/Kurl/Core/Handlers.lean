import Kurl.Core.CreateLink
import Kurl.Lib.Command

/-!
# Kurl — the handlers of the core service (`core/src/grpc.rs`)

`create_link`, `get_link` and `delete_link` from their first line to their last, as commands over
the rows of the repository and the ops that were handed to the cache worker. A handler that leaves
early leaves what its commands did until then; `AllOrNothing` says that this is nothing.

The repository is the trait `LinkRepository`: `RepositoryRules` is what implementations differ in,
and any of its calls may fail instead (`HandlerEnv.faults`). Each step of a handler has one lemma on
how it ends (`ensures_call`, `ensures_generateFrom`, `ensures_sendSet`), and the handlers are put
together by `Ensures.bind`. The calls that only read leave everything as it was (`Unchanged`), so
what has to be looked at is the one call that writes and what comes after it.

Over Postgres, without failing calls, the handler is the `createLink` of `Kurl.Core.CreateLink`
(`createLink_refines`): `Shows` relates the tables to the rows of the trait, and each call of the
repository keeps it (`Shows.getLink`, `Shows.createLink`, `Shows.deleteLink`).
-/

namespace Kurl

open Lib

/-! ## The repository -/

/-- The rows of `links`, as `core::db` shows them. -/
abbrev LinkRows := Table String Postgres.Link

/-- What implementations of `LinkRepository` differ in: the codes they refuse to insert, and what
they keep of an expiration. -/
structure RepositoryRules where
  check : String → Option DbError
  stored : DateTime → DateTime

/-- Postgres refuses NUL, checks the length of a code and keeps microseconds. -/
def Postgres.rules : RepositoryRules where
  check shortCode :=
    if Postgres.hasNul shortCode then some .other
    else if 0 < shortCode.length ∧ shortCode.length ≤ 40 then none else some .other
  stored := DateTime.toTimestamptz

namespace LinkRows

def getLink (shortCode : String) (links : LinkRows) :
    Except DbError (Postgres.Link × LinkRows) :=
  match links.get shortCode with
  | some link => .ok (link, links)
  | none => .error .notFound

def linkExists (shortCode : String) (links : LinkRows) : Except DbError (Bool × LinkRows) :=
  .ok ((links.get shortCode).isSome, links)

def createLink (rules : RepositoryRules) (shortCode target : String)
    (expiration : Option DateTime) (links : LinkRows) : Except DbError (Unit × LinkRows) :=
  match rules.check shortCode with
  | some error => .error error
  | none =>
    if (links.get shortCode).isSome then .error .conflict
    else .ok ((), links.set shortCode ⟨target, expiration.map rules.stored⟩)

def deleteLink (shortCode : String) (links : LinkRows) : Except DbError (Unit × LinkRows) :=
  if (links.get shortCode).isSome then .ok ((), links.erase shortCode) else .error .notFound

/-! What an operation that succeeds does. -/

theorem getLink_ok {shortCode : String} {links links' : LinkRows} {link : Postgres.Link}
    (h : getLink shortCode links = .ok (link, links')) :
    links.get shortCode = some link ∧ links' = links := by
  unfold getLink at h
  split at h
  · next row hrow =>
    obtain ⟨rfl, rfl⟩ := Prod.mk.inj (Except.ok.inj h)
    exact ⟨hrow, rfl⟩
  · cases h

theorem createLink_ok {rules : RepositoryRules} {shortCode target : String}
    {expiration : Option DateTime} {links links' : LinkRows} {u : Unit}
    (h : createLink rules shortCode target expiration links = .ok (u, links')) :
    links.get shortCode = none ∧
      links' = links.set shortCode ⟨target, expiration.map rules.stored⟩ := by
  unfold createLink at h
  split at h
  · cases h
  · by_cases hrow : (links.get shortCode).isSome = true
    · rw [if_pos hrow] at h
      cases h
    · rw [if_neg hrow] at h
      exact ⟨by simpa using hrow, (Prod.mk.inj (Except.ok.inj h)).2.symm⟩

theorem deleteLink_ok {shortCode : String} {links links' : LinkRows} {u : Unit}
    (h : deleteLink shortCode links = .ok (u, links')) :
    links.get shortCode ≠ none ∧ links' = links.erase shortCode := by
  unfold deleteLink at h
  by_cases hrow : (links.get shortCode).isSome = true
  · rw [if_pos hrow] at h
    exact ⟨Option.isSome_iff_ne_none.mp hrow, (Prod.mk.inj (Except.ok.inj h)).2.symm⟩
  · rw [if_neg hrow] at h
    cases h

end LinkRows

/-! ## Commands -/

/-- The rows, the repository calls made so far, and the ops handed to `redis_tx.send`. -/
structure HandlerState where
  links : LinkRows
  calls : ℕ
  sent : List CacheOp

/-- How a handler ends without a response. -/
inductive HandlerError where
  | status (status : Status)
  | panic (panic : Panic)

abbrev Handler := Command HandlerError HandlerState

/-- What a handler meets: the repository and which of its calls fail, the random strings, the
configuration, and the clock at its check and in `calculate_cache_ttl`. -/
structure HandlerEnv where
  rules : RepositoryRules
  faults : ℕ → Option DbError
  randomString : ℕ → String
  prost : ProstWkt
  cacheTtl : ℕ
  now : DateTime
  ttlNow : DateTime

namespace Handler

variable {α : Type}

/-- A call of the repository. One that returns an error changes nothing. -/
def ask (env : HandlerEnv) (op : LinkRows → Except DbError (α × LinkRows)) :
    Handler (Except DbError α) :=
  ExceptT.mk fun st =>
    match env.faults st.calls with
    | some error => (.ok (.error error), { st with calls := st.calls + 1 })
    | none =>
      match op st.links with
      | .error error => (.ok (.error error), { st with calls := st.calls + 1 })
      | .ok (a, links) => (.ok (.ok a), { st with links := links, calls := st.calls + 1 })

/-- `.map_err(..)?` -/
def mapErr (status : DbError → Status) : Except DbError α → Handler α
  | .ok a => pure a
  | .error error => throw (.status (status error))

def call (env : HandlerEnv) (op : LinkRows → Except DbError (α × LinkRows))
    (status : DbError → Status) : Handler α := do
  mapErr status (← ask env op)

/-- `redis_tx.send` -/
def send (op : CacheOp) : Handler Unit :=
  modify fun st => { st with sent := st.sent ++ [op] }

/-- `if let Some(ttl) = calculate_cache_ttl(..)`, and then the `Set`. -/
def sendSet (env : HandlerEnv) (shortCode target : String) (expiration stored : Option DateTime) :
    Handler Unit :=
  match calculateCacheTtl env.cacheTtl env.ttlNow.nanos expiration with
  | some ttl => send (.set shortCode target ttl ⟨env.ttlNow.nanos, stored⟩)
  | none => pure ()

/-- The attempts of `generate_short_code` that are left, from this one. -/
def generateFrom (env : HandlerEnv) : ℕ → ℕ → Handler (Option String)
  | 0, _ => pure none
  | n + 1, attempt => do
    match ← ask env (LinkRows.linkExists (env.randomString attempt)) with
    | .ok false => pure (some (env.randomString attempt))
    | _ => generateFrom env n (attempt + 1)

def generateShortCode (env : HandlerEnv) : Handler (Option String) := generateFrom env retries 0

/-- `ok_or_else(..)?` -/
def okOr (status : Status) : Option α → Handler α
  | some a => pure a
  | none => throw (.status status)

/-- The chosen code, or a generated one. -/
def shortCodeOf (env : HandlerEnv) (request : CreateLinkRequest) : Handler String :=
  match request.shortCode with
  | some code => pure code
  | none => do
    okOr ⟨.internal, "Failed to generate a unique short code"⟩ (← generateShortCode env)

/-- `expiration.map(timestamp_to_datetime).transpose()?` -/
def decoded (env : HandlerEnv) (expiration : Option Timestamp) : Handler (Option DateTime) :=
  match decodeExpiration env.prost expiration with
  | .error panic => throw (.panic panic)
  | .ok (.error status) => throw (.status status)
  | .ok (.ok expiration) => pure expiration

/-- `is_some_and(|expiration| expiration <= Utc::now())`, and then the error. -/
def refuseExpired (env : HandlerEnv) (expiration : Option DateTime) (status : Status) :
    Handler Unit :=
  if expiration.any fun expiration => expiration ≤ env.now then throw (.status status)
  else pure ()

/-! ## The handlers -/

def createLink (env : HandlerEnv) (request : CreateLinkRequest) : Handler CreateLinkResponse := do
  let shortCode ← shortCodeOf env request
  let expiration ← decoded env request.expiration
  refuseExpired env expiration ⟨.invalidArgument, "Expiration must be in the future"⟩
  call env (LinkRows.createLink env.rules shortCode request.target expiration) insertionStatus
  sendSet env shortCode request.target expiration (expiration.map env.rules.stored)
  pure ⟨shortCode⟩

/-- The `map_err` of `get_link` and `delete_link`, which differ in the message. -/
def lookupStatus (message : String) : DbError → Status
  | .notFound => ⟨.notFound, "Short code not found"⟩
  | _ => ⟨.internal, message⟩

def getLink (env : HandlerEnv) (shortCode : String) : Handler GetLinkResponse := do
  let link ← call env (LinkRows.getLink shortCode) (lookupStatus "Failed to get link")
  refuseExpired env link.expiration ⟨.failedPrecondition, "Link has expired"⟩
  sendSet env shortCode link.target link.expiration link.expiration
  pure ⟨link.target⟩

def deleteLink (env : HandlerEnv) (shortCode : String) : Handler Unit := do
  call env (LinkRows.deleteLink shortCode) (lookupStatus "Failed to delete link")
  send (.del shortCode)

/-! ## How the steps end -/

/-- Neither the rows nor the ops are touched. -/
def Unchanged (st st' : HandlerState) : Prop := st'.links = st.links ∧ st'.sent = st.sent

theorem Unchanged.refl (st : HandlerState) : Unchanged st st := ⟨rfl, rfl⟩

theorem Unchanged.trans {st st₁ st₂ : HandlerState} (h : Unchanged st st₁)
    (h' : Unchanged st₁ st₂) : Unchanged st st₂ := ⟨h'.1.trans h.1, h'.2.trans h.2⟩

/-- A step that returned did what `Ok` says; one that ended the handler did nothing. -/
def AllOrNothing (st : HandlerState) (Ok : α → HandlerState → Prop) :
    Except HandlerError α → HandlerState → Prop
  | .ok a, st' => Ok a st'
  | .error _, st' => Unchanged st st'

variable {env : HandlerEnv} {st : HandlerState}

theorem ensures_ask (op : LinkRows → Except DbError (α × LinkRows)) :
    (ask env op).Ensures st (AllOrNothing st fun result st' => st'.sent = st.sent ∧
      match result with
      | .ok a => op st.links = .ok (a, st'.links)
      | .error _ => st'.links = st.links) := by
  unfold Command.Ensures Command.exec ask
  simp only [ExceptT.run, ExceptT.mk, StateT.run]
  cases env.faults st.calls with
  | some error => exact ⟨rfl, rfl⟩
  | none =>
    cases hop : op st.links with
    | error error => exact ⟨rfl, rfl⟩
    | ok result => exact ⟨rfl, rfl⟩

/-- After steps that changed nothing, a step that ends the handler has changed nothing. -/
theorem bind_allOrNothing {β : Type} {x : Handler α} {f : α → Handler β} {st₁ : HandlerState}
    {P : α → HandlerState → Prop} {Ok : β → HandlerState → Prop} (hsame : Unchanged st st₁)
    (hx : x.Ensures st₁ (AllOrNothing st₁ P))
    (hrest : ∀ a st₂, P a st₂ → (f a).Ensures st₂ (AllOrNothing st Ok)) :
    (x >>= f).Ensures st₁ (AllOrNothing st Ok) :=
  hx.bind (fun _ _ h => hsame.trans h) hrest

/-- A call whose error ends the handler. -/
theorem ensures_call (op : LinkRows → Except DbError (α × LinkRows)) (status : DbError → Status) :
    (call env op status).Ensures st (AllOrNothing st fun a st' =>
      st'.sent = st.sent ∧ op st.links = .ok (a, st'.links)) := by
  refine bind_allOrNothing (Unchanged.refl st) (ensures_ask op) fun result st' h => ?_
  obtain ⟨hsent, hlinks⟩ := h
  cases result with
  | ok a => exact ⟨hsent, hlinks⟩
  | error error => exact ⟨hlinks, hsent⟩

/-- However many attempts it takes, a code is generated without a change. -/
theorem ensures_generateFrom {st₁ : HandlerState} (hsame : Unchanged st st₁) (n attempt : ℕ) :
    (generateFrom env n attempt).Ensures st₁ (AllOrNothing st fun _ st' => Unchanged st st') := by
  induction n generalizing attempt st₁ with
  | zero => exact hsame
  | succ n ih =>
    refine bind_allOrNothing hsame (ensures_ask _) fun result st₂ h => ?_
    obtain ⟨hsent, hlinks⟩ := h
    cases result with
    | error error => exact ih (hsame.trans ⟨hlinks, hsent⟩) (attempt + 1)
    | ok taken =>
      have hread : st₂.links = st₁.links := (Prod.mk.inj (Except.ok.inj hlinks)).2.symm
      have hsame₂ := hsame.trans ⟨hread, hsent⟩
      cases taken with
      | true => exact ih hsame₂ (attempt + 1)
      | false => exact hsame₂

theorem ensures_shortCodeOf (request : CreateLinkRequest) :
    (shortCodeOf env request).Ensures st (AllOrNothing st fun code st' =>
      Unchanged st st' ∧ ∀ chosen ∈ request.shortCode, code = chosen) := by
  unfold shortCodeOf
  cases request.shortCode with
  | some code => exact ⟨Unchanged.refl st, fun chosen h => Option.some.inj h⟩
  | none =>
    have hsame := Unchanged.refl st
    refine (ensures_generateFrom hsame _ _).bind (fun _ _ h => h) fun code st' h => ?_
    cases code with
    | some code => exact ⟨h, fun chosen hchosen => by cases hchosen⟩
    | none => exact h

theorem ensures_decoded (timestamp : Option Timestamp) :
    (decoded env timestamp).Ensures st (AllOrNothing st fun expiration st' =>
      Unchanged st st' ∧ decodeExpiration env.prost timestamp = .ok (.ok expiration)) := by
  unfold decoded
  cases decodeExpiration env.prost timestamp with
  | error panic => exact Unchanged.refl st
  | ok result =>
    cases result with
    | error status => exact Unchanged.refl st
    | ok expiration => exact ⟨Unchanged.refl st, rfl⟩

theorem ensures_refuseExpired (expiration : Option DateTime) (status : Status) :
    (refuseExpired env expiration status).Ensures st (AllOrNothing st fun _ st' =>
      Unchanged st st' ∧ ∀ t ∈ expiration, env.now < t) := by
  unfold refuseExpired
  by_cases hexpired : (expiration.any fun expiration => decide (expiration ≤ env.now)) = true
  · rw [if_pos hexpired]
    exact Unchanged.refl st
  · rw [if_neg hexpired]
    refine ⟨Unchanged.refl st, fun t ht => ?_⟩
    obtain rfl := Option.mem_def.mp ht
    simpa using hexpired

/-- At most one op was handed over: a `Set` of this code and target, with a TTL of at least a second
and at most what is configured and what the link has left. -/
def SentAtMostOneSet (env : HandlerEnv) (shortCode target : String) (expiration : Option DateTime)
    (st st' : HandlerState) : Prop :=
  st'.sent = st.sent ∨ ∃ ttl origin, st'.sent = st.sent ++ [.set shortCode target ttl origin] ∧
    nanosPerSec ≤ ttl ∧ ttl ≤ env.cacheTtl ∧ ∀ t ∈ expiration, env.ttlNow.nanos + ttl ≤ t.nanos

/-- It hands over the op of the service, and does not fail. -/
theorem exec_sendSet (env : HandlerEnv) (st : HandlerState) (shortCode target : String)
    (expiration stored : Option DateTime) :
    (sendSet env shortCode target expiration stored).exec st = (.ok (), { st with
      sent := st.sent ++
        setOp env.cacheTtl env.ttlNow.nanos shortCode target expiration stored }) := by
  unfold sendSet setOp
  cases calculateCacheTtl env.cacheTtl env.ttlNow.nanos expiration with
  | none =>
    rw [List.append_nil]
    rfl
  | some ttl => rfl

theorem ensures_sendSet (shortCode target : String) (expiration stored : Option DateTime) :
    (sendSet env shortCode target expiration stored).Ensures st fun result st' =>
      result = .ok () ∧ st'.links = st.links ∧
        SentAtMostOneSet env shortCode target expiration st st' := by
  unfold Command.Ensures
  rw [exec_sendSet]
  refine ⟨rfl, rfl, ?_⟩
  unfold SentAtMostOneSet setOp
  cases httl : calculateCacheTtl env.cacheTtl env.ttlNow.nanos expiration with
  | none => exact Or.inl (List.append_nil _)
  | some ttl =>
    obtain ⟨hpos, hle, hremaining⟩ := calculateCacheTtl_le httl
    have hsecond : nanosPerSec ≤ ttl := by
      unfold asSecs nanosPerSec at *
      omega
    exact Or.inr ⟨ttl, _, rfl, hsecond, hle, hremaining⟩

/-- What is sent at the end counts from the state before the handler. -/
theorem SentAtMostOneSet.of_sent {shortCode target : String} {expiration : Option DateTime}
    {st₁ st' : HandlerState} (hsent : st₁.sent = st.sent)
    (h : SentAtMostOneSet env shortCode target expiration st₁ st') :
    SentAtMostOneSet env shortCode target expiration st st' := by
  unfold SentAtMostOneSet at h ⊢
  rw [← hsent]
  exact h

/-! ## All or nothing -/

/-- What a `create_link` that returned did: one row for a code without one, and a `Set`. -/
structure Created (env : HandlerEnv) (request : CreateLinkRequest) (st : HandlerState)
    (response : CreateLinkResponse) (expiration : Option DateTime) (st' : HandlerState) :
    Prop where
  chosen : ∀ code ∈ request.shortCode, response.shortCode = code
  decoded : decodeExpiration env.prost request.expiration = .ok (.ok expiration)
  free : st.links.get response.shortCode = none
  links : st'.links =
    st.links.set response.shortCode ⟨request.target, expiration.map env.rules.stored⟩
  later : ∀ t ∈ expiration, env.now < t
  sent : SentAtMostOneSet env response.shortCode request.target expiration st st'

/-- What a `get_link` that returned did: it read the row, and sent a `Set`. -/
structure Found (env : HandlerEnv) (shortCode : String) (st : HandlerState)
    (response : GetLinkResponse) (expiration : Option DateTime) (st' : HandlerState) : Prop where
  row : st.links.get shortCode = some ⟨response.target, expiration⟩
  links : st'.links = st.links
  later : ∀ t ∈ expiration, env.now < t
  sent : SentAtMostOneSet env shortCode response.target expiration st st'

/-- What a `delete_link` that returned did: it took the row, and sent a `Del`. -/
structure Deleted (shortCode : String) (st st' : HandlerState) : Prop where
  row : st.links.get shortCode ≠ none
  links : st'.links = st.links.erase shortCode
  sent : st'.sent = st.sent ++ [.del shortCode]

theorem createLink_allOrNothing (env : HandlerEnv) (st : HandlerState)
    (request : CreateLinkRequest) : (createLink env request).Ensures st
      (AllOrNothing st fun response st' =>
        ∃ expiration, Created env request st response expiration st') := by
  unfold createLink
  refine bind_allOrNothing (Unchanged.refl st) (ensures_shortCodeOf request) fun code st₁ h₁ => ?_
  obtain ⟨hsame₁, hchosen⟩ := h₁
  refine bind_allOrNothing hsame₁ (ensures_decoded _) fun expiration st₂ h₂ => ?_
  obtain ⟨hsame₂, hdecoded⟩ := h₂
  have hbefore₂ := hsame₁.trans hsame₂
  refine bind_allOrNothing hbefore₂ (ensures_refuseExpired _ _) fun _ st₃ h₃ => ?_
  obtain ⟨hsame₃, hlater⟩ := h₃
  have hbefore₃ := hbefore₂.trans hsame₃
  refine bind_allOrNothing hbefore₃ (ensures_call _ _) fun _ st₄ h₄ => ?_
  -- the insertion is the only step that writes, and no step after it ends the handler
  obtain ⟨hsent, hinsert⟩ := h₄
  rw [hbefore₃.1] at hinsert
  obtain ⟨hfree, hlinks⟩ := LinkRows.createLink_ok hinsert
  refine (ensures_sendSet _ _ _ _).bind (fun _ _ h => by cases h.1) fun _ st₅ h₅ => ?_
  obtain ⟨-, hlinks₅, hset⟩ := h₅
  exact ⟨expiration,
    { chosen := hchosen
      decoded := hdecoded
      free := hfree
      links := hlinks₅.trans hlinks
      later := hlater
      sent := hset.of_sent (hsent.trans hbefore₃.2) }⟩

theorem getLink_allOrNothing (env : HandlerEnv) (st : HandlerState) (shortCode : String) :
    (getLink env shortCode).Ensures st (AllOrNothing st fun response st' =>
      ∃ expiration, Found env shortCode st response expiration st') := by
  unfold getLink
  refine bind_allOrNothing (Unchanged.refl st) (ensures_call _ _) fun link st₁ h₁ => ?_
  obtain ⟨hsent, hread⟩ := h₁
  obtain ⟨hrow, hlinks⟩ := LinkRows.getLink_ok hread
  have hsame₁ : Unchanged st st₁ := ⟨hlinks, hsent⟩
  refine bind_allOrNothing hsame₁ (ensures_refuseExpired _ _) fun _ st₂ h₂ => ?_
  obtain ⟨hsame₂, hlater⟩ := h₂
  have hbefore₂ := hsame₁.trans hsame₂
  refine (ensures_sendSet _ _ _ _).bind (fun _ _ h => by cases h.1) fun _ st₃ h₃ => ?_
  obtain ⟨-, hlinks₃, hset⟩ := h₃
  exact ⟨link.expiration,
    { row := hrow
      links := hlinks₃.trans hbefore₂.1
      later := hlater
      sent := hset.of_sent hbefore₂.2 }⟩

theorem deleteLink_allOrNothing (env : HandlerEnv) (st : HandlerState) (shortCode : String) :
    (deleteLink env shortCode).Ensures st (AllOrNothing st fun _ st' =>
      Deleted shortCode st st') := by
  unfold deleteLink
  refine bind_allOrNothing (Unchanged.refl st) (ensures_call _ _) fun _ st₁ h₁ => ?_
  obtain ⟨hsent, hdelete⟩ := h₁
  obtain ⟨hrow, hlinks⟩ := LinkRows.deleteLink_ok hdelete
  have hsend : st₁.sent ++ [CacheOp.del shortCode] = st.sent ++ [.del shortCode] := by rw [hsent]
  exact ⟨hrow, hlinks, hsend⟩

/-- **All or nothing.** For every request, repository, pattern of failing calls and clock, a handler
that does not return changed no row and sent no op, and one that does did what its response says:
one row and at most one `Set` for it, or no row and one `Del`. -/
theorem handlers_allOrNothing (env : HandlerEnv) (st : HandlerState) :
    (∀ request, (createLink env request).Ensures st (AllOrNothing st fun response st' =>
      ∃ expiration, Created env request st response expiration st')) ∧
    (∀ shortCode, (getLink env shortCode).Ensures st (AllOrNothing st fun response st' =>
      ∃ expiration, Found env shortCode st response expiration st')) ∧
    ∀ shortCode, (deleteLink env shortCode).Ensures st (AllOrNothing st fun _ st' =>
      Deleted shortCode st st') :=
  ⟨createLink_allOrNothing env st, getLink_allOrNothing env st, deleteLink_allOrNothing env st⟩

/-! ## Over Postgres

The rows of the repository are what `core::db` shows of the tables, and its operations are the
statements. So without failing calls the handler computes what `LinkService.createLink` does. -/

/-- The repository has the rows of these tables. -/
def Shows (pg : Postgres) (links : LinkRows) : Prop :=
  ∀ code, links.get code = (pg.links.get code).map fun row => ⟨row.target, row.expiration⟩

section Postgres

variable {pg : Postgres} {links : LinkRows}

theorem Shows.isSome (h : Shows pg links) (code : String) :
    (links.get code).isSome = pg.linkExists code := by
  rw [h code, Option.isSome_map]
  rfl

theorem Shows.getLink (h : Shows pg links) (code : String) :
    LinkRows.getLink code links = (pg.getLink code).map fun link => (link, links) := by
  unfold LinkRows.getLink Postgres.getLink
  rw [h code]
  cases pg.links.get code <;> rfl

theorem Shows.createLink (h : Shows pg links) (code target : String)
    (expiration : Option DateTime) :
    match pg.createLink code target expiration with
    | .ok pg' => ∃ links', LinkRows.createLink Postgres.rules code target expiration links =
        .ok ((), links') ∧ Shows pg' links'
    | .error error =>
      LinkRows.createLink Postgres.rules code target expiration links = .error error := by
  unfold LinkRows.createLink Postgres.createLink Postgres.rules
  rw [h.isSome code]
  by_cases hnul : Postgres.hasNul code = true
  · simp [hnul]
  by_cases hlength : 0 < code.length ∧ code.length ≤ 40
  · by_cases hexists : pg.linkExists code = true
    · simp [hnul, hlength, hexists]
    · simp only [hnul, hlength, hexists, not_true_eq_false, and_self, if_true, if_false,
        Bool.false_eq_true]
      refine ⟨_, rfl, fun code' => ?_⟩
      rw [Table.get_set, Table.get_set, h code']
      by_cases hcode : code' = code
      · rw [if_pos hcode, if_pos hcode]
        rfl
      · rw [if_neg hcode, if_neg hcode]
  · simp [hnul, hlength]

theorem Shows.deleteLink (h : Shows pg links) (code : String) :
    match pg.deleteLink code with
    | .ok pg' => ∃ links', LinkRows.deleteLink code links = .ok ((), links') ∧ Shows pg' links'
    | .error error => LinkRows.deleteLink code links = .error error := by
  unfold LinkRows.deleteLink Postgres.deleteLink
  rw [h.isSome code]
  by_cases hexists : pg.linkExists code = true
  · simp only [hexists, if_true]
    refine ⟨_, rfl, fun code' => ?_⟩
    rw [Table.get_erase, Table.get_erase, h code']
    by_cases hcode : code' = code
    · rw [if_pos hcode, if_pos hcode]
      rfl
    · rw [if_neg hcode, if_neg hcode]
  · simp [hexists]

end Postgres

section NoFaults

theorem exec_ask (hfaults : ∀ i, env.faults i = none)
    {op : LinkRows → Except DbError (α × LinkRows)} {a : α} {links : LinkRows}
    (h : op st.links = .ok (a, links)) :
    (ask env op).exec st = (.ok (.ok a), ⟨links, st.calls + 1, st.sent⟩) := by
  unfold Command.exec ask
  simp only [ExceptT.run, ExceptT.mk, StateT.run, hfaults, h]

theorem exec_call (hfaults : ∀ i, env.faults i = none)
    {op : LinkRows → Except DbError (α × LinkRows)} {status : DbError → Status} {a : α}
    {links : LinkRows} (h : op st.links = .ok (a, links)) :
    (call env op status).exec st = (.ok a, ⟨links, st.calls + 1, st.sent⟩) :=
  Command.exec_bind_ok (exec_ask hfaults h)

theorem exec_call_error (hfaults : ∀ i, env.faults i = none)
    {op : LinkRows → Except DbError (α × LinkRows)} {status : DbError → Status} {error : DbError}
    (h : op st.links = .error error) : (call env op status).exec st =
      (.error (.status (status error)), ⟨st.links, st.calls + 1, st.sent⟩) := by
  have hask : (ask env op).exec st =
      (.ok (.error error), ⟨st.links, st.calls + 1, st.sent⟩) := by
    unfold Command.exec ask
    simp only [ExceptT.run, ExceptT.mk, StateT.run, hfaults, h]
  exact Command.exec_bind_ok hask

/-- The first of the strings without a row is the code. -/
theorem exec_generateFrom (hfaults : ∀ i, env.faults i = none) (st : HandlerState)
    (n attempt : ℕ) :
    ∃ calls, (generateFrom env n attempt).exec st =
      (.ok (((List.range' attempt n).map env.randomString).find? fun code =>
        !(st.links.get code).isSome), ⟨st.links, calls, st.sent⟩) := by
  induction n generalizing attempt st with
  | zero => exact ⟨st.calls, rfl⟩
  | succ n ih =>
    have hask : (ask env (LinkRows.linkExists (env.randomString attempt))).exec st =
        (.ok (.ok (st.links.get (env.randomString attempt)).isSome),
          ⟨st.links, st.calls + 1, st.sent⟩) := exec_ask hfaults rfl
    rw [generateFrom, Command.exec_bind_ok hask, List.range'_succ, List.map_cons,
      List.find?_cons]
    cases (st.links.get (env.randomString attempt)).isSome with
    | false => exact ⟨st.calls + 1, rfl⟩
    | true => exact ih _ (attempt + 1)

/-- The code of `LinkService.createLink`. -/
theorem exec_shortCodeOf (hfaults : ∀ i, env.faults i = none) {pg : Postgres}
    (hshows : Shows pg st.links) (request : CreateLinkRequest) :
    ∃ calls, (shortCodeOf env request).exec st =
      (match request.shortCode.or (Kurl.generateShortCode pg.repository
          ((List.range retries).map env.randomString)) with
        | some code => .ok code
        | none => .error (.status ⟨.internal, "Failed to generate a unique short code"⟩),
      ⟨st.links, calls, st.sent⟩) := by
  unfold shortCodeOf
  cases request.shortCode with
  | some code => exact ⟨st.calls, rfl⟩
  | none =>
    obtain ⟨calls, hgenerate⟩ := exec_generateFrom hfaults st retries 0
    have hfind : Kurl.generateShortCode pg.repository ((List.range retries).map env.randomString) =
        ((List.range' 0 retries).map env.randomString).find? fun code =>
          !(st.links.get code).isSome := by
      unfold Kurl.generateShortCode
      rw [List.take_of_length_le (by simp), List.range_eq_range']
      congr 1
      funext code
      rw [hshows.isSome code]
      simp only [Postgres.repository]
      cases pg.linkExists code <;> rfl
    refine ⟨calls, ?_⟩
    rw [Option.none_or, hfind]
    refine (Command.exec_bind_ok hgenerate).trans ?_
    cases ((List.range' 0 retries).map env.randomString).find? fun code =>
      !(st.links.get code).isSome <;> rfl

theorem exec_decoded (env : HandlerEnv) (st : HandlerState) (timestamp : Option Timestamp) :
    (decoded env timestamp).exec st =
    (match decodeExpiration env.prost timestamp with
      | .error panic => .error (.panic panic)
      | .ok (.error status) => .error (.status status)
      | .ok (.ok expiration) => .ok expiration, st) := by
  unfold decoded
  cases decodeExpiration env.prost timestamp with
  | error panic => rfl
  | ok result => cases result <;> rfl

theorem exec_refuseExpired (env : HandlerEnv) (st : HandlerState) (expiration : Option DateTime)
    (status : Status) :
    (refuseExpired env expiration status).exec st =
      (if expiration.any fun expiration => expiration ≤ env.now then .error (.status status)
        else .ok (), st) := by
  unfold refuseExpired
  split <;> rfl

/-- **Over Postgres, without failing calls, the handler is `LinkService.createLink`**: the same
answer and the same tables. What it sends then is the `Set` of the service. -/
theorem createLink_refines (hrules : env.rules = Postgres.rules)
    (hfaults : ∀ i, env.faults i = none) {pg : Postgres} (hshows : Shows pg st.links)
    (request : CreateLinkRequest) :
    match LinkService.createLink env.prost pg.repository ((List.range retries).map env.randomString)
      env.now request with
    | .error panic => ((createLink env request).exec st).1 = .error (.panic panic)
    | .ok (.error status) => ((createLink env request).exec st).1 = .error (.status status)
    | .ok (.ok (response, pg')) => ∃ expiration st',
      decodeExpiration env.prost request.expiration = .ok (.ok expiration) ∧
        (createLink env request).exec st = (.ok response, st') ∧ Shows pg' st'.links ∧
        st'.sent = st.sent ++ setOp env.cacheTtl env.ttlNow.nanos response.shortCode
          request.target expiration (expiration.map DateTime.toTimestamptz) := by
  -- the handler and the service agree stage by stage: the code, the expiration, the check, the
  -- insertion
  obtain ⟨calls, hcode⟩ := exec_shortCodeOf hfaults hshows request
  unfold LinkService.createLink createLink
  cases hshort : request.shortCode.or (Kurl.generateShortCode pg.repository
      ((List.range retries).map env.randomString)) with
  | none =>
    rw [hshort] at hcode
    simp only [Command.exec_bind_error hcode]
  | some code =>
    rw [hshort] at hcode
    have hdecoded := exec_decoded env ⟨st.links, calls, st.sent⟩ request.expiration
    simp only [Command.exec_bind_ok hcode]
    cases hdecode : decodeExpiration env.prost request.expiration with
    | error panic =>
      rw [hdecode] at hdecoded
      simp only [Command.exec_bind_error hdecoded]
    | ok result =>
      rw [hdecode] at hdecoded
      cases result with
      | error status => simp only [Command.exec_bind_error hdecoded]
      | ok expiration =>
        have hcheck := exec_refuseExpired env ⟨st.links, calls, st.sent⟩ expiration
          ⟨.invalidArgument, "Expiration must be in the future"⟩
        simp only [Command.exec_bind_ok hdecoded]
        by_cases hexpired : (expiration.any fun expiration => decide (expiration ≤ env.now)) = true
        · rw [if_pos hexpired] at hcheck
          simp only [if_pos hexpired, Command.exec_bind_error hcheck]
        · rw [if_neg hexpired] at hcheck
          -- the tables show the same rows, so both insertions end alike
          have hinsert := hshows.createLink code request.target expiration
          rw [← hrules] at hinsert
          simp only [if_neg hexpired, Command.exec_bind_ok hcheck, Postgres.repository]
          cases hpg : pg.createLink code request.target expiration with
          | error error =>
            simp only [hpg] at hinsert
            have hcall : (call env (LinkRows.createLink env.rules code request.target expiration)
              insertionStatus).exec ⟨st.links, calls, st.sent⟩ = _ := exec_call_error hfaults hinsert
            simp only [Command.exec_bind_error hcall]
            rfl
          | ok pg' =>
            simp only [hpg] at hinsert
            obtain ⟨links', hlinks', hshows'⟩ := hinsert
            have hcall : (call env (LinkRows.createLink env.rules code request.target expiration)
              insertionStatus).exec ⟨st.links, calls, st.sent⟩ = _ := exec_call hfaults hlinks'
            simp only [Command.exec_bind_ok hcall]
            refine ⟨expiration, _, rfl, (Command.exec_bind_ok (exec_sendSet _ _ _ _ _ _)).trans rfl,
              hshows', ?_⟩
            rw [hrules]
            rfl

end NoFaults

end Handler

end Kurl
