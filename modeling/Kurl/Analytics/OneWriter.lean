import Kurl.Analytics.Instances

/-!
# Kurl — the instances are one writer (`analytics/src/event_consumer.rs`)

`Fleet.project` is the writer that the instances together are: in the phase of the instance that has
the lock, and stopped where that one is not in `run_inner`. While no session ends whose instance
writes, every step of the instances is a run of `Kurl.writer` (`Fleet.step_refines`): `start` when
an instance takes the lock, `stop` when `run_inner` returns or the process is gone, and the calls of
`run_inner` in between. So every run of the instances is a run of the writer (`fleet_refines`), and
what was proved of one writer holds of them.

The run of the writer is built in blocks, one for each step of the instances
(`FleetAction.Matches`): the steps of the gateway and of the core service are in it in the order in
which they occurred, and its other steps are those of an instance. A step of the instances that the
writer does not see, such as a failed attempt to take the lock, has an empty block.
-/

namespace Kurl

open Lib

/-! ## The projection -/

namespace Fleet

def phase (st : Fleet) : WriterPhase :=
  match st.lock with
  | .free => .stopped
  | .held s _ => (st.instances[s.owner]?).elim .stopped fun c => c.phaseOn s.conn

def project (st : Fleet) : WriterState := st.stores.at st.phase

end Fleet

section Projection

variable {serde : SerdeJson} {count : Nat} {st st' : Fleet} {a : FleetAction}

theorem EventConsumer.phaseOn_of_not_writesOn {c : EventConsumer} {conn : Nat}
    (h : c.writesOn conn = false) : c.phaseOn conn = .stopped := by
  unfold phaseOn
  split
  · next conn' _ _ heq =>
    have hne : ¬ conn' = conn := by simpa [writesOn, heq] using h
    rw [if_neg hne]
  · rfl

/-- The phase of an instance that has the lock. -/
theorem Fleet.phase_of_heldBy {i conn : Nat} {c : EventConsumer} (hc : st.instances[i]? = some c)
    (hheld : st.lock.HeldBy ⟨i, conn⟩) : st.phase = c.phaseOn conn := by
  unfold phase
  cases hlock : st.lock with
  | free =>
    rw [hlock] at hheld
    exact hheld.elim
  | held holder again =>
    rw [hlock] at hheld
    obtain rfl : holder = ⟨i, conn⟩ := hheld
    simp only [hc, Option.elim_some]

/-- An instance changes, and nothing that concerns the lock. -/
theorem Fleet.phase_set {i : Nat} {c d : EventConsumer} (hc : st.instances[i]? = some c)
    (hsame : ∀ conn, d.phaseOn conn = c.phaseOn conn) (stores : Stores) :
    Fleet.phase ⟨stores, st.lock, st.instances.set i d⟩ = st.phase := by
  unfold phase
  cases st.lock with
  | free => rfl
  | held holder again =>
    by_cases hi : i = holder.owner
    · subst hi
      have hlt := (List.getElem?_eq_some_iff.mp hc).1
      simp only [List.getElem?_set_self hlt, hc, Option.elim_some, hsame]
    · simp only [List.getElem?_set_ne hi]

/-- The instance that changes does not have the lock. -/
theorem Fleet.phase_set_of_not_heldBy {i : Nat} {c : EventConsumer}
    (hother : ∀ s, st.lock.HeldBy s → s.owner ≠ i) (stores : Stores) :
    Fleet.phase ⟨stores, st.lock, st.instances.set i c⟩ = st.phase := by
  unfold phase
  cases hlock : st.lock with
  | free => rfl
  | held holder again =>
    have hne : i ≠ holder.owner := fun heq => hother holder (by rw [hlock]; rfl) heq.symm
    simp only [List.getElem?_set_ne hne]

/-- The instance that has the lock is not in `run_inner`. -/
theorem Fleet.phase_eq_stopped (h : ∀ s, st.lock.HeldBy s →
    ∀ c ∈ st.instances[s.owner]?, c.writesOn s.conn = false) : st.phase = .stopped := by
  unfold phase
  split
  · rfl
  · next s again hlock =>
    cases hc : st.instances[s.owner]? with
    | none => rfl
    | some c =>
      have hheld : st.lock.HeldBy s := by
        rw [hlock]
        rfl
      exact EventConsumer.phaseOn_of_not_writesOn (h s hheld c hc)

theorem Fleet.phase_spawn :
    Fleet.phase { st with instances := st.instances ++ [.new] } = st.phase := by
  unfold phase
  cases st.lock with
  | free => rfl
  | held s again =>
    rcases Nat.lt_or_ge s.owner st.instances.length with hlt | hge
    · simp only [List.getElem?_append_left hlt]
    · -- an instance that is new is not in `run_inner`
      simp only [List.getElem?_append_right hge, List.getElem?_eq_none hge, Option.elim_none]
      cases hnew : [EventConsumer.new][s.owner - st.instances.length]? with
      | none => rfl
      | some c =>
        obtain rfl := List.mem_singleton.mp (List.mem_of_getElem? hnew)
        rfl

/-- A step of the environment, whatever the writer is doing. -/
theorem Stores.environment_step {stores : Stores} {phase : WriterPhase} {a : WriterAction}
    {w : WriterState} (ha : a.environment = true)
    (hfree : ∀ code, a = .deleteLink code → (stores.at phase).locks.blocksDelete code = false)
    (h : (stores.at .stopped).step serde a = some w) :
    (stores.at phase).step serde a = some (w.stores.at phase) := by
  cases a with
  | append entry =>
    obtain ⟨r, hadd, rfl⟩ := Option.map_eq_some_iff.mp h
    exact Option.map_eq_some_iff.mpr ⟨r, hadd, rfl⟩
  | createLink code target expiration =>
    -- the insertion succeeds or fails in every phase alike
    cases hcreate : stores.pg.createLink code target expiration with
    | ok pg =>
      have hany : ∀ phase, (stores.at phase).pg.createLink code target expiration = .ok pg :=
        fun _ => hcreate
      simp only [WriterState.step, hany] at h ⊢
      obtain rfl := Option.some.inj h
      rfl
    | error e =>
      have hany : ∀ phase, (stores.at phase).pg.createLink code target expiration = .error e :=
        fun _ => hcreate
      simp only [WriterState.step, hany] at h ⊢
      obtain rfl := Option.some.inj h
      rfl
  | deleteLink code =>
    -- so does the deletion, as it does not have to wait
    have hstopped : (stores.at .stopped).locks.blocksDelete code = false := rfl
    cases hdelete : stores.pg.deleteLink code with
    | ok pg =>
      have hany : ∀ phase, (stores.at phase).pg.deleteLink code = .ok pg := fun _ => hdelete
      simp only [WriterState.step, hstopped, hfree code rfl, hany] at h ⊢
      obtain rfl := Option.some.inj h
      rfl
    | error e =>
      have hany : ∀ phase, (stores.at phase).pg.deleteLink code = .error e := fun _ => hdelete
      simp only [WriterState.step, hstopped, hfree code rfl, hany] at h ⊢
      obtain rfl := Option.some.inj h
      rfl
  | loseData =>
    obtain rfl := Option.some.inj h
    rfl
  | _ => cases ha

/-- A deletion that no instance makes wait. -/
theorem Fleet.project_free {code : String} (h : st.blocks (.deleteLink code) = false) :
    st.project.locks.blocksDelete code = false := by
  have hall : ∀ c ∈ st.instances, c.blocksDelete code = false := by
    simpa [blocks] using h
  show (WriterState.locks (st.stores.at st.phase)).blocksDelete code = false
  unfold WriterState.locks
  split
  · next tx hphase =>
    change st.phase = .merging tx at hphase
    unfold phase at hphase
    split at hphase
    · cases hphase
    · next s _ _ =>
      cases hc : st.instances[s.owner]? with
      | none =>
        rw [hc] at hphase
        cases hphase
      | some c =>
        rw [hc, Option.elim_some] at hphase
        have hfree := hall c (List.mem_of_getElem? hc)
        unfold EventConsumer.phaseOn at hphase
        split at hphase
        · next hstage =>
          split at hphase
          · subst hphase
            simpa [EventConsumer.blocksDelete, hstage] using hfree
          · cases hphase
        · cases hphase
  · rfl

/-- What the environment does in an action of the fleet. -/
def FleetAction.ofEnvironment : FleetAction → Option WriterAction
  | .environment b => some b
  | _ => none

/-- The actions of the writer that match an action of the fleet: its own, or the environment's. -/
inductive FleetAction.Matches (a : FleetAction) (bs : List WriterAction) : Prop
  | own (ha : a.ofEnvironment = none) (h : ∀ b ∈ bs, b.environment = false)
  | environment {b : WriterAction} (ha : a = .environment b) (hb : b.environment = true)
    (hbs : bs = [b])

/-- The environment does in them what it does in the action. -/
theorem FleetAction.Matches.filter {a : FleetAction} {bs : List WriterAction} (h : a.Matches bs) :
    bs.filter WriterAction.environment = a.ofEnvironment.toList := by
  cases h with
  | own ha hnone =>
    rw [ha, List.filter_eq_nil_iff.mpr fun b hb => by rw [hnone b hb]; exact Bool.false_ne_true]
    rfl
  | environment ha hb hbs =>
    rw [ha, hbs, List.filter_singleton, hb]
    rfl

theorem WriterAction.environment_of_inner {b : WriterAction} (h : b.inner = true) :
    b.environment = false := by
  cases b with
  | append _ => cases h
  | createLink _ _ _ => cases h
  | deleteLink _ => cases h
  | loseData => cases h
  | _ => rfl

/-- The writer follows a step. -/
def Fleet.Follows (serde : SerdeJson) (a : FleetAction) (st st' : Fleet) : Prop :=
  ∃ bs, (writer serde).run st.project bs = some st'.project ∧ a.Matches bs

/-- The writer does nothing. -/
theorem Fleet.stutters (ha : a.ofEnvironment = none) (h : st'.project = st.project) :
    st.Follows serde a st' :=
  ⟨[], congrArg some h.symm, .own ha (by simp)⟩

/-- The writer takes one step of its own. -/
theorem Fleet.moves {b : WriterAction} (ha : a.ofEnvironment = none)
    (hstep : st.project.step serde b = some st'.project) (hb : b.environment = false) :
    st.Follows serde a st' :=
  ⟨[b], (writer serde).run_cons_some.mpr ⟨_, hstep, rfl⟩, .own ha (by simpa using hb)⟩

/-- One instance changes, and the writer does nothing. -/
theorem Fleet.set_stutters {i : Nat} {c d : EventConsumer} (ha : a.ofEnvironment = none)
    (hc : st.instances[i]? = some c) (hsame : ∀ conn, d.phaseOn conn = c.phaseOn conn) :
    st.Follows serde a (st.set i d) := by
  apply stutters ha
  show st.stores.at (Fleet.phase ⟨st.stores, st.lock, st.instances.set i d⟩) = _
  rw [phase_set hc hsame]
  rfl

/-- An instance that is not in `run_inner`, and is the only one that can have the lock. -/
theorem Fleet.phase_of_idle (i conn : Nat) {c : EventConsumer} (hc : st.instances[i]? = some c)
    (hidle : c.writesOn conn = false) (hheld : ∀ s, st.lock.HeldBy s → s = ⟨i, conn⟩) :
    st.phase = .stopped := by
  apply phase_eq_stopped
  intro s hs d hd
  obtain rfl := hheld s hs
  obtain rfl := Option.some.inj (hc.symm.trans hd)
  exact hidle

/-- An instance takes the lock: the writer is stopped, and stays so if no answer comes. -/
theorem Fleet.phase_of_tryAcquire {i conn : Nat} {cancelled : Bool} {lock : AdvisoryLock}
    (hc : st.instances[i]? = some ⟨cancelled, .acquiring⟩)
    (hlock : st.lock.tryAcquire ⟨i, conn⟩ = some lock) : st.phase = .stopped :=
  phase_of_idle i conn hc rfl fun _ hs => hs.of_tryAcquire hlock

/-- An instance releases the lock, or does not reach Postgres. -/
theorem Fleet.phase_release {i conn : Nat} {cancelled : Bool}
    (hc : st.instances[i]? = some ⟨cancelled, .releasing conn⟩) (reached : Bool) :
    Fleet.phase { st with
      lock := if reached then st.lock.unlock ⟨i, conn⟩ else st.lock
      instances := st.instances.set i ⟨cancelled, .waiting⟩ } = st.phase := by
  have hlt := (List.getElem?_eq_some_iff.mp hc).1
  have hkept := phase_set (d := ⟨cancelled, .waiting⟩) hc (fun _ => rfl) st.stores
  cases reached with
  | false => exact hkept
  | true =>
    by_cases hheld : st.lock.HeldBy ⟨i, conn⟩
    · rw [phase_of_idle i conn hc rfl fun s hs => hs.unique hheld]
      apply phase_of_idle i conn (List.getElem?_set_self hlt) rfl
      intro s hs
      exact (AdvisoryLock.HeldBy.of_unlock hs).unique hheld
    · rw [if_pos rfl, AdvisoryLock.unlock_of_not_heldBy hheld]
      exact hkept

/-- A step of `run_inner`, and at its return the writer stops. -/
theorem Fleet.inner_refines {i conn : Nat} {cancelled : Bool} {stage : InnerStage}
    {phase : WriterPhase} {next : Option InnerStage} {w : WriterState} (h : st.Guarded)
    (ha : a.ofEnvironment = none)
    (hc : st.instances[i]? = some ⟨cancelled, .inner conn stage phase⟩)
    (hperforms : (st.stores.at phase).Performs serde w) :
    st.Follows serde a (st.enter i ⟨cancelled, .waiting⟩ conn w next) := by
  have hheld : st.lock.HeldBy ⟨i, conn⟩ := h i _ conn hc (decide_eq_true rfl)
  have hlt := (List.getElem?_eq_some_iff.mp hc).1
  have hphase : st.phase = phase := (phase_of_heldBy hc hheld).trans (if_pos rfl)
  have hproject : st.project = st.stores.at phase := by
    rw [project, hphase]
  obtain ⟨bs, hrun, hinner⟩ := hperforms
  rw [← hproject] at hrun
  have hown : ∀ b ∈ bs, b.environment = false :=
    fun b hb => WriterAction.environment_of_inner (hinner b hb)
  have hnext : (st.enter i ⟨cancelled, .waiting⟩ conn w next).phase =
      (next.elim .stopped fun _ => w.phase) := by
    have hself : (st.enter i ⟨cancelled, .waiting⟩ conn w next).instances[i]? = some _ :=
      List.getElem?_set_self hlt
    rw [phase_of_heldBy hself hheld]
    cases next with
    | none => rfl
    | some stage => exact if_pos rfl
  cases next with
  | some stage =>
    refine ⟨bs, ?_, .own ha hown⟩
    rw [hrun, project, hnext]
    rfl
  | none =>
    refine ⟨bs ++ [.stop], (writer serde).run_append_some.mpr ⟨w, hrun, ?_⟩, .own ha ?_⟩
    · rw [project, hnext]
      rfl
    · intro b hb
      rcases List.mem_append.mp hb with hb | hb
      · exact hown b hb
      · rw [List.mem_singleton.mp hb]
        rfl

/-- A process is gone, and the sessions of its connections with it. -/
theorem Fleet.crash_refines {i : Nat} {c : EventConsumer} :
    st.Follows serde (.crash i) { st with
      lock := st.lock.dropIf fun t => t.owner = i
      instances := st.instances.set i { c with stage := .ended } } := by
  by_cases hheld : ∃ s, st.lock.HeldBy s ∧ s.owner = i
  · -- the writer, if there is one, is of this process
    obtain ⟨s, hs, howner⟩ := hheld
    have hstopped : Fleet.phase { st with
        lock := st.lock.dropIf fun t => t.owner = i
        instances := st.instances.set i { c with stage := .ended } } = .stopped := by
      apply phase_eq_stopped
      intro t ht
      obtain ⟨hbefore, hended⟩ := ht.of_dropIf
      rw [hbefore.unique hs, howner] at hended
      simp at hended
    exact moves (b := .stop) rfl (congrArg some (congrArg st.stores.at hstopped.symm)) rfl
  · have hother : ∀ s, st.lock.HeldBy s → s.owner ≠ i := fun s hs howner => hheld ⟨s, hs, howner⟩
    apply stutters rfl
    rw [AdvisoryLock.dropIf_of_not_heldBy fun s hs => decide_eq_false (hother s hs), project,
      phase_set_of_not_heldBy hother]
    rfl

/-- **Step lemma of the simulation.** -/
theorem Fleet.step_refines (h : st.Guarded) (hkeeps : st.KeepsGuard a)
    (hstep : st.Step serde count a st') : st.Follows serde a st' := by
  have hsame {phase : WriterPhase} (hphase : phase = st.phase) :
      st.stores.at phase = st.project := by rw [hphase]; rfl
  -- most steps of `run` are outside `run_inner`: the writer has no step (`stutters`)
  cases hstep with
  | spawn => exact stutters rfl (hsame phase_spawn)
  | cancel hc => exact set_stutters rfl hc fun _ => rfl
  | @acquire i conn cancelled lock hc hlock =>
    -- the lock was free, so the writer was stopped: now it starts
    have hlt := (List.getElem?_eq_some_iff.mp hc).1
    have hphase := phase_of_tryAcquire hc hlock
    refine moves (b := .start) rfl ?_ rfl
    have hheld := AdvisoryLock.heldBy_of_tryAcquire hlock
    have hnew : Fleet.phase { st with
        lock := lock
        instances := st.instances.set i ⟨cancelled, .inner conn .ensuringGroup .starting⟩ } =
        .starting := by
      rw [phase_of_heldBy (List.getElem?_set_self hlt) hheld]
      exact if_pos rfl
    rw [project, hphase, project, hnew]
    rfl
  | @acquireUnknown i conn cancelled lock hc hlock =>
    -- the lock is taken by a session in which nobody is in `run_inner`
    have hlt := (List.getElem?_eq_some_iff.mp hc).1
    refine stutters rfl (hsame ?_)
    rw [phase_of_tryAcquire hc hlock]
    exact phase_of_idle i conn (List.getElem?_set_self hlt) rfl
      fun s hs => hs.unique (AdvisoryLock.heldBy_of_tryAcquire hlock)
  | acquireBusy hc _ => exact set_stutters rfl hc fun _ => rfl
  | acquireFails hc => exact set_stutters rfl hc fun _ => rfl
  | inner hc hinner => exact inner_refines h rfl hc (InnerStage.step_refines hinner)
    -- a step of the one that has the lock is a run of the writer
  | release reached hc => exact stutters rfl (hsame (phase_release hc reached))
  | retry hc => exact set_stutters rfl hc fun _ => rfl
  | returns hc => exact set_stutters rfl hc fun _ => rfl
  | endSession s =>
    refine stutters rfl (hsame ?_)
    -- the session may have the lock, but not with an instance that writes
    by_cases hheld : st.lock.HeldBy s
    · have hbefore : st.phase = .stopped := phase_eq_stopped fun t ht c hc => by
        obtain rfl := ht.unique hheld
        exact hkeeps c hc
      rw [hbefore]
      apply phase_eq_stopped
      intro t ht
      obtain ⟨ht, hended⟩ := ht.of_dropIf
      rw [ht.unique hheld] at hended
      simp at hended
    · rw [AdvisoryLock.dropIf_of_not_heldBy fun t ht =>
        decide_eq_false fun heq : t = s => hheld (heq ▸ ht)]
  | crash _ => exact crash_refines
  | environment ha hfree hstep =>
    refine ⟨[_], (writer serde).run_cons_some.mpr
      ⟨_, Stores.environment_step ha ?_ hstep, rfl⟩, .environment rfl ha rfl⟩
    rintro code rfl
    exact project_free hfree

/-- **Run lemma of the simulation.** `D` is a condition on the steps of the writer that only the
environment can fail to meet. -/
theorem Fleet.run_refines {D : WriterState → WriterAction → Prop} {as : List FleetAction}
    (hown : ∀ w b, b.environment = false → D w b)
    (hmeets : (fleet serde count).Meets
      (fun st a => st.KeepsGuard a ∧ ∀ b, a = .environment b → D st.project b) st as)
    (hrun : (fleet serde count).run st as = some st') (h : st.Guarded) :
    ∃ bs, (writer serde).run st.project bs = some st'.project ∧
      (writer serde).Meets D st.project bs ∧
      bs.filter WriterAction.environment = as.filterMap FleetAction.ofEnvironment := by
  obtain ⟨bss, w, hbs, ⟨-, rfl⟩, hD, hmatch⟩ := Machine.run_simulates (n := writer serde) (D := D)
    (R := fun st w => st.Guarded ∧ w = st.project)
    (L := fun a bs => bs.filter WriterAction.environment = a.ofEnvironment.toList)
    (by
      rintro s a s' w ⟨h, rfl⟩ ⟨hkeeps, henvironment⟩ hstep
      have hstep := Fleet.Step.of_step hstep
      obtain ⟨bs, hbs, hmatches⟩ := Fleet.step_refines h hkeeps hstep
      refine ⟨bs, s'.project, hbs, ⟨h.step hkeeps hstep, rfl⟩, ?_, hmatches.filter⟩
      cases hmatches with
      | own _ hnone => exact Machine.Meets.mono _ hown (Machine.meets_of_forall _ hnone _)
      | environment ha _ hb =>
        subst ha hb
        exact ⟨henvironment _ rfl, fun _ _ => trivial⟩)
    hmeets hrun ⟨h, rfl⟩
  exact ⟨bss.flatten, hbs, hD, filter_flatten hmatch⟩

/-- The same without a condition on the environment. -/
theorem Fleet.run_refines_of_keepsGuard {as : List FleetAction}
    (hmeets : (fleet serde count).Meets Fleet.KeepsGuard st as)
    (hrun : (fleet serde count).run st as = some st') (h : st.Guarded) :
    ∃ bs, (writer serde).run st.project bs = some st'.project ∧
      bs.filter WriterAction.environment = as.filterMap FleetAction.ofEnvironment := by
  obtain ⟨bs, hbs, -, hmatch⟩ := Fleet.run_refines (D := fun _ _ => True) (fun _ _ _ => trivial)
    (Machine.Meets.mono _ (fun _ _ hkeeps => ⟨hkeeps, fun _ _ => trivial⟩) hmeets) hrun h
  exact ⟨bs, hbs, hmatch⟩

/-- What the environment does in the run of the writer it does in that of the fleet. -/
theorem FleetAction.mem_of_filter {as : List FleetAction} {bs : List WriterAction}
    (h : bs.filter WriterAction.environment = as.filterMap ofEnvironment) {b : WriterAction}
    (hb : b ∈ bs) (henvironment : b.environment = true) : .environment b ∈ as := by
  have hmem : b ∈ as.filterMap ofEnvironment := h ▸ List.mem_filter.mpr ⟨hb, henvironment⟩
  obtain ⟨a, ha, heq⟩ := List.mem_filterMap.mp hmem
  cases a with
  | environment c =>
    obtain rfl : c = b := Option.some.inj heq
    exact ha
  | _ => cases heq

/-- **The instances are one writer.** While no session ends whose instance writes, whatever the
instances and the environment do is a run of the writer on the same stores, in which the environment
does what it does to the instances, and in the same order. -/
theorem fleet_refines {as : List FleetAction}
    (hmeets : (fleet serde count).Meets Fleet.KeepsGuard .init as)
    (hrun : (fleet serde count).run .init as = some st) :
    ∃ bs, (writer serde).run .init bs = some st.project ∧
      bs.filter WriterAction.environment = as.filterMap FleetAction.ofEnvironment :=
  Fleet.run_refines_of_keepsGuard hmeets hrun Fleet.Guarded.init

theorem fleet_refines_takeover : ∃ st, (fleet epochSerde 10).run .init takeover = some st ∧
    ∃ bs, (writer epochSerde).run .init bs = some st.project ∧
      bs.filter WriterAction.environment = takeover.filterMap FleetAction.ofEnvironment := by
  have hsome : ((fleet epochSerde 10).run .init takeover).isSome = true := by decide
  obtain ⟨st, hrun⟩ := Option.isSome_iff_exists.mp hsome
  exact ⟨st, hrun, fleet_refines (by decide) hrun⟩

end Projection

end Kurl
