import Rustd.Manager.AutomaticRestarts
import Rustd.Manager.Waiting

/-!
# Results of restart jobs

A restart job of a running service only asks for the stop. The start follows as a job of its own,
which is queued when the main process exits. The result of the restart is read off the state of the
unit, by a pass over the running jobs in every turn of the loop: an active or inactive unit counts
as restarted.
-/

namespace Rustd.Manager

open Base Service UnitFile Jobs Option

variable {W : Type} [Kernel W] (name : String) (m : Manager W)

/-- The stop that a restart of a running service begins with. -/
def restartStopped (name : String) (state : UnitState) : Manager W :=
  let marked := { m with restartPending := m.restartPending.insert name }
  if state ≠ .deactivating then (marked.runUnitJob .stop name).2 else marked

/-- The manager in which a start or restart job of a service comes to its start step, if it
does. -/
def startStep (kind : JobKind) (name : String) : Option (Manager W) :=
  match kind with
  | .start => some m
  | .restart =>
    let loaded := (m.loadUnit name).2
    match (loaded.stateOf name).getD .inactive with
    | .inactive | .failed | .maintenance => some loaded
    | state =>
      let stopped := loaded.restartStopped name state
      if stopped.units[name]?.any UnitRecord.tracked then none
      else some { stopped with restartPending := stopped.restartPending.erase name }
  | .stop | .reload | .isolate | .nop => none

/-- The event starts the service. -/
def Activates : Event → Prop
  | .dispatch score => ∃ j, (m.popped score).1 = some j ∧ j.unitName = name ∧
      ((m.executing score j).startStep j.kind name).any (·.shouldStart name) = true
  | _ => False

/-- A restart job of the unit is finished with result done: right after it ran, or when its unit is
found settled. -/
def ReportsDone : Event → Prop
  | .dispatch score => ∃ j, (m.popped score).1 = some j ∧ j.id ≠ 0 ∧ j.kind = .restart ∧
      j.unitName = name ∧ ((m.executing score j).executeJob j).1 = .ok () ∧
      ((m.executing score j).executeJob j).2.immediateJobResult j.kind j.unitName = some .done
  | .completeJobs => ∃ info ∈ m.jobRegistry.list, info.state = .running ∧ info.kind = .restart ∧
      info.unitName = name ∧ m.settledJobResult info.kind info.unitName = some .done
  | _ => False

/-- The events that let a restart of the service run its course. Its processes end while it is
being stopped, and do not leave it active. No stop of it is run in between, nor a restart while
it is being stopped without tracked processes; its failure state is not reset, it does not run
out of memory, and its watchdog does not take over. When the running jobs are completed, the
start of the restart has left the queue. -/
def RestartFollowed : Event → Prop
  | .childExit exit => ∀ r s, Exits m exit name r → r.loaded.service? = some s →
      r.state = .deactivating ∧ r.controlPid ≠ some exit.pid ∧
        m.exitKeepsActive name r s exit = false
  | .dispatch score => ∀ j, (m.popped score).1 = some j → j.unitName = name → j.kind ≠ .stop ∧
      (j.kind = .restart → ∀ r, m.units[name]? = some r → r.state = .deactivating →
        r.tracked = true)
  | .resetFailed names => name ∉ m.resetNames names
  | .oom other => other ≠ name
  | .expireWatchdogs => ¬m.WatchdogMissed name
  | .completeJobs => restartJob name ∉ m.jobQueue.pending
  | _ => True

inductive RestartOwed (name : String) (m : Manager W) : Prop where
  | waiting : name ∈ m.restartPending → ServiceIn (·.state = .deactivating) name m →
      RestartOwed name m
  | queued : restartJob name ∈ m.jobQueue.pending → ServiceIn Phase.settled name m →
      RestartOwed name m
  | failed : ServiceIn (fun p => p.state = .failed ∨ p.state = .maintenance) name m →
      RestartOwed name m

section

def onlyFails (l : Label) : Prop :=
  match l with
  | .mainPid _ | .ready | .announce | .pidFile | .deadline | .overdue | .abandon | .emptied
  | .limit => True
  | _ => False

private theorem Move.state_eq_or_failed (h : Move l p q) (hl : onlyFails l)
    (hdw : ¬(p.state = .active ∨ p.state = .activating)) :
    q.state = p.state ∨ q.state = .failed := by
  cases h with
  | ready _ h | unready _ h | deadline _ h | pidFile _ _ h => exact absurd (.inr h) hdw
  | announce _ h | emptied _ _ _ h => exact absurd h hdw
  | mainPid | overdue => exact .inl rfl
  | abandon | limit => exact .inr rfl
  | _ => exact absurd hl id

omit [Kernel W] in
private theorem Evolves.state_eq_or_failed {name : String} {m m' : Manager W}
    (h : Evolves (fun v l _ => v = name → onlyFails l) m m')
    (hr : m.units[name]? = some r) (hservice : r.loaded.isService = true)
    (hdw : ¬(r.state = .active ∨ r.state = .activating)) :
    ∃ r', m'.units[name]? = some r' ∧ r'.loaded.isService = true ∧
      (r'.state = r.state ∨ r'.state = .failed) := by
  obtain ⟨r', hr', hld, hmo⟩ := h.loaded name r hr
  refine ⟨r', hr', by rw [hld, hservice], ?_⟩
  apply (hmo hservice).invariant (I := fun p => p.state = r.state ∨ p.state = .failed) _ (.inl rfl)
  rintro l p q hp hl hmv
  have hp' : ¬(p.state = .active ∨ p.state = .activating) := by
    rcases hp with hp | hp
    · rwa [hp]
    · simp [hp]
  rcases Move.state_eq_or_failed hmv (hl rfl) hp' with hq | hq
  · rw [hq]
    exact hp
  · exact .inr hq

omit [Kernel W] in
theorem RestartOwed.evolves {name : String} {m m' : Manager W} (h : RestartOwed name m)
    (hm : name ∈ m.restartPending → name ∈ m'.restartPending)
    (hjob : ServiceIn Phase.settled name m → restartJob name ∈ m.jobQueue.pending →
      restartJob name ∈ m'.jobQueue.pending)
    (hev : Evolves (fun v l _ => v = name → onlyFails l) m m') : RestartOwed name m' := by
  cases h with
  | waiting hpn hst =>
    obtain ⟨r, hr, hservice, hst⟩ := hst
    rw [phase_state] at hst
    obtain ⟨r', hr', hsr', hst'⟩ := hev.state_eq_or_failed hr hservice (by simp [hst])
    rcases hst' with hst' | hst'
    · exact .waiting (hm hpn) ⟨r', hr', hsr', hst'.trans hst⟩
    · exact .failed ⟨r', hr', hsr', .inl hst'⟩
  | queued hqd hst =>
    have hqd' := hjob hst hqd
    obtain ⟨r, hr, hservice, hst⟩ := hst
    obtain ⟨r', hr', hsr', hst'⟩ := hev.state_eq_or_failed hr hservice (by
      rcases hst with hst | hst <;> rw [phase_state] at hst <;> simp [hst])
    refine .queued hqd' ⟨r', hr', hsr', ?_⟩
    rcases hst' with hst' | hst'
    · rw [Phase.settled, phase_state, hst']
      exact hst
    · exact .inr hst'
  | failed hst =>
    obtain ⟨r, hr, hservice, hst⟩ := hst
    obtain ⟨r', hr', hsr', hst'⟩ := hev.state_eq_or_failed hr hservice (by
      rcases hst with hst | hst <;> rw [phase_state] at hst <;> simp [hst])
    refine .failed ⟨r', hr', hsr', ?_⟩
    rcases hst' with hst' | hst'
    · rw [phase_state, hst']
      exact hst
    · exact .inl hst'

end

section

variable {u : String}

omit [Kernel W] in
private theorem shouldStart_of_settled {m : Manager W} (h : ServiceIn Phase.settled u m) :
    m.shouldStart u = true := by
  obtain ⟨r, hr, -, hst⟩ := h
  rw [shouldStart, hr, any_some]
  rcases hst with hst | hst <;> rw [phase_state] at hst <;> simp [hst]

variable (m : Manager W) (r : UnitRecord)

theorem waits_or_settled_stopService (nf : Bool) (r : UnitRecord) (hr : m.units[u]? = some r)
    (hservice : r.loaded.isService = true) :
    ServiceIn (fun p => p.state = .deactivating ∧ p.tracked = true ∨
      p.settled ∧ p.tracked = false) u (m.stopService u nf) := by
  obtain ⟨r₁, hr₁, hfx, hmv⟩ := requestStop_makes m u nf r hr hservice
  have hrqs : r₁.phase.state = .deactivating ∧ r₁.phase.tracked = true ∨
      r₁.phase.settled ∧ r₁.phase.tracked = false := by
    generalize r₁.phase = q at hmv ⊢
    cases hmv with
    | stopTracked _ htr => exact .inl ⟨rfl, htr⟩
    | stopUntracked _ _ _ hse htr => exact .inr ⟨hse, htr⟩
  have htn : Tends (.moves fun _ l _ => l = .abandon) (m.requestStop u nf)
      (m.stopService u nf) :=
    tends_stopService_of_requested m u nf (fun _ _ => rfl)
  obtain ⟨r₂, hr₂, h₂, hmo⟩ := htn.evolves.loaded u r₁ hr₁
  have hsr₁ : r₁.loaded.isService = true := by
    rw [show r₁.loaded = r.loaded from congrArg Prod.fst hfx, hservice]
  refine ⟨r₂, hr₂, by rw [h₂, hsr₁], ?_⟩
  apply (hmo hsr₁).invariant (I := fun p => p.state = .deactivating ∧ p.tracked = true ∨
    p.settled ∧ p.tracked = false) _ hrqs
  rintro l p q - rfl hmv
  cases hmv with
  | abandon => exact .inr ⟨.inr rfl, rfl⟩

private theorem loadUnit_of_isSome (u : String) (h : (m.loadUnit u).2.units[u]?.isSome = true) :
    (m.loadUnit u).1 = .ok () := by
  revert h
  simp only [loadUnit]
  split
  · simp
  rename_i habsent
  split
  · intro h
    rw [units_ask, Std.ExtTreeMap.isSome_getElem?_eq_contains] at h
    exact absurd h habsent
  · simp

private theorem runUnitJob_start_of_not_shouldStart (hr : m.units[u]? = some r)
    (hservice : r.loaded.isService = true) (h : m.shouldStart u = false) :
    m.runUnitJob .start u = (.ok (), m) := by
  obtain ⟨s, hs⟩ := isSome_iff_exists.mp hservice
  simp only [runUnitJob, hr, hs, runServiceJob]
  exact startService_of_not_shouldStart m u _ _ _ _ h

section

variable (m : Manager W) (r : UnitRecord) (hr : m.units[u]? = some r)
  (hservice : r.loaded.isService = true)

include hr hservice

private theorem restartRunning_of_tracked
    (h : (m.restartStopped u r.state).units[u]?.any UnitRecord.tracked = true) :
    (m.restartRunning u r.state).2 = m.restartStopped u r.state := by
  obtain ⟨s, hs⟩ := isSome_iff_exists.mp hservice
  by_cases hst : r.state = .deactivating
  · simp only [restartStopped, hst, ne_eq, not_true_eq_false, if_false] at h ⊢
    simp [restartRunning, h]
  simp only [restartStopped, ne_eq, hst, not_false_eq_true, if_true] at h ⊢
  simp only [runUnitJob, hr, hs, runServiceJob] at h ⊢
  simp [restartRunning, hst, runUnitJob, hr, hs, runServiceJob, h]

/-- The stop of a restart leaves the marker, and a service that waits for its tracked processes
or is down and has none. -/
theorem waits_or_settled_restartStopped (htr : r.state = .deactivating → r.tracked = true) :
    u ∈ (m.restartStopped u r.state).restartPending ∧
      ServiceIn (fun p => p.state = .deactivating ∧ p.tracked = true ∨
        p.settled ∧ p.tracked = false) u (m.restartStopped u r.state) := by
  obtain ⟨s, hs⟩ := isSome_iff_exists.mp hservice
  by_cases hst : r.state = .deactivating
  · simp only [restartStopped, hst, ne_eq, not_true_eq_false, if_false]
    exact ⟨by simp, r, hr, hservice, .inl ⟨hst, htr hst⟩⟩
  simp only [restartStopped, ne_eq, hst, not_false_eq_true, if_true, runUnitJob, hr, hs,
    runServiceJob]
  refine ⟨?_, waits_or_settled_stopService _ _ r hr hservice⟩
  rw [restartPending_of_shared (Spares.stopService
    { m with restartPending := m.restartPending.insert u } _).shared]
  simp

private theorem waits_restartRunning (htr : r.state = .deactivating → r.tracked = true)
    (hidl : (m.restartStopped u r.state).units[u]?.any UnitRecord.tracked = false →
      (m.restartStopped u r.state).shouldStart u = false) :
    u ∈ (m.restartRunning u r.state).2.restartPending ∧
      ServiceIn (·.state = .deactivating) u (m.restartRunning u r.state).2 := by
  obtain ⟨hmarked, r', hr', hsr', hph⟩ := waits_or_settled_restartStopped m r hr hservice htr
  rcases hph with ⟨hst, htr'⟩ | ⟨hse, hur⟩
  · rw [restartRunning_of_tracked m r hr hservice (by rw [hr', any_some]; exact htr')]
    exact ⟨hmarked, r', hr', hsr', hst⟩
  have hshl := shouldStart_of_settled (m := m.restartStopped u r.state) ⟨r', hr', hsr', hse⟩
  rw [hidl (by rw [hr', any_some]; exact hur)] at hshl
  cases hshl

end

/-- A restart that does not activate the service waits for its processes, unless the service is
in maintenance. -/
theorem waits_restartUnit (hr : (m.loadUnit u).2.units[u]? = some r)
    (hservice : r.loaded.isService = true) (htr : r.state = .deactivating → r.tracked = true)
    (hidl : (m.startStep .restart u).any (·.shouldStart u) = false) :
    u ∈ (m.restartUnit u).2.restartPending ∧
        ServiceIn (·.state = .deactivating) u (m.restartUnit u).2 ∨
      ServiceIn (·.state = .maintenance) u (m.restartUnit u).2 := by
  have hok : (m.loadUnit u).1 = .ok () := loadUnit_of_isSome m u (by rw [hr, isSome_some])
  have hsO : (m.loadUnit u).2.stateOf u = some r.state := by
    rw [stateOf, hr, map_some]
  obtain ⟨s, hs⟩ := isSome_iff_exists.mp hservice
  have hsv : (m.loadUnit u).2.serviceOf u = some s := by simp [serviceOf, hr, hs]
  simp only [startStep, hsO, getD_some] at hidl
  simp only [restartUnit, hok, hsv, hsO, isNone_some, Bool.false_eq_true, if_false, getD_some]
  cases hst : r.state with
  | inactive | failed =>
    simp [hst, shouldStart, hr] at hidl
  | maintenance =>
    rw [runUnitJob_start_of_not_shouldStart _ r hr hservice (by simp [shouldStart, hr, hst])]
    exact .inr ⟨r, hr, hservice, hst⟩
  | active | activating | deactivating =>
    have hwa := waits_restartRunning _ r hr hservice htr
    rw [hst] at hwa hidl
    refine .inl (hwa fun hur => ?_)
    simp only [hur, Bool.false_eq_true, if_false, any_some] at hidl
    exact hidl

end

section

variable {u : String} {m : Manager W} {e : Event}

/-- The event takes a restart further: a process of the service exits, or a start or restart of
the service is run. -/
def TakesFurther (name : String) (m : Manager W) : Event → Prop
  | .childExit exit => m.ownerOf exit.pid = some name
  | .dispatch score => ∃ j, (m.popped score).1 = some j ∧ j.unitName = name ∧
      (j.kind = .start ∨ j.kind = .restart)
  | _ => False

theorem RestartFollowed.allows (h : RestartFollowed u m e) (he : ¬TakesFurther u m e) :
    Allows (fun v l _ => v = u → onlyFails l) m e := by
  cases e with
  | resetFailed ns =>
    rintro v hother r hr p htr hst rfl
    exact absurd hother h
  | oom v => exact fun p => ⟨fun hne => absurd hne h, fun hne => absurd hne h, fun _ => trivial⟩
  | childExit ex =>
    have hor : ∀ v, m.ownerOf ex.pid = some v → v ≠ u := by
      rintro v hother rfl
      exact he hother
    refine ⟨?_, ?_, ?_⟩
    · intro v r het
      have hne := hor v het.owner
      exact ⟨fun heq => absurd heq hne, fun heq => absurd heq hne⟩
    · intro v hother p
      exact ⟨fun heq => absurd heq (hor v hother), fun _ => trivial⟩
    intro v r s hs
    have hne := hor v hs.owner
    exact ⟨fun heq => absurd heq hne, fun _ heq => absurd heq hne⟩
  | cgroupEmpty v => exact fun p => ⟨fun _ => trivial, fun _ => trivial, fun _ => trivial⟩
  | retryPidFiles => exact fun _ _ _ _ => trivial
  | timeout ev =>
    exact ⟨fun _ _ _ => trivial, fun _ _ => trivial, fun _ _ _ => trivial⟩
  | notify ev =>
    exact ⟨fun _ _ _ => trivial, fun _ _ => trivial,
      fun _ _ _ => ⟨fun _ => trivial, fun _ _ => trivial⟩⟩
  | dbusReady v => exact fun _ _ => trivial
  | expireWatchdogs =>
    rintro v hmi p
    have hne : v ≠ u := by
      rintro rfl
      exact h hmi
    exact ⟨fun heq => absurd heq hne, fun _ => trivial⟩
  | dispatch score =>
    rintro j hj v l p ⟨rfl, hl⟩ hname
    have hstp := (h j hj hname).1
    cases hkn : j.kind with
    | start => exact absurd ⟨j, hj, hname, .inl hkn⟩ he
    | restart => exact absurd ⟨j, hj, hname, .inr hkn⟩ he
    | stop => exact absurd hkn hstp
    | reload | isolate | nop =>
      rw [hkn] at hl
      exact absurd hl id
  | _ => trivial

theorem RestartFollowed.covers (h : RestartFollowed u m e) (he : ¬TakesFurther u m e) :
    m.Covers (fun _ => True) (fun _ => True) (· ≠ u) e := by
  cases e with
  | submit => exact fun _ => trivial
  | startTarget => exact fun _ _ _ => trivial
  | shutdown => exact ⟨fun _ => trivial, fun _ _ => trivial⟩
  | childExit ex =>
    refine ⟨fun _ _ _ _ => ⟨trivial, trivial⟩, ?_⟩
    rintro v r het - - rfl
    exact he het.owner
  | resetFailed ns =>
    rintro v hother rfl
    exact h hother
  | cgroupEmpty => exact fun _ => ⟨trivial, trivial⟩
  | dispatch score =>
    intro j hj
    refine ⟨fun hkn => ⟨trivial, ?_⟩, fun _ _ => trivial⟩
    rintro rfl
    exact he ⟨j, hj, rfl, .inr hkn⟩
  | restartTimer => exact fun _ _ => trivial
  | _ => trivial

private theorem RestartOwed.step_of_not_takesFurther (hm : RestartOwed u m)
    (h : RestartFollowed u m e) (he : ¬TakesFurther u m e) : RestartOwed u (m.step e) := by
  have hqueues := queues_step m e (h.covers he)
  apply hm.evolves _ _ (evolves_step m e (h.allows he))
  · intro hpn
    have hbf : u ∈ (m.before e).restartPending := by cases e <;> exact hpn
    exact (hqueues.unmarked u hbf).resolve_right (· rfl)
  intro _ hjob
  apply hqueues.kept
  apply mem_before_of_mem m rfl hjob
  rintro score rfl hp
  exact he ⟨_, hp, rfl, .inl rfl⟩

omit [Kernel W] in
theorem RestartOwed.service (h : RestartOwed u m) :
    ∃ r, m.units[u]? = some r ∧ r.loaded.isService = true := by
  rcases h with ⟨-, r, hr, hservice, -⟩ | ⟨-, r, hr, hservice, -⟩ | ⟨r, hr, hservice, -⟩ <;>
    exact ⟨r, hr, hservice⟩

omit [Kernel W] in
private theorem RestartOwed.marked_of_deactivating (h : RestartOwed u m)
    (hr : m.units[u]? = some r) (hst : r.state = .deactivating) : u ∈ m.restartPending := by
  rcases h with ⟨hpn, -⟩ | ⟨-, r', hr', -, hst'⟩ | ⟨r', hr', -, hst'⟩
  · exact hpn
  · cases hr.symm.trans hr'
    rcases hst' with hst' | hst' <;> cases hst.symm.trans hst'
  · cases hr.symm.trans hr'
    rcases hst' with hst' | hst' <;> cases hst.symm.trans hst'

private theorem RestartOwed.step_childExit (hm : RestartOwed u m) (ex : ChildExit)
    (h : RestartFollowed u m (.childExit ex)) (hor : m.ownerOf ex.pid = some u) :
    RestartOwed u (m.step (.childExit ex)) := by
  obtain ⟨r, hr, hservice⟩ := hm.service
  obtain ⟨s, hs⟩ := isSome_iff_exists.mp hservice
  have het : Exits m ex u r := ⟨hor, hr⟩
  obtain ⟨hst, hco, hke⟩ := h r s het hs
  have hmarked : (m.mainExitNoted u ex).restartPending.contains u = true := by
    rw [restartPending_of_shared (spares_mainExitNoted m ex u).shared]
    exact hm.marked_of_deactivating hr hst
  have hshl := shouldStart_mainExitNoted m ex u r s hr hs (main_of_exits het hco).2
  rw [hke, Bool.not_false] at hshl
  have hal : Allows (fun _ _ _ => True) m (.childExit ex) :=
    allows_of_forall m (fun _ _ _ => trivial) _
  obtain ⟨r', hr', hld, -⟩ := (evolves_step m _ hal).loaded u r hr
  rw [step_mainExit m ex u r het hco, restartAfterExit, if_pos hmarked] at hr' ⊢
  refine .queued ?_ ⟨r', hr', by rw [hld, hservice], ?_⟩
  · rw [jobQueue_of_queues (queues_of_ledger (ledger_finishExit _ u))]
    simp [JobQueue.enqueueInternal, restartJob]
  rw [units_finishExit] at hr'
  rw [shouldStart, hr', any_some] at hshl
  simpa [Phase.settled] using hshl

omit [Kernel W] in
private theorem restartPending_executing (score : Option (Nat → Job → Score)) (j : Job) :
    (m.executing score j).restartPending = m.restartPending := by
  unfold executing
  split <;> rfl

section

variable (m) (score : Option (Nat → Job → Score)) (j : Job) (hj : (m.popped score).1 = some j)

include hj

/-- What follows the execution of a job fails no service and loses no marker. -/
private theorem tends_after_execution (u : String) : Tends
    ⟨fun v l _ => v = u → onlyFails l, fun _ => True, fun _ => True, fun _ => True,
      fun _ => False⟩ ((m.executing score j).executeJob j).2 (m.dispatch score) :=
  tends_dispatch_popped m score j hj

private theorem RestartOwed.dispatch_start (hm : RestartOwed u m) (hname : j.unitName = u)
    (hkn : j.kind = .start) (hidl : ¬Activates u m (.dispatch score)) :
    RestartOwed u (m.dispatch score) := by
  obtain ⟨r, hr, hservice⟩ := hm.service
  have hshl : m.shouldStart u = false := by
    rw [← Bool.not_eq_true]
    intro hshl
    refine hidl ⟨j, hj, hname, ?_⟩
    rw [hkn, startStep, any_some, shouldStart, units_executing]
    exact hshl
  have hex : (m.executing score j).executeJob j = (.ok (), m.executing score j) := by
    rw [executeJob, if_neg (by rw [hkn]; decide), hkn, hname, runJob]
    apply runUnitJob_start_of_not_shouldStart _ r (by rw [units_executing, hr]) hservice
    rw [shouldStart, units_executing]
    exact hshl
  have htn := tends_after_execution m score j hj u
  refine hm.evolves ?_ ?_ (htn.evolves.after_units ?_)
  · intro hpn
    refine (htn.queues.unmarked u ?_).resolve_right id
    rw [hex, restartPending_executing]
    exact hpn
  · intro hse
    rw [shouldStart_of_settled hse] at hshl
    cases hshl
  · rw [hex, units_executing]

/-- A restart job that does not activate the service leaves the restart owed, and has no result
that says otherwise. -/
theorem owed_dispatch_restart (hname : j.unitName = u) (hkn : j.kind = .restart)
    (r : UnitRecord) (hr : (m.loadUnit u).2.units[u]? = some r)
    (hservice : r.loaded.isService = true) (htr : r.state = .deactivating → r.tracked = true)
    (hidl : ¬Activates u m (.dispatch score)) :
    RestartOwed u (m.dispatch score) ∧ ¬ReportsDone u m (.dispatch score) := by
  have hex : (m.executing score j).executeJob j = (m.executing score j).restartUnit u := by
    rw [executeJob, if_neg (by rw [hkn]; decide), hkn, hname, runJob]
  have hidl' : ((m.executing score j).startStep .restart u).any
      (·.shouldStart u) = false := by
    rw [← Bool.not_eq_true]
    intro hact
    exact hidl ⟨j, hj, hname, by rw [hkn]; exact hact⟩
  have hld : ((m.executing score j).loadUnit u).2.units[u]? = some r := by
    rw [(loadUnit_congr u (units_executing m score j) (world_executing m score j)).2.1, hr]
  have hwa := waits_restartUnit (m.executing score j) r hld hservice htr hidl'
  have htn := tends_after_execution m score j hj u
  have how : RestartOwed u ((m.executing score j).executeJob j).2 := by
    rw [hex]
    rcases hwa with ⟨hpn, hst⟩ | ⟨r', hr', hsr', hst⟩
    · exact .waiting hpn hst
    · exact .failed ⟨r', hr', hsr', .inr hst⟩
  refine ⟨how.evolves ?_ ?_ htn.evolves, ?_⟩
  · exact fun hpn => (htn.queues.unmarked u hpn).resolve_right id
  · exact fun _ => htn.queues.kept _
  rintro ⟨j', hj', -, -, -, -, hdn⟩
  cases hj.symm.trans hj'
  rw [hex, hkn, hname] at hdn
  rcases hwa with ⟨-, r', hr', -, hst⟩ | ⟨r', hr', -, hst⟩ <;>
    rw [phase_state] at hst <;> simp [immediateJobResult, stateOf, hr', hst] at hdn

end

private theorem owed_step (m : Manager W) (e : Event) (hm : RestartOwed u m)
    (h : RestartFollowed u m e ∧ ¬Activates u m e) :
    RestartOwed u (m.step e) ∧ ¬ReportsDone u m e := by
  obtain ⟨hf, hidl⟩ := h
  by_cases he : TakesFurther u m e
  · cases e with
    | childExit ex => exact ⟨hm.step_childExit ex hf he, id⟩
    | dispatch score =>
      obtain ⟨j, hj, hname, hkn | hkn⟩ := he
      · refine ⟨hm.dispatch_start m score j hj hname hkn hidl, ?_⟩
        rintro ⟨j', hj', -, hkn', -⟩
        cases hj.symm.trans hj'
        cases hkn.symm.trans hkn'
      obtain ⟨r, hr, hservice⟩ := hm.service
      exact owed_dispatch_restart m score j hj hname hkn r (by rw [loadUnit_of_some hr, hr])
        hservice ((hf j hj hname).2 hkn r hr) hidl
    | _ => exact absurd he id
  · refine ⟨hm.step_of_not_takesFurther hf he, ?_⟩
    cases e with
    | dispatch score =>
      rintro ⟨j, hj, -, hkn, hname, -⟩
      exact he ⟨j, hj, hname, .inr hkn⟩
    | completeJobs =>
      rintro ⟨i, -, -, hkn, hname, hdn⟩
      rw [hkn, hname] at hdn
      rcases hm with ⟨-, r, hr, -, hst⟩ | ⟨hqd, -⟩ | ⟨r, hr, -, hst⟩
      · rw [phase_state] at hst
        simp [settledJobResult, stateOf, hr, hst] at hdn
      · exact hf hqd
      rw [phase_state] at hst
      rcases hst with hst | hst <;>
        simp [settledJobResult, stateOf, hr, hst] at hdn
    | _ => exact id

/-- Until a dispatched restart of a service came to its start step, no restart of the service is
reported done, as long as the restart runs its course. -/
theorem restart_done_after_start (m : Manager W) (name : String)
    (score : Option (Nat → Job → Score)) (j : Job) (hj : (m.popped score).1 = some j)
    (hkind : j.kind = .restart) (hname : j.unitName = name) (r : UnitRecord)
    (hr : (m.loadUnit name).2.units[name]? = some r) (hservice : r.loaded.isService = true)
    (events : List Event)
    (hevents : AllSteps step (fun m e => RestartFollowed name m e ∧ ¬Activates name m e) m
      (.dispatch score :: events)) :
    AllSteps step (fun m e => ¬ReportsDone name m e) m (.dispatch score :: events) := by
  obtain ⟨⟨hfo, hidl⟩, hla⟩ := hevents
  have htr : r.state = .deactivating → r.tracked = true := by
    cases hm : m.units[name]? with
    | none =>
      have htn : Tends (.moves fun _ _ _ => False) m (m.loadUnit name).2 := tends_loadUnit m name
      have hfh := (htn.evolves.fresh name r hm hr hservice).invariant
        (I := fun p => p.state = .inactive) (fun _ _ _ _ hfls _ => absurd hfls id) rfl
      intro hst
      cases hst.symm.trans hfh
    | some r' =>
      rw [loadUnit_of_some hm] at hr
      cases hm.symm.trans hr
      exact (hfo j hj hname).2 hkind r hm
  obtain ⟨how, hun⟩ := owed_dispatch_restart m score j hj hname hkind r hr hservice htr hidl
  exact ⟨hun, allSteps_of_invariant owed_step _ events how hla⟩

end

def twoServices : Script :=
  { units := fun name =>
      if name = "a.service" ∨ name = "b.service" then
        some (.service {} { execStart := [⟨"/bin/a", [], false⟩] })
      else none
    spawned := fun name => some (if name = "a.service" then 10 else 20)
    populated := true
    members := 1 }

def restartAsked : Manager Script :=
  run step (Manager.new twoServices {} none)
    (runNow .start ++ [.submit .restart "a.service" none, .drainShared])

private theorem popped_restartAsked :
    (restartAsked.popped none).1 = some ⟨2, .restart, "a.service"⟩ := by decide

private theorem not_activates_restartAsked :
    ¬Activates "a.service" restartAsked (.dispatch none) := by
  have hwa : ((restartAsked.executing none ⟨2, .restart, "a.service"⟩).startStep .restart
      "a.service").isNone = true := by decide
  rintro ⟨j, hj, -, hact⟩
  cases popped_restartAsked.symm.trans hj
  rw [isNone_iff_eq_none.mp hwa] at hact
  cases hact

theorem restart_done_after_start_mainExit :
    AllSteps step (fun m e => ¬ReportsDone "a.service" m e) restartAsked
      [.dispatch none, .completeJobs, .childExit ⟨10, cldExited, 0⟩] := by
  have hrn : restartAsked.units["a.service"]?.any (fun r =>
      r.loaded.isService && r.state == .active) = true := by decide
  obtain ⟨r, hr, hfl⟩ := (Option.any_eq_true _ _).mp hrn
  rw [Bool.and_eq_true, beq_iff_eq] at hfl
  have hun :
      restartJob "a.service" ∉ (restartAsked.step (.dispatch none)).jobQueue.pending := by
    decide
  apply restart_done_after_start restartAsked "a.service" none _ popped_restartAsked rfl rfl r
    (by rw [loadUnit_of_some hr, hr]) hfl.1
  refine ⟨⟨?_, not_activates_restartAsked⟩, ⟨hun, id⟩, ⟨?_, id⟩, trivial⟩
  · intro j hj _
    cases popped_restartAsked.symm.trans hj
    refine ⟨by decide, ?_⟩
    intro _ r' hr' hst
    cases hr.symm.trans hr'
    cases hst.symm.trans hfl.2
  · have hsto :
        ((restartAsked.step (.dispatch none)).step .completeJobs).units["a.service"]?.all (fun r =>
          r.state == .deactivating && r.controlPid == none && r.loaded.service?.all (fun s =>
            !((restartAsked.step (.dispatch none)).step .completeJobs).exitKeepsActive "a.service" r
              s ⟨10, cldExited, 0⟩)) = true := by decide
    intro r s het hs
    rw [het.record] at hsto
    simp only [all_some, hs, Bool.and_eq_true, beq_iff_eq, Bool.not_eq_true'] at hsto
    exact ⟨hsto.1.1, by simp [hsto.1.2], hsto.2⟩

/-- The first service was stopped for its restart, and the start of the second one came before the
start it is owed. -/
def otherStarted : Manager Script :=
  run step restartAsked [.dispatch none, .submit .start "b.service" none, .drainShared,
    .childExit ⟨10, cldExited, 0⟩, .dispatch none]

/-- The restart is reported done while its start still waits in the queue. -/
theorem restart_done_before_start :
    AllSteps step (fun m e => ¬Activates "a.service" m e) restartAsked [.dispatch none,
        .submit .start "b.service" none, .drainShared, .childExit ⟨10, cldExited, 0⟩,
        .dispatch none, .completeJobs] ∧
      ReportsDone "a.service" otherStarted .completeJobs ∧
      otherStarted.stateOf "a.service" = some .inactive ∧
        restartJob "a.service" ∈ otherStarted.jobQueue.pending := by
  have hother : ((run step restartAsked [.dispatch none, .submit .start "b.service" none,
      .drainShared, .childExit ⟨10, cldExited, 0⟩]).popped none).1 =
        some ⟨3, .start, "b.service"⟩ := by decide
  refine ⟨⟨not_activates_restartAsked, id, id, id, ?_, id, trivial⟩, ?_, by decide, by decide⟩
  · rintro ⟨j, hj, hname, -⟩
    cases hother.symm.trans hj
    exact absurd hname (by decide)
  have hfn : otherStarted.jobRegistry.list.any (fun i => i.state == .running &&
      i.kind == .restart && i.unitName == "a.service" &&
      otherStarted.settledJobResult i.kind i.unitName == some .done) = true := by decide
  obtain ⟨i, hif, hfl⟩ := List.any_eq_true.mp hfn
  simp only [Bool.and_eq_true, beq_iff_eq] at hfl
  exact ⟨i, hif, hfl.1.1.1, hfl.1.1.2, hfl.1.2, hfl.2⟩

end Rustd.Manager
