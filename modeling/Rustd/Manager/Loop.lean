import Rustd.Jobs.Dispatch
import Rustd.Manager.Exits

/-!
# The manager loop

The events that the loop of `src/manager.rs:508–690` handles, one step for each, and what a
step can do to the units. A turn of the loop is a run of such steps.
-/

namespace Rustd.Manager

open Base Service UnitFile Jobs List

/-- What the loop reacts to. -/
inductive Event where
  /-- A job request of a client. -/
  | submit (kind : JobKind) (name : String) (owner : Option String)
  | drainShared
  | startTarget (target : String)
  | shutdown
  | loadUnit (name : String)
  | resetFailed (names : List String)
  | oom (name : String)
  | childExit (exit : ChildExit)
  | cgroupEmpty (name : String)
  | retryPidFiles
  | timeout (event : TimeoutEvent)
  /-- A datagram, attributed to a unit. -/
  | notify (event : NotifyEvent)
  | dbusReady (name : String)
  | expireWatchdogs
  /-- One ready job is dispatched, by score if there is one. -/
  | dispatch (score : Option (Nat → Job → Score))
  | activateTargets
  | completeJobs
  | restartTimer (source : Nat)

variable {W : Type} [Kernel W] (m : Manager W) (score : Option (Nat → Job → Score))

omit [Kernel W] in
/-- A job request joins the shared queue. -/
def submit (kind : JobKind) (name : String) (owner : Option String) : Manager W :=
  match m.sharedQueue.enqueueOwned m.jobRegistry kind name owner with
  | some (_, queue, registry) => { m with sharedQueue := queue, jobRegistry := registry }
  | none => m

/-- Load the unit of a shared job and move the job over. -/
def takeShared (job : Job) : Manager W :=
  let m := (m.loadUnit job.unitName).2
  { m with jobQueue := m.jobQueue.pushExisting m.jobRegistry job }

/-- Move the shared jobs to the main queue. -/
def drainShared : Manager W :=
  (m.sharedQueue.retain m.jobRegistry).pending.foldl takeShared { m with sharedQueue := .empty }

/-- Part of `Manager::run_inner`, `src/manager.rs:508`. -/
def dispatch : Manager W :=
  let registry := m.jobRegistry.refreshOrdering m.afters
  let popped := match score with
    | some score => m.jobQueue.popReadyBy registry m.states m.afters score
    | none => m.jobQueue.popReady registry m.states m.afters
  { m with jobRegistry := registry, jobQueue := popped.2 }.runReadyJobs popped.1.toList

/-- The job that the loop takes from the main queue, and the queue without it. -/
def popped : Option Job × JobQueue :=
  match score with
  | some score => m.jobQueue.popReadyBy (m.jobRegistry.refreshOrdering m.afters) m.states m.afters
      score
  | none => m.jobQueue.popReady (m.jobRegistry.refreshOrdering m.afters) m.states m.afters

/-- The manager when a job has been taken. -/
def afterPop : Manager W :=
  { m with
    jobRegistry := m.jobRegistry.refreshOrdering m.afters
    jobQueue := (m.popped score).2 }

/-- Part of `Manager::run_inner`, `src/manager.rs:508`. -/
def step : Event → Manager W
  | .submit kind name owner => m.submit kind name owner
  | .drainShared => m.drainShared
  | .startTarget target => (m.enqueueStart target).2
  | .shutdown => m.beginShutdownTransaction
  | .loadUnit name => (m.loadUnit name).2
  | .resetFailed names => m.resetFailed names
  | .oom name => m.applyOomEvent name
  | .childExit exit => m.applyChildExit exit
  | .cgroupEmpty name => m.applyCgroupEmpty name
  | .retryPidFiles => m.retryPendingForkingPidFiles
  | .timeout event => m.applyServiceTimeoutEvent event
  | .notify event => m.applyNotifyEvent event
  | .dbusReady name => m.applyDbusReady name
  | .expireWatchdogs => m.expireWatchdogs
  | .dispatch score => m.dispatch score
  | .activateTargets => m.activateTargets
  | .completeJobs => m.completeRunningJobs
  | .restartTimer source => m.restartTimerFired source

/-- The lifecycle moves an event can lead to are allowed. -/
def Allows (guard : String → Label → Phase → Prop) (m : Manager W) : Event → Prop
  | .resetFailed names =>
    ∀ name ∈ m.resetNames names, ∀ r, m.units[name]? = some r → ∀ p, p.tracked = r.tracked →
      (p.state = .deactivating → r.state = .deactivating) → guard name .reset p
  | .oom name => ∀ p, guard name .oom p ∧ guard name .stop p ∧ guard name .abandon p
  | .childExit exit =>
    (∀ name r, Exits m exit name r → guard name (.mainExit exit) r.phase ∧
        guard name .starterFailed r.phase) ∧
      (∀ name, m.ownerOf exit.pid = some name → ∀ p, guard name .oomExit p ∧ guard name .limit p) ∧
        ∀ name r s, StarterSucceeds m exit name r s → guard name .starterAdopted r.phase ∧
          (s.pidFile ≠ "" → guard name .starterWaiting r.phase)
  | .cgroupEmpty name => ∀ p, guard name .emptied p ∧ guard name .abandon p ∧ guard name .limit p
  | .retryPidFiles => ∀ name p, p.state = .activating → guard name .pidFile p
  | .timeout event =>
    (m.stateOf event.unitName = some .activating → ∀ p, guard event.unitName .deadline p) ∧
      (∀ p, guard event.unitName .overdue p) ∧
        (m.timeoutMisses event = true → ∀ p, guard event.unitName .abandon p)
  | .notify event =>
    (∀ pid p, guard event.unitName (.mainPid pid) p) ∧ (∀ p, guard event.unitName .ready p) ∧
      ∀ r, m.units[event.unitName]? = some r → announcesStop r event.message = true →
        guard event.unitName .announce { r.phase with main := mainAfter r event.message } ∧
          ∀ p, guard event.unitName .abandon p
  | .dbusReady name => ∀ p, guard name .ready p
  | .expireWatchdogs => ∀ name, m.WatchdogMissed name → ∀ p, guard name .watchdog p ∧
      guard name .abandon p
  | .dispatch score => ∀ j, (m.popped score).1 = some j → ∀ name l p,
      JobMoves j.kind j.unitName name l p → guard name l p
  | .submit _ _ _ | .drainShared | .startTarget _ | .shutdown | .loadUnit _ | .activateTargets
  | .completeJobs | .restartTimer _ => True

/-- The event does not concern the given unit: it is about another one, or about units that
wait for a PID file or miss their watchdog deadline while the given one does not. -/
def Elsewhere (name : String) (m : Manager W) : Event → Prop
  | .resetFailed names => name ∉ m.resetNames names
  | .oom other | .cgroupEmpty other | .dbusReady other => other ≠ name
  | .timeout event => event.unitName ≠ name
  | .notify event => event.unitName ≠ name
  | .childExit exit => m.ownerOf exit.pid ≠ some name
  | .dispatch score => ∀ j, (m.popped score).1 = some j → j.unitName ≠ name
  | .retryPidFiles => m.stateOf name ≠ some .activating
  | .expireWatchdogs => ¬m.WatchdogMissed name
  | .submit _ _ _ | .drainShared | .startTarget _ | .shutdown | .loadUnit _ | .activateTargets
  | .completeJobs | .restartTimer _ => True

def before : Event → Manager W
  | .dispatch score => m.afterPop score
  | _ => m

def Covers (job : Job → Prop) (unit lost : String → Prop) : Event → Prop
  | .submit kind name _ => ∀ id, job ⟨id, kind, name⟩
  | .startTarget target => ∀ id, ∀ other ∈ m.startOrder target, job ⟨id, .start, other⟩
  | .shutdown => (∀ other, job ⟨0, .stop, other⟩) ∧
      ∀ other ∈ m.startOrder "shutdown.target", job ⟨0, .start, other⟩
  | .childExit exit => (∀ name r, Exits m exit name r → m.RestartsOnExit name r exit →
        job ⟨0, .start, name⟩ ∧ unit name) ∧
      ∀ name r, Exits m exit name r → r.controlPid ≠ some exit.pid → name ∈ m.restartPending →
        lost name
  | .resetFailed names => ∀ name ∈ m.resetNames names, lost name
  | .cgroupEmpty name => m.RestartsOnEmpty name → job ⟨0, .start, name⟩ ∧ unit name
  | .dispatch score => ∀ j, (m.popped score).1 = some j →
      (j.kind = .restart → unit j.unitName ∧ lost j.unitName) ∧ ∀ j', m.JobQueues j j' → job j'
  | .restartTimer source => ∀ name, (source, name) ∈ m.restartTimers → job ⟨0, .start, name⟩
  | _ => True

def lifts : Event → String → Prop
  | .shutdown => (· = "shutdown.target")
  | .dispatch score => fun name => ∃ j, (m.popped score).1 = some j ∧ j.unitName = name ∧
      bringsUp j.kind = true
  | .activateTargets => (· ∈ m.unitsIn [.activating])
  | _ => fun _ => False

section

variable {P : Permits} (m : Manager W) (score : Option (Nat → Job → Score)) (name : String)
  (e : Event)

omit [Kernel W] in
private theorem tends_submit (k : JobKind) (name : String) (o : Option String)
    (h : ∀ id, P.job ⟨id, k, name⟩) : Tends P m (m.submit k name o) := by
  simp only [submit, JobQueue.enqueueOwned, JobRegistry.allocate]
  split
  · next halc =>
    split at halc
    · cases halc
      exact Tends.of_queues rfl (Queues.pushShared _ (h _) rfl rfl rfl (fun _ htm => htm))
        (fun _ _ hsc => .inl hsc)
    · cases halc
  · exact Tends.refl m

private theorem tends_foldl_takeShared (jo : List Job) (h : ∀ j ∈ jo, P.job j) :
    Tends P m (jo.foldl takeShared m) := by
  apply Tends.foldl
  intro m j hj
  apply (tends_loadUnit m j.unitName).trans
  simp only [takeShared, JobQueue.pushExisting]
  split
  · exact Tends.of_queues rfl (Queues.push j (h j hj) rfl rfl rfl rfl) (fun _ _ hsc => .inl hsc)
  · exact Tends.refl _

private theorem tends_drainShared : Tends P m m.drainShared := by
  have hmo : Tends { P with job := (· ∈ m.sharedQueue.pending) } { m with sharedQueue := .empty }
      m.drainShared :=
    tends_foldl_takeShared _ _ (fun j hj => ((JobQueue.mem_retain j).mp hj).1)
  refine ⟨hmo.loaded, hmo.fresh, ⟨hmo.queues.kept, ?_, hmo.queues.marked,
    hmo.queues.timed, hmo.queues.unmarked⟩, hmo.timed⟩
  intro j hj
  rcases hmo.queues.queued j hj with hj | hj
  · rcases mem_append.mp hj with hj | hj
    · exact .inl (mem_append_left _ hj)
    · cases hj
  · exact .inl (mem_append_right _ hj)

theorem dispatch_eq :
    m.dispatch score = match (m.popped score).1 with
      | none => (m.afterPop score).releaseIdleServicesAfterDispatch
      | some j => ((m.afterPop score).runReadyJob j).releaseIdleServicesAfterDispatch := by
  have hdi : m.dispatch score =
      (m.afterPop score).runReadyJobs (m.popped score).1.toList := by
    cases score <;> rfl
  rw [hdi]
  cases (m.popped score).1 <;> rfl

private theorem tends_dispatch (h : ∀ j, (m.popped score).1 = some j → Admits P m j) :
    Tends P (m.afterPop score) (m.dispatch score) := by
  rw [dispatch_eq]
  split
  · exact tends_releaseIdleServicesAfterDispatch _
  rename_i j hj
  have had : Admits P (m.afterPop score) j := (h j hj).congr rfl rfl
  exact (tends_runReadyJob _ j had).trans (tends_releaseIdleServicesAfterDispatch _)

omit [Kernel W] in
private theorem tends_restartTimerFired (s : Nat)
    (h : ∀ name, (s, name) ∈ m.restartTimers → P.job ⟨0, .start, name⟩) :
    Tends P m (m.restartTimerFired s) := by
  unfold restartTimerFired
  split
  · exact Tends.refl m
  rename_i timer hfn
  have hsc := find?_some hfn
  rw [beq_iff_eq] at hsc
  have hmem := mem_of_find?_eq_some hfn
  refine Tends.of_queues rfl (Queues.pushShared ⟨0, .start, timer.2⟩ (h timer.2 ?_) rfl rfl rfl
    fun _ hother => mem_of_mem_erase hother)
    (fun _ _ hother => .inl (mem_of_mem_erase hother))
  rw [← hsc]
  exact hmem

theorem tends_step (hmo : Allows P.move m e) (hrss : ∀ name, m.lifts e name → P.rise name)
    (hqueues : m.Covers P.job P.unit P.lost e) : Tends P (m.before e) (m.step e) := by
  cases e with
  | submit k name o => exact tends_submit m k name o hqueues
  | drainShared => exact tends_drainShared m
  | startTarget t => exact tends_enqueueStart m t hqueues
  | shutdown => exact tends_beginShutdownTransaction m (hrss _ rfl) hqueues.1 hqueues.2
  | loadUnit name => exact tends_loadUnit m name
  | resetFailed ns => exact tends_resetFailed m ns hmo hqueues
  | oom name =>
    exact tends_applyOomEvent m name (fun p => (hmo p).1) (fun p => (hmo p).2.1)
      (fun _ p => (hmo p).2.2)
  | childExit ex =>
    exact tends_applyChildExit m ex hmo.1 hmo.2.1 hmo.2.2 hqueues.1 hqueues.2
  | cgroupEmpty name => exact tends_applyCgroupEmpty m name hmo hqueues
  | retryPidFiles => exact tends_retryPendingForkingPidFiles m hmo
  | timeout ev => exact tends_applyServiceTimeoutEvent m ev hmo.1 hmo.2.1 hmo.2.2
  | notify ev => exact tends_applyNotifyEvent m ev hmo.1 hmo.2.1 hmo.2.2
  | dbusReady name => exact tends_applyDbusReady m name hmo
  | expireWatchdogs =>
    exact tends_expireWatchdogs m (fun name hmi p => (hmo name hmi p).1)
      (fun _ name hmi p => (hmo name hmi p).2)
  | dispatch score =>
    refine tends_dispatch m score fun j hj => ⟨hmo j hj, ?_, (hqueues j hj).1, (hqueues j hj).2⟩
    exact fun hup => hrss _ ⟨j, hj, rfl, hup⟩
  | activateTargets => exact tends_activateTargets m hrss
  | completeJobs => exact tends_completeRunningJobs m
  | restartTimer s => exact tends_restartTimerFired m s hqueues

variable {guard : String → Label → Phase → Prop}

theorem allows_of_forall (h : ∀ name l p, guard name l p) (e : Event) : Allows guard m e := by
  cases e <;> simp [Allows, h]

omit [Kernel W] in
theorem units_before : (m.before e).units = m.units := by
  cases e <;> rfl

theorem evolves_step (h : Allows guard m e) : Evolves guard m (m.step e) := by
  have htn : Tends (.moves guard) (m.before e) (m.step e) := by
    refine tends_step m e h (fun _ _ => trivial) ?_
    cases e <;> simp [Covers, Permits.moves]
  exact htn.evolves.after_units (units_before m e)

theorem queues_step {job : Job → Prop} (h : m.Covers job un l e) :
    Queues job un l (m.before e) (m.step e) :=
  (tends_step (P := ⟨fun _ _ _ => True, fun _ => True, job, un, l⟩) m e
    (allows_of_forall m (fun _ _ _ => trivial) e) (fun _ _ => trivial) h).queues

variable {m} in
/-- An event elsewhere moves other services only. -/
private theorem Elsewhere.allows {name : String} {e : Event} (h : Elsewhere name m e) :
    Allows (fun v _ p => v = name →
      p.state = .activating ∧ m.stateOf name ≠ some .activating) m e := by
  cases e with
  | resetFailed ns =>
    rintro v hother r - p - - rfl
    exact absurd hother h
  | oom v | cgroupEmpty v =>
    exact fun _ => ⟨fun hname => absurd hname h, fun hname => absurd hname h, fun hname => absurd
      hname h⟩
  | dbusReady v => exact fun _ hname => absurd hname h
  | timeout ev =>
    exact ⟨fun _ _ hname => absurd hname h, fun _ hname => absurd hname h, fun _ _ hname => absurd
      hname h⟩
  | notify ev =>
    exact ⟨fun _ _ hname => absurd hname h, fun _ hname => absurd hname h,
      fun _ _ _ => ⟨fun hname => absurd hname h, fun _ hname => absurd hname h⟩⟩
  | childExit ex =>
    have hor : ∀ v, m.ownerOf ex.pid = some v → v ≠ name := by
      rintro v hother rfl
      exact h hother
    refine ⟨?_, ?_, ?_⟩
    · intro v r het
      exact ⟨fun hname => absurd hname (hor v het.owner), fun hname => absurd hname
        (hor v het.owner)⟩
    · intro v hother p
      exact ⟨fun hname => absurd hname (hor v hother), fun hname => absurd hname (hor v hother)⟩
    intro v r s het
    exact ⟨fun hname => absurd hname (hor v het.owner), fun _ hname => absurd hname
      (hor v het.owner)⟩
  | dispatch score =>
    rintro j hj v l p ⟨hunt, -⟩ hname
    exact absurd (hunt.symm.trans hname) (h j hj)
  | retryPidFiles => exact fun v p hp _ => ⟨hp, h⟩
  | expireWatchdogs =>
    intro v hmi p
    have hne : v ≠ name := by
      rintro rfl
      exact h hmi
    exact ⟨fun hname => absurd hname hne, fun hname => absurd hname hne⟩
  | submit | drainShared | startTarget | shutdown | loadUnit | activateTargets | completeJobs
  | restartTimer => trivial

theorem phase_step_of_elsewhere (r : UnitRecord) (h : Elsewhere name m e)
    (hr : m.units[name]? = some r) (hservice : r.loaded.isService = true) :
    ∃ r', (m.step e).units[name]? = some r' ∧ r'.loaded = r.loaded ∧ r'.phase = r.phase := by
  apply (evolves_step m e h.allows).phase_eq hr hservice
  intro l hl
  have hst := hl rfl
  rw [stateOf, hr] at hst
  exact hst.2 (congrArg some hst.1)

end
end Rustd.Manager
