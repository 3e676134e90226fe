import Rustd.Manager.Stops
import Rustd.Manager.Waiting

/-!
# A stop against earlier restarts

A restart waits in two places: as a marker that is consumed when the main process exits, and as a
timer that queues a start. A stop job clears neither. What it does is to record the request, so
that an exit during the stop leads to no automatic restart.
-/

namespace Rustd.Manager

open Base Service UnitFile Jobs Option

variable {W : Type}

/-- Nothing that would start the unit is waiting. -/
structure Quiet (name : String) (m : Manager W) : Prop where
  jobs : ∀ j ∈ m.queued, j.unitName = name → bringsUp j.kind = false
  marker : name ∉ m.restartPending
  timers : ∀ timer ∈ m.restartTimers, timer.2 ≠ name

def Down (name : String) (m : Manager W) : Prop :=
  ∀ r, m.units[name]? = some r → r.loaded.isService = true → r.phase.stopping ∨ r.phase.settled

variable {name u : String} {m m' : Manager W}

private theorem Queues.quiet (h : Quiet name m)
    (hqueues : Queues (fun j => j.unitName = name → bringsUp j.kind = false) (· ≠ name)
      (fun _ => True) m m') : Quiet name m' := by
  constructor
  · intro j hj hname
    rcases hqueues.queued j hj with hj | hj
    · exact h.jobs j hj hname
    · exact hj hname
  · intro hmarked
    rcases hqueues.marked name hmarked with hmarked | hne
    · exact h.marker hmarked
    · exact hne rfl
  intro t htm
  rcases hqueues.timed t htm with htm | hne
  · exact h.timers t htm
  · exact hne

theorem Down.of_units (hun : m'.units = m.units) (h : Down name m) : Down name m' := by
  intro r hr
  rw [hun] at hr
  exact h r hr

theorem Down.stopping (h : Down name m) (hr : m.units[name]? = some r)
    (hservice : r.loaded.isService = true) (hst : r.state = .deactivating) : r.phase.stopping := by
  rcases h r hr hservice with hsto | hse
  · exact hsto
  · rcases hse with hse | hse <;>
      exact absurd (hse.symm.trans hst) (by decide)

theorem Evolves.down (h : Down name m)
    (hev : Evolves (fun v l p => v = name → keepsStopping l p) m m') : Down name m' := by
  intro r' hr' hservice
  have hke : ∀ p, p.stopping ∨ p.settled →
      Moves (fun l p => name = name → keepsStopping l p) p r'.phase →
        r'.phase.stopping ∨ r'.phase.settled := by
    intro p hp hmo
    exact hmo.invariant (I := fun p => p.stopping ∨ p.settled)
      (fun _ _ _ hp hl hmv => hmv.stopping_or_settled hp (hl rfl)) hp
  cases hr : m.units[name]? with
  | none => exact hke freshPhase (.inr (.inl rfl)) (hev.fresh name r' hr hr' hservice)
  | some r =>
    obtain ⟨r₁, hr₁, hld, hmo⟩ := hev.loaded name r hr
    cases hr₁.symm.trans hr'
    rw [hld] at hservice
    exact hke r.phase (h r hr hservice) (hmo hservice)

section

variable [Kernel W]

/-- The event asks for the unit to be brought up: a request for it, a transaction that pulls it
in, or a job that triggers it. -/
def Requested (name : String) (m : Manager W) : Event → Prop
  | .submit kind other _ => other = name ∧ bringsUp kind = true
  | .startTarget target => name ∈ m.startOrder target
  | .shutdown => name ∈ m.startOrder "shutdown.target"
  | .dispatch score => ∃ j j', (m.popped score).1 = some j ∧ m.JobQueues j j' ∧
      j'.kind = .start ∧ j'.unitName = name
  | _ => False

omit [Kernel W] in
/-- A dispatched job brings the unit up. -/
def BroughtUp (name : String) (m : Manager W) : Event → Prop
  | .dispatch score => ∃ j, (m.popped score).1 = some j ∧ j.unitName = name ∧
      bringsUp j.kind = true
  | _ => False

/-- The requested stop decides what the end of the unit's processes leads to: they exit while the
unit is being stopped, not by an out-of-memory kill and not as a forking starter that succeeds,
and the watchdog does not take over. -/
def StopDecides (name : String) (m : Manager W) : Event → Prop
  | .childExit exit => ∀ r, Exits m exit name r → r.state = .deactivating ∧
      (m.exitAsked name).1 = false ∧ ∀ s, ¬StarterSucceeds m exit name r s
  | .expireWatchdogs => ¬m.WatchdogMissed name
  | _ => True

private theorem down_stopService (name : String) (m : Manager W) (nf : Bool) (r : UnitRecord)
    (hr : m.units[name]? = some r) (hservice : r.loaded.isService = true) :
    Down name (m.stopService name nf) := by
  have hrqs : Down name (m.requestStop name nf) := by
    obtain ⟨r₁, hr₁, -, hmv⟩ := requestStop_makes m name nf r hr hservice
    intro r' hr' _
    cases hr₁.symm.trans hr'
    generalize r₁.phase = q at hmv ⊢
    cases hmv with
    | stopTracked => exact .inl ⟨rfl, rfl⟩
    | stopUntracked _ _ _ hse => exact .inr hse
  have hspp : Tends (.moves fun v l p => v = name → keepsStopping l p)
      (m.requestStop name nf) (m.stopService name nf) :=
    tends_stopService_of_requested m name nf (fun _ _ _ => trivial)
  exact Evolves.down hrqs hspp.evolves

private theorem down_runUnitJob_stop (name : String) (m : Manager W) :
    Down name (m.runUnitJob .stop name).2 := by
  intro r' hr' hsr'
  cases hr : m.units[name]? with
  | none =>
    simp only [runUnitJob, hr] at hr'
    cases hr'
  | some r =>
    have htn : Tends (.moves fun _ _ _ => True) m (m.runUnitJob .stop name).2 :=
      tends_runUnitJob m name .stop (fun _ _ _ _ => trivial) (fun _ => trivial)
        (fun _ _ _ _ => trivial)
    have hservice : r.loaded.isService = true := by
      rw [← htn.loaded_eq hr hr']
      exact hsr'
    obtain ⟨s, hs⟩ := isSome_iff_exists.mp hservice
    simp only [runUnitJob, hr, hs, runServiceJob] at hr'
    exact down_stopService name m _ r hr hservice r' hr' hsr'

structure Stopped (name : String) (m : Manager W) : Prop where
  quiet : Quiet name m
  down : Down name m

variable {name u : String} {m : Manager W} {e : Event}

theorem StopDecides.allows (hm : Stopped name m)
    (hservice : ∀ r, m.units[name]? = some r → r.loaded.isService = true)
      (h : StopDecides name m e) :
    Allows (fun v l p => v = name → keepsStopping l p) m e := by
  apply allows_keepsStopping
  rintro (⟨ex, rfl⟩ | ⟨sc, rfl⟩ | rfl)
  · refine ⟨?_, fun _ _ _ => ⟨fun _ => trivial, fun _ => trivial⟩, ?_⟩
    · intro v r het
      refine ⟨?_, fun _ => trivial⟩
      rintro rfl
      exact hm.down.stopping het.record (hservice r het.record) (h r het).1
    intro v r s het
    refine ⟨?_, fun _ _ => trivial⟩
    rintro rfl
    exact absurd het ((h r het.toExits).2.2 s)
  · rintro j hj v l p ⟨hunt, hla⟩ rfl
    have hkn := hm.quiet.jobs j (m.mem_queued_of_popped sc j hj) hunt.symm
    cases hj : j.kind with
    | start | restart | isolate => simp [hj, bringsUp] at hkn
    | stop =>
      simp only [hj] at hla
      rcases hla with rfl | rfl <;> trivial
    | reload | nop => simp [hj] at hla
  · intro v hmi p
    refine ⟨?_, fun _ => trivial⟩
    rintro rfl
    exact absurd hmi h

private theorem down_step (hm : Stopped name m) (h : StopDecides name m e) :
    Down name (m.step e) := by
  by_cases hservice : ∀ r, m.units[name]? = some r → r.loaded.isService = true
  · exact Evolves.down hm.down (evolves_step m e (h.allows hm hservice))
  -- The unit is no service, and stays what it is.
  push Not at hservice
  obtain ⟨r, hr, hother⟩ := hservice
  have hev : Evolves (fun _ _ _ => True) m (m.step e) :=
    evolves_step m e (allows_of_forall m (fun _ _ _ => trivial) e)
  obtain ⟨r₁, hr₁, hld, -⟩ := hev.loaded name r hr
  intro r' hr' hsr'
  cases hr₁.symm.trans hr'
  rw [hld] at hsr'
  exact absurd hsr' hother

theorem StopDecides.covers (hm : Stopped name m) (h : StopDecides name m e)
    (hre : ¬Requested name m e) :
    m.Covers (fun j => j.unitName = name → bringsUp j.kind = false) (· ≠ name)
      (fun _ => True) e := by
  cases e with
  | submit k v o =>
    intro id hname
    rw [← Bool.not_eq_true]
    exact fun hkn => hre ⟨hname, hkn⟩
  | startTarget t =>
    rintro id v hother rfl
    exact absurd hother hre
  | shutdown =>
    refine ⟨fun v _ => rfl, ?_⟩
    rintro v hother rfl
    exact absurd hother hre
  | resetFailed ns => exact fun _ _ => trivial
  | childExit ex =>
    refine ⟨?_, fun _ _ _ _ _ => trivial⟩
    intro v r het hrt
    suffices hne : v ≠ name from ⟨fun hname => absurd hname hne, hne⟩
    rintro rfl
    obtain ⟨hst, hoom, -⟩ := h r het
    rcases hrt with hmarked | ⟨hnot, s, res, hs, -⟩
    · exact hm.quiet.marker hmarked
    have hservice : r.loaded.isService = true := by rw [LoadedUnit.isService, hs]; rfl
    have hrqs : r.stopRequested = true := (hm.down.stopping het.record hservice hst).2
    simp [hrqs, hoom] at hnot
  | cgroupEmpty v =>
    intro hrt
    suffices hne : v ≠ name from ⟨fun hname => absurd hname hne, hne⟩
    rintro rfl
    obtain ⟨r, s, hr, hs, -, -, hrn, -⟩ := hrt
    have hservice : r.loaded.isService = true := by rw [LoadedUnit.isService, hs]; rfl
    rcases hm.down r hr hservice with ⟨hst, -⟩ | hst | hst <;>
      simp [phase_state] at hst <;> simp [hst] at hrn
  | dispatch sc =>
    intro j hj
    have hkn := hm.quiet.jobs j (m.mem_queued_of_popped sc j hj)
    refine ⟨?_, ?_⟩
    · intro hrest
      refine ⟨?_, trivial⟩
      intro hname
      have hnot := hkn hname
      rw [hrest] at hnot
      cases hnot
    · intro j' hqueues hname
      rcases hqueues.kind with hstr | hstp
      · exact absurd ⟨j, j', hj, hqueues, hstr, hname⟩ hre
      · rw [hstp]
        rfl
  | restartTimer so =>
    rintro v htm rfl
    exact absurd rfl (hm.quiet.timers (so, v) htm)
  | _ => trivial

omit [Kernel W] in
theorem Quiet.before (h : Quiet name m) (e : Event) : Quiet name (m.before e) := by
  refine ⟨fun j hj => h.jobs j (m.queued_before e j hj), ?_, ?_⟩
  · cases e <;> exact h.marker
  · cases e <;> exact h.timers

private theorem stopped_step (m : Manager W) (e : Event) (hm : Stopped u m)
    (h : ¬Requested u m e ∧ StopDecides u m e) : Stopped u (m.step e) ∧ ¬BroughtUp u m e := by
  refine ⟨⟨?_, down_step hm h.2⟩, ?_⟩
  · exact Queues.quiet (hm.quiet.before e) (queues_step m e (h.2.covers hm h.1))
  intro hup
  cases e with
  | dispatch s =>
    obtain ⟨j, hj, hname, hkn⟩ := hup
    rw [hm.quiet.jobs j (m.mem_queued_of_popped s j hj) hname] at hkn
    cases hkn
  | _ => exact hup

/-- A dispatched stop job leaves its unit stopped, if nothing else that waits is going to start
it. -/
theorem stopped_dispatch_stop (m : Manager W) (sc : Option (Nat → Job → Score)) (j : Job)
    (hj : (m.popped sc).1 = some j) (hstp : j.kind = .stop) (hname : j.unitName = name)
    (hqt : Quiet name (m.afterPop sc)) : Stopped name (m.dispatch sc) := by
  constructor
  · apply Queues.quiet hqt
    apply queues_step m (.dispatch sc)
    intro j₁ hj₁
    cases hj.symm.trans hj₁
    refine ⟨?_, ?_⟩
    · intro h
      rw [hstp] at h
      cases h
    · intro j' hqueues
      simp [JobQueues, hstp] at hqueues
  · rw [dispatch_eq, hj]
    refine Evolves.down (Down.of_units ?_ (down_runUnitJob_stop name (m.executing sc j)))
      (tends_releaseIdleServicesAfterDispatch (P := .moves _) _).evolves
    rw [m.runReadyJob_popped sc j hj, units_recordJob, executeJob, hstp, if_neg (by decide),
      hname, runJob]

/-- Once a stop job of a unit was dispatched while nothing else was going to start it, the manager
runs no job that brings the unit up until that is requested, as long as the stop decides what
the end of its processes leads to. -/
theorem stop_wins (m : Manager W) (name : String) (score : Option (Nat → Job → Score)) (j : Job)
    (hj : (m.popped score).1 = some j) (hstop : j.kind = .stop) (hname : j.unitName = name)
    (hquiet : Quiet name (m.afterPop score)) (events : List Event)
    (hevents : AllSteps step (fun m e => ¬Requested name m e ∧ StopDecides name m e)
      (m.dispatch score) events) :
    AllSteps step (fun m e => ¬BroughtUp name m e) (m.dispatch score) events :=
  allSteps_of_invariant stopped_step _ events
    (stopped_dispatch_stop m score j hj hstop hname hquiet) hevents

end

def stopWaiting (earlier : List Event) : Manager Script :=
  run step (Manager.new (oneService
    { restart := .always, execStart := [⟨"/bin/a", [], false⟩] }) {} none)
    (runNow .start ++ earlier ++ [.submit .stop "a.service" none, .drainShared])

theorem stop_wins_running :
    AllSteps step (fun m e => ¬BroughtUp "a.service" m e) ((stopWaiting []).dispatch none)
      [.childExit ⟨10, cldExited, 0⟩, .drainShared, .dispatch none] := by
  have hpo : ((stopWaiting []).popped none).1 = some ⟨2, .stop, "a.service"⟩ := by decide
  have hqt : Quiet "a.service" ((stopWaiting []).afterPop none) := by
    have hqd : ((stopWaiting []).afterPop none).queued = [] := by decide
    have hts : ((stopWaiting []).afterPop none).restartTimers = [] := by decide
    constructor
    · simp [hqd]
    · decide
    · simp [hts]
  apply stop_wins (stopWaiting []) "a.service" none _ hpo rfl rfl hqt
  refine ⟨⟨id, ?_⟩, ⟨id, trivial⟩, ⟨?_, trivial⟩, trivial⟩
  · have hsto : ((stopWaiting []).dispatch none).units["a.service"]?.all (fun r =>
        r.state == .deactivating && r.controlPid == none) = true := by decide
    intro r het
    rw [het.record, all_some, Bool.and_eq_true, beq_iff_eq, beq_iff_eq] at hsto
    refine ⟨hsto.1, by decide, ?_⟩
    intro s hst
    cases hsto.2.symm.trans hst.control
  · have hnn : ((run step ((stopWaiting []).dispatch none)
        [.childExit ⟨10, cldExited, 0⟩, .drainShared]).popped none).1 = none := by decide
    rintro ⟨j, j', hj, -⟩
    cases hnn.symm.trans hj

def stoppedInVain : Manager Script := (stopWaiting [.childExit ⟨10, cldExited, 0⟩]).dispatch none

private theorem popped_stoppedInVain :
    ((run step stoppedInVain [.restartTimer 1, .drainShared]).popped none).1 =
      some ⟨0, .start, "a.service"⟩ := by decide

/-- The timer starts the service again after the stop job, though nobody asked for it. -/
theorem scheduled_restart_survives_stop :
    ((stopWaiting [.childExit ⟨10, cldExited, 0⟩]).popped none).1 =
        some ⟨2, .stop, "a.service"⟩ ∧
      stoppedInVain.stateOf "a.service" = some .inactive ∧
      AllSteps step (fun m e => ¬Requested "a.service" m e) stoppedInVain
        [.restartTimer 1, .drainShared, .dispatch none] ∧
      (run step stoppedInVain [.restartTimer 1, .drainShared, .dispatch none]).stateOf
        "a.service" = some .active ∧
      ¬AllSteps step (fun m e => ¬BroughtUp "a.service" m e) stoppedInVain
        [.restartTimer 1, .drainShared, .dispatch none] := by
  refine ⟨by decide, by decide, ⟨id, id, ?_, trivial⟩, by decide, ?_⟩
  · rintro ⟨j, j', hj, hqueues, -⟩
    cases popped_stoppedInVain.symm.trans hj
    obtain ⟨-, r, un, p, hr, hpth, -⟩ := hqueues
    have hservice : ((run step stoppedInVain [.restartTimer 1, .drainShared]).loadUnit
        "a.service").2.units["a.service"]?.all (·.loaded.isService) = true := by decide
    have hsr' := (Option.all_eq_true _ _).mp hservice r hr
    rw [hpth] at hsr'
    cases hsr'
  · rintro ⟨-, -, hup, -⟩
    exact hup ⟨_, popped_stoppedInVain, rfl, rfl⟩

/-- A requested restart that waits for the old processes survives a stop job as well. -/
example : (run step (stopWaiting (runNow .restart)) [.dispatch none,
    .childExit ⟨10, cldKilled, sigterm⟩, .dispatch none]).stateOf "a.service" = some .active := by
  decide

end Rustd.Manager
