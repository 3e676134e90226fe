import Rustd.Manager.Loop

/-!
# Stopping services

Two properties of services in state `Deactivating`, over runs of the manager loop: something
is left that ends their stop, and a requested stop is not undone.
-/

namespace Rustd.Service

open Base UnitFile

def Phase.timedOut (p : Phase) : Prop := p.result = .timeout ∨ p.result = .watchdog

def Phase.Awaited (p : Phase) : Prop :=
  p.state = .deactivating → p.tracked = true ∨ p.timedOut

/-- The moves that keep a pending stop awaited: none that gives up the last tracked process of
a stop that has not timed out, or the timeout of one without tracked processes. -/
def keepsAwaited (l : Label) (p : Phase) : Prop :=
  match l with
  | .announce => p.tracked = true
  | .starterWaiting => p.state = .deactivating → p.main.isSome = true ∨ p.timedOut
  | .reset => p.state = .deactivating → p.tracked = true
  | .oom => False
  | _ => True

variable {p q : Phase} {l : Label}

private theorem Phase.settled.awaited (h : p.settled) : p.Awaited := by
  intro hp
  rcases h with h | h <;> exact absurd (h.symm.trans hp) (by decide)

private theorem Move.awaited (h : Move l p q) (hl : keepsAwaited l p) : q.Awaited := by
  intro hq
  cases h with
  | start _ _ _ hne => exact absurd hq hne
  | ready | unready => cases hq
  | stopTracked _ htr => exact .inl htr
  | stopUntracked _ _ _ hse => exact hse.awaited hq
  | announce _ _ => exact .inl hl
  | mainPid _ pid => exact .inl rfl
  | mainExit _ _ ex _ _ _ _ hne _ => exact absurd hq hne
  | starterFailed _ _ _ hfa _ => exact absurd (hfa.symm.trans hq) (by decide)
  | starterAdopted _ ma _ => cases hq
  | starterWaiting _ _ =>
    rcases hl hq with h | h
    · exact .inl (by simp [Phase.tracked, h])
    · exact .inr h
  | pidFile _ _ _ _ hst =>
    rcases hst with h | h <;> exact absurd (h.symm.trans hq) (by decide)
  | deadline | overdue => exact .inr (.inl rfl)
  | watchdog _ hma => exact .inl (by simp [Phase.tracked, hma])
  | abandon _ re => cases hq
  | emptied _ _ _ _ hse => exact hse.awaited hq
  | reset _ =>
    have hst : p.state = .deactivating := by
      simp only at hq
      split at hq
      · cases hq
      · exact hq
    exact .inl (hl hst)
  | oom _ => exact absurd hl id
  | oomExit _ =>
    simp only at hq
    split at hq <;> cases hq
  | limit _ => cases hq

private theorem Moves.awaited (h : Moves keepsAwaited p q) (hp : p.Awaited) : q.Awaited :=
  h.invariant (fun _ _ _ _ hl hmv => hmv.awaited hl) hp

def Phase.stopping (p : Phase) : Prop := p.state = .deactivating ∧ p.stopRequested = true

def keepsStopping (l : Label) (p : Phase) : Prop :=
  match l with
  | .start | .starterAdopted | .watchdog => False
  | .mainExit _ => p.stopping
  | _ => True

theorem Move.stopping_or_settled (h : Move l p q) (hp : p.stopping ∨ p.settled)
    (hl : keepsStopping l p) : q.stopping ∨ q.settled := by
  have hrn : ¬(p.state = .active ∨ p.state = .activating) := by
    rcases hp with ⟨h, -⟩ | h | h <;> simp [h]
  cases h with
  | start | starterAdopted | watchdog => exact absurd hl id
  | ready _ h | unready _ h | deadline _ h | pidFile _ _ h => exact absurd (.inr h) hrn
  | announce _ h | emptied _ _ _ h => exact absurd h hrn
  | stopTracked => exact .inl ⟨rfl, rfl⟩
  | stopUntracked _ _ _ hse => exact .inr hse
  | mainExit _ _ ex _ _ _ _ _ hse => exact .inr (hse hl.1 hl.2)
  | starterFailed _ _ _ hfa => exact .inr (.inr hfa)
  | mainPid | starterWaiting | overdue | oom => exact hp
  | abandon | limit => exact .inr (.inr rfl)
  | reset =>
    rcases hp with ⟨hst, hrqs⟩ | h | h
    · exact .inl ⟨by simp [hst], hrqs⟩
    · exact .inr (.inl (by simp [h]))
    · exact .inr (.inl (by simp [h]))
  | oomExit =>
    have hav : p.state ≠ .active := fun h => hrn (.inl h)
    exact .inr (.inr (by simp [hav]))

def stopMoves (l : Label) (_ : Phase) : Prop := l = .stop ∨ l = .abandon

private theorem Moves.running_or_stopping (h : Moves stopMoves p q)
    (hp : p.state = .active ∨ p.state = .activating) :
    (q.state = .active ∨ q.state = .activating) ∨ q.stopping ∨ q.settled := by
  apply h.invariant (I := fun q => (q.state = .active ∨ q.state = .activating) ∨ q.stopping ∨
    q.settled) _ (.inl hp)
  rintro l a b - (rfl | rfl) hmv
  · cases hmv with
    | stopTracked => exact .inr (.inl ⟨rfl, rfl⟩)
    | stopUntracked _ _ _ hse => exact .inr (.inr hse)
  · cases hmv
    exact .inr (.inr (.inr rfl))

end Rustd.Service

namespace Rustd.Manager

open Base Service UnitFile Jobs Option

variable {W : Type}

def StopsAwaited (m : Manager W) : Prop :=
  ∀ (name : String) (r : UnitRecord), m.units[name]? = some r → r.loaded.isService = true →
    r.phase.Awaited

private theorem Evolves.stopsAwaited (h : Evolves (fun _ => keepsAwaited) m m')
    (hm : m.StopsAwaited) : m'.StopsAwaited := by
  intro u r' hr' hservice
  cases hr : m.units[u]? with
  | none =>
    have hfh : freshPhase.Awaited := Phase.settled.awaited (.inl rfl)
    exact Moves.awaited (h.fresh u r' hr hr' hservice) hfh
  | some r =>
    obtain ⟨r₁, hr₁, hld, hmo⟩ := h.loaded u r hr
    cases hr₁.symm.trans hr'
    rw [hld] at hservice
    exact Moves.awaited (hmo hservice) (hm u r hr hservice)

variable [Kernel W]

/-- The events of an orderly run: no out-of-memory kills, and for a service that is stopping
or is about to, no
* `STOPPING=1` without a tracked process,
* successful exit of a forking starter while the PID file is the only trace of a main process,
* reset-failed request without a tracked process. -/
def Orderly (m : Manager W) : Event → Prop
  | .oom _ => False
  | .notify event => ∀ r, m.units[event.unitName]? = some r →
      announcesStop r event.message = true →
        (mainAfter r event.message).isSome = true ∨ r.controlPid.isSome = true
  | .childExit exit => ∀ name r s, StarterSucceeds m exit name r s → s.pidFile ≠ "" →
      r.state = .deactivating → r.activePid.isSome = true ∨ r.phase.timedOut
  | .resetFailed names => ∀ name ∈ m.resetNames names, ∀ r, m.units[name]? = some r →
      r.state = .deactivating → r.tracked = true
  | _ => True

variable {e : Event} (m : Manager W) (name u : String) (r : UnitRecord)

theorem Orderly.allows {m : Manager W} (h : Orderly m e) : Allows (fun _ => keepsAwaited) m e := by
  cases e with
  | resetFailed ns =>
    intro name hname r hr p htr hst hp
    rw [htr]
    exact h name hname r hr (hst hp)
  | oom name => exact absurd h id
  | childExit ex =>
    refine ⟨fun _ _ _ => ⟨trivial, trivial⟩, fun _ _ _ => ⟨trivial, trivial⟩, ?_⟩
    intro name r s het
    exact ⟨trivial, h name r s het⟩
  | notify ev =>
    refine ⟨fun _ _ => trivial, fun _ => trivial, ?_⟩
    intro r hr ha
    refine ⟨?_, fun _ => trivial⟩
    simpa [keepsAwaited, Phase.tracked] using h r hr ha
  | cgroupEmpty name => exact fun _ => ⟨trivial, trivial, trivial⟩
  | retryPidFiles => exact fun _ _ _ => trivial
  | timeout ev => exact ⟨fun _ _ => trivial, fun _ => trivial, fun _ _ => trivial⟩
  | dbusReady name => exact fun _ => trivial
  | expireWatchdogs => exact fun _ _ _ => ⟨trivial, trivial⟩
  | dispatch sc =>
    intro j _ name l p hmo
    rcases hmo.label with rfl | rfl | rfl <;> exact trivial
  | submit | drainShared | startTarget | shutdown | loadUnit | activateTargets | completeJobs
  | restartTimer => trivial

private theorem stopsAwaited_step (e : Event) (hm : m.StopsAwaited) (h : Orderly m e) :
    (m.step e).StopsAwaited :=
  (evolves_step m e h.allows).stopsAwaited hm

omit [Kernel W] in
private theorem stopsAwaited_new (w : W) (cfg : Config) (nf : Option NotifyState) :
    (Manager.new w cfg nf).StopsAwaited := by
  intro name r hr
  simp [Manager.new] at hr

private theorem onCgroupEmpty_of_timedOut (s : ServiceSection) (r : UnitRecord) (nf cg : Bool)
    (w : W) (hs : r.loaded.service? = some s) (hst : r.state = .deactivating)
    (htr : r.tracked = false) (h : r.phase.timedOut) : (onCgroupEmpty name r nf cg w).1 = false ∧
      (onCgroupEmpty name r nf cg w).2.1.state = .failed := by
  have hservice : onServiceCgroupEmpty name r nf cg w = (false, r, w) := by
    simp [onServiceCgroupEmpty, hs, hst]
  have hti : onTimeoutCgroupEmpty name r nf cg w =
      (true, finishTimeoutFailure name r r.serviceResult nf cg w) := by
    simp only [onTimeoutCgroupEmpty]
    rw [if_neg]
    push Not
    exact ⟨hst, by simp [htr], h⟩
  simp only [onCgroupEmpty, hservice, hti, Bool.false_eq_true, if_false, if_true, true_and]
  obtain ⟨-, hmv⟩ := finishTimeoutFailure_makes name s r nf cg w r.serviceResult hs
  generalize (finishTimeoutFailure name r r.serviceResult nf cg w).1 = r' at hmv
  rw [← phase_state]
  generalize r'.phase = q at hmv
  cases hmv
  rfl

/-- The event that its cgroup is empty settles a timed out service without tracked
processes. -/
theorem stateOf_applyCgroupEmpty_of_timedOut (hr : m.units[name]? = some r)
    (hservice : r.loaded.isService = true) (hst : r.state = .deactivating)
    (htr : r.tracked = false) (h : r.phase.timedOut) :
    (m.applyCgroupEmpty name).stateOf name = some .failed := by
  obtain ⟨s, hs⟩ := isSome_iff_exists.mp hservice
  obtain ⟨hfls, hfa⟩ := onCgroupEmpty_of_timedOut name s r m.notify.isSome
    (m.ask (Kernel.procsExist · name)).1
    (m.ask (Kernel.procsExist · name)).2.world
    hs hst htr h
  have hak : (m.ask (Kernel.procsExist · name)).2.units[name]? = some r := hr
  simp only [applyCgroupEmpty, Manager.apply, hak, hfls, stateOf, units_cleanupUnitCgroupIfEmpty]
  simpa using hfa

/-- In an orderly run every service in state `Deactivating` has a tracked process left, or has
timed out and fails with the event that its cgroup is empty. -/
theorem deactivating_service_awaited (w : W) (config : Config) (notify : Option NotifyState)
    (events : List Event)
    (horderly : AllSteps step Orderly (Manager.new w config notify) events) (name : String)
    (r : UnitRecord) (hr : (run step (Manager.new w config notify) events).units[name]? = some r)
    (hservice : r.loaded.isService = true) (hstate : r.state = .deactivating) :
    r.tracked = true ∨ (r.serviceResult = .timeout ∨ r.serviceResult = .watchdog) ∧
      ((run step (Manager.new w config notify) events).applyCgroupEmpty name).stateOf name =
        some .failed := by
  have hinv : (run step (Manager.new w config notify) events).StopsAwaited :=
    run_invariant stopsAwaited_step _ events (stopsAwaited_new w config notify) horderly
  cases htr : r.tracked with
  | true => exact .inl rfl
  | false =>
    rcases hinv name r hr hservice hstate with h | h
    · rw [phase_tracked, htr] at h
      cases h
    · exact .inr ⟨h, stateOf_applyCgroupEmpty_of_timedOut _ name r hr hservice hstate htr h⟩

def oneService (s : ServiceSection) : Script :=
  { units := fun name => if name = "a.service" then some (.service {} s) else none
    spawned := fun _ => some 10
    populated := true
    members := 1 }

def runNow (kind : JobKind) : List Event :=
  [.submit kind "a.service" none, .drainShared, .dispatch none]

theorem deactivating_service_awaited_stopJob :
    let m := run step (Manager.new (oneService { execStart := [⟨"/bin/a", [], false⟩] }) {} none)
      (runNow .start ++ runNow .stop)
    ∃ r, m.units["a.service"]? = some r ∧ r.state = .deactivating ∧
      (r.tracked = true ∨ (r.serviceResult = .timeout ∨ r.serviceResult = .watchdog) ∧
        (m.applyCgroupEmpty "a.service").stateOf "a.service" = some .failed) := by
  intro m
  have hsto : m.units["a.service"]?.any
      (fun r => r.loaded.isService && r.state == .deactivating) = true := by decide
  obtain ⟨r, hr, h⟩ := (Option.any_eq_true _ _).mp hsto
  have hst : r.state = .deactivating := eq_of_beq (Bool.and_eq_true_iff.mp h).2
  refine ⟨r, hr, hst, ?_⟩
  exact deactivating_service_awaited _ _ _ _ (by simp [runNow, AllSteps, Orderly]) "a.service" r hr
    (Bool.and_eq_true_iff.mp h).1 hst

/-- The start deadline of a forking service that waits for its PID file kills what is in the
cgroup: no process is tracked and no timer is armed. -/
theorem start_deadline_leaves_no_timer :
    let m := run step (Manager.new (oneService
      { serviceType := .forking
        pidFile := "/run/a.pid"
        execStart := [⟨"/bin/a", [], false⟩]
        timeoutStartFailureMode := .kill }) {} none)
      (runNow .start ++ [.childExit ⟨10, cldExited, 0⟩, .timeout ⟨"a.service", .start, 1⟩])
    m.units["a.service"]?.map (fun r => (r.loaded.isService, r.state, r.activePid, r.controlPid)) =
        some (true, .deactivating, none, none) ∧
      m.stopTimeouts["a.service"]? = none ∧ m.startTimeouts["a.service"]? = none := by
  decide

def ServiceIn (phase : Phase → Prop) (name : String) (m : Manager W) : Prop :=
  ∃ r, m.units[name]? = some r ∧ r.loaded.isService = true ∧ phase r.phase

/-- The events that do not undo the requested stop of a service: no jobs, reset requests or
watchdog deadlines, and no successful exit of its forking starter. -/
def StopRespected (name : String) (m : Manager W) : Event → Prop
  | .childExit exit => ∀ r s, StarterSucceeds m exit name r s → r.state ≠ .deactivating
  | .dispatch _ | .resetFailed _ | .expireWatchdogs => False
  | _ => True

/-- Exits, jobs and watchdogs are the events that can undo a stop. -/
theorem allows_keepsStopping {name : String} {m : Manager W}
    (h : (∃ ex, e = .childExit ex) ∨ (∃ s, e = .dispatch s) ∨ e = .expireWatchdogs →
      Allows (fun v l p => v = name → keepsStopping l p) m e) :
    Allows (fun v l p => v = name → keepsStopping l p) m e := by
  cases e with
  | childExit ex => exact h (.inl ⟨ex, rfl⟩)
  | dispatch s => exact h (.inr (.inl ⟨s, rfl⟩))
  | expireWatchdogs => exact h (.inr (.inr rfl))
  | resetFailed ns => exact fun _ _ _ _ _ _ _ _ => trivial
  | oom v => exact fun _ => ⟨fun _ => trivial, fun _ => trivial, fun _ => trivial⟩
  | notify ev =>
    exact ⟨fun _ _ _ => trivial, fun _ _ => trivial,
      fun _ _ _ => ⟨fun _ => trivial, fun _ _ => trivial⟩⟩
  | cgroupEmpty v => exact fun _ => ⟨fun _ => trivial, fun _ => trivial, fun _ => trivial⟩
  | retryPidFiles => exact fun _ _ _ _ => trivial
  | timeout ev => exact ⟨fun _ _ _ => trivial, fun _ _ => trivial, fun _ _ _ => trivial⟩
  | dbusReady v => exact fun _ _ => trivial
  | submit | drainShared | startTarget | shutdown | loadUnit | activateTargets | completeJobs
  | restartTimer => trivial

theorem StopRespected.allows {u : String} {m : Manager W} (h : StopRespected u m e)
    (hm : ServiceIn Phase.stopping u m) : Allows (fun v l p => v = u → keepsStopping l p) m e := by
  obtain ⟨r, hr, -, hsto⟩ := hm
  apply allows_keepsStopping
  rintro (⟨ex, rfl⟩ | ⟨sc, rfl⟩ | rfl)
  · refine ⟨?_, fun _ _ _ => ⟨fun _ => trivial, fun _ => trivial⟩, ?_⟩
    · intro v r' het
      refine ⟨?_, fun _ => trivial⟩
      rintro rfl
      cases hr.symm.trans het.record
      exact hsto
    · intro v r' s het
      refine ⟨?_, fun _ _ => trivial⟩
      rintro rfl
      cases hr.symm.trans het.record
      exact absurd hsto.1 (h r s het)
  · exact absurd h id
  · exact absurd h id

private theorem stopping_or_settled_step (m : Manager W) (e : Event)
    (hm : ServiceIn Phase.stopping name m)
    (h : StopRespected name m e) :
    ServiceIn Phase.stopping name (m.step e) ∨ ServiceIn Phase.settled name (m.step e) := by
  have hev := evolves_step m e (h.allows hm)
  obtain ⟨r, hr, hservice, hsto⟩ := hm
  obtain ⟨r', hr', hld, hmo⟩ := hev.loaded name r hr
  have hsr' : r'.loaded.isService = true := by rw [hld]; exact hservice
  have hph : r'.phase.stopping ∨ r'.phase.settled :=
    (hmo hservice).invariant (I := fun p => p.stopping ∨ p.settled)
      (fun _ _ _ hp hl hmv => hmv.stopping_or_settled hp (hl rfl)) (.inl hsto)
  exact hph.imp (⟨r', hr', hsr', ·⟩) (⟨r', hr', hsr', ·⟩)

private theorem stopping_runJob_stop (hr : m.units[name]? = some r)
    (hservice : r.loaded.isService = true)
    (hrn : r.state = .active ∨ r.state = .activating)
    (hst : (m.runJob .stop name).2.stateOf name = some .deactivating) :
    ServiceIn Phase.stopping name (m.runJob .stop name).2 := by
  obtain ⟨s, hs⟩ := isSome_iff_exists.mp hservice
  have htn : Tends (.moves fun _ => stopMoves) m (m.runJob .stop name).2 := by
    simp only [runJob, runUnitJob, hr, hs, runServiceJob]
    exact tends_stopService m name _ (fun _ _ => .inl rfl) (fun _ _ => .inr rfl)
  obtain ⟨r', hr', hld, hmo⟩ := htn.evolves.loaded name r hr
  have hde : r'.state = .deactivating := by simpa [stateOf, hr'] using hst
  refine ⟨r', hr', by rw [hld]; exact hservice, ?_⟩
  rcases Moves.running_or_stopping (hmo hservice) hrn with h | h | h
  · simp [hde] at h
  · exact h
  · simp [Phase.settled, hde] at h

/-- Once a stop job has moved a service from `Active` or `Activating` to `Deactivating`, it
stays there until it is inactive or failed, as long as the stop is respected. -/
theorem stop_not_undone (m : Manager W) (name : String) (r : UnitRecord)
    (hr : m.units[name]? = some r) (hservice : r.loaded.isService = true)
    (hrunning : r.state = .active ∨ r.state = .activating)
    (hstopping : (m.runJob .stop name).2.stateOf name = some .deactivating) (events : List Event)
    (hevents : AllSteps step (StopRespected name) (m.runJob .stop name).2 events) :
    (run step (m.runJob .stop name).2 events).stateOf name = some .deactivating ∨
      ∃ earlier, earlier <+: events ∧
        ((run step (m.runJob .stop name).2 earlier).stateOf name = some .inactive ∨
          (run step (m.runJob .stop name).2 earlier).stateOf name = some .failed) := by
  have hstr := stopping_runJob_stop m name r hr hservice hrunning hstopping
  rcases run_holds_until (stopping_or_settled_step name) _ events hstr hevents with
    ⟨r', hr', -, hst, -⟩ | ⟨earlier, e, la, rfl, -, r', hr', -, hse⟩
  · exact .inl (by simpa [stateOf, hr'] using hst)
  refine .inr ⟨earlier ++ [e], by simp, ?_⟩
  rw [run_append]
  simp only [run_cons, run_nil, stateOf, hr', map_some, Option.some.injEq]
  exact hse

def starting : Manager Script :=
  run step (Manager.new (oneService
    { serviceType := .forking, execStart := [⟨"/bin/a", [], false⟩] }) {} none) (runNow .start)

theorem stop_not_undone_starterFails :
    let m := (starting.runJob .stop "a.service").2
    let events : List Event := [.childExit ⟨10, cldExited, 1⟩]
    m.stateOf "a.service" = some .deactivating ∧
      ((run step m events).stateOf "a.service" = some .deactivating ∨
        ∃ earlier, earlier <+: events ∧
          ((run step m earlier).stateOf "a.service" = some .inactive ∨
            (run step m earlier).stateOf "a.service" = some .failed)) := by
  intro m events
  have hstarting : starting.units["a.service"]?.any
      (fun r => r.loaded.isService && r.state == .activating) = true := by decide
  obtain ⟨r, hr, h⟩ := (Option.any_eq_true _ _).mp hstarting
  have hrespected : StopRespected "a.service" m (.childExit ⟨10, cldExited, 1⟩) := by
    have hfai : m.units["a.service"]?.all (fun r => r.loaded.service?.all
        (!isSuccess ⟨10, cldExited, 1⟩ ·)) = true := by decide
    intro r s het
    simp [het.record, het.service, het.success] at hfai
  refine ⟨by decide, ?_⟩
  exact stop_not_undone starting "a.service" r hr (Bool.and_eq_true_iff.mp h).1
    (.inr (eq_of_beq (Bool.and_eq_true_iff.mp h).2)) (by decide) events ⟨hrespected, trivial⟩

/-- The starter that a stop job kills with `SIGTERM` counts as successful: the service becomes
active. -/
theorem stop_undone_by_starter :
    let m := (starting.runJob .stop "a.service").2
    starting.stateOf "a.service" = some .activating ∧
      m.stateOf "a.service" = some .deactivating ∧
        (run step m [.childExit ⟨10, cldKilled, sigterm⟩]).stateOf "a.service" = some .active := by
  decide

end Rustd.Manager
