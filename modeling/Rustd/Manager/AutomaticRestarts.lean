import Rustd.Manager.Restarts

/-!
# Automatic restarts

An exit that `Restart=` asks to answer arms a timer, which queues an internal start job. The job
only has an effect when `start_service` finds the unit inactive or failed, so it depends on the
state the exit handler left.
-/

namespace Rustd.Service

open UnitFile

variable {W : Type} [Kernel W]

/-- The settings keep a unit active whose main process exited: a direct restart, or a oneshot
that remains after a successful exit. -/
def settingsKeepActive (s : ServiceSection) (r : UnitRecord) (exit : ChildExit) : Bool :=
  (s.restartMode == .direct && !r.stopRequested &&
      restartRequested s exit (resultAfterExit r exit (isSuccess exit s))) ||
    (r.state == .activating && s.serviceType == .oneshot && s.remainAfterExit && isSuccess exit s)

/-- A unit stays active after the exit of its main process: descendants keep an
`ExitType=cgroup` service alive, or its settings do and no stop-post command fails. -/
def staysActive (name : String) (s : ServiceSection) (r : UnitRecord) (exit : ChildExit)
    (notify inCgroup : Bool) (w : W) : Bool :=
  let kept := cgroupKeeps name s r inCgroup (releaseIdleGate r w).2
  kept.1 || (settingsKeepActive s r exit && (runCommandList "ExecStopPost"
    (r.context name [] notify inCgroup) s.execStopPost kept.2).1.isOk)

private theorem stateAfterMainExit_cases (s : ServiceSection) (r : UnitRecord) (e : ChildExit) :
    if settingsKeepActive s r e then stateAfterMainExit r s e = .active
    else stateAfterMainExit r s e = .inactive ∨ stateAfterMainExit r s e = .failed := by
  unfold settingsKeepActive stateAfterMainExit
  by_cases hdrc : s.restartMode = .direct ∧ r.stopRequested = false ∧
      restartRequested s e (resultAfterExit r e (isSuccess e s)) = true
  · simp [hdrc]
  have hfls : (s.restartMode == .direct && !r.stopRequested &&
      restartRequested s e (resultAfterExit r e (isSuccess e s))) = false := by
    rw [← Bool.not_eq_true]
    simpa [and_assoc] using hdrc
  rw [if_neg hdrc, hfls, Bool.false_or]
  unfold stateAfterExit
  cases r.state <;> simp
  all_goals (split_ifs <;> simp_all)

private theorem onChildExit_state (u : String) (s : ServiceSection) (r : UnitRecord) (e : ChildExit)
    (nf cg : Bool) (w : W) (hs : r.loaded.service? = some s) (hma : r.activePid = some e.pid) :
    if staysActive u s r e nf cg w then
      (onChildExit u r e nf cg w).2.1.state = .active
    else (onChildExit u r e nf cg w).2.1.phase.settled := by
  simp only [onChildExit, hs, hma, ne_eq, not_true_eq_false, if_false, staysActive]
  generalize cgroupKeeps u s r cg (releaseIdleGate r w).2 = kept
  cases kept.1 with
  | true => simp
  | false =>
    have hst := stateAfterMainExit_cases s r e
    simp only [Bool.false_or, Bool.false_eq_true, if_false, teardown, releaseUser, runStopPost,
      releaseIdleGate_record, mainExited, UnitRecord.context]
    generalize runCommandList "ExecStopPost" _ s.execStopPost kept.2 = ran
    cases hran : ran.1 with
    | error error => simp [Except.isOk, Except.toBool, Phase.settled, UnitRecord.phase]
    | ok _ =>
      cases hke : settingsKeepActive s r e with
      | true => simpa [hke, Except.isOk, Except.toBool] using hst
      | false =>
        simp only [hke, Bool.false_eq_true, if_false] at hst
        simpa [Except.isOk, Except.toBool, Phase.settled, UnitRecord.phase] using hst

end Rustd.Service

namespace Rustd.Manager

open Base Service UnitFile Jobs Option

variable {W : Type} [Kernel W]

omit [Kernel W] in
/-- The guard of `start_service`. -/
def shouldStart (m : Manager W) (name : String) : Bool :=
  m.units[name]?.any (fun r => r.state == .inactive || r.state == .failed)

variable (m : Manager W) (exit e : ChildExit) (name : String) (r : UnitRecord)

theorem startService_of_not_shouldStart (nf : Bool) (ac : Option NotifyAccess)
    (wd : Option Nat) (tm : Nat) (h : m.shouldStart name = false) :
    m.startService name nf ac wd tm = (.ok (), m) := by
  rw [shouldStart] at h
  rw [startService, if_pos (by simp [h])]

/-- The manager that decides about a restart after the exit of a main process. -/
def mainExitNoted (m : Manager W) (name : String) (exit : ChildExit) : Manager W :=
  (m.exitAsked name).2.noteMainExit name exit
    ((m.ask Kernel.realtime).2.ask Kernel.monotonic).1 (m.ask Kernel.realtime).1
    (m.exitAsked name).1

/-- The delay that `automatic_restart_delay_at` grants a unit. -/
def grantedDelay (m : Manager W) (name : String) (exit : ChildExit) : Option Nat :=
  m.units[name]?.bind (fun r => (automaticRestartDelayAt (Kernel.restartCurve W) r exit
    ((Kernel.monotonic m.world).1.getD 0)).1)

/-- The exit of the main process of a service that is granted an automatic restart: no restart
was requested, and no stop unless the process ran out of memory. -/
structure GrantsRestart (m : Manager W) (exit : ChildExit) (name : String) (r : UnitRecord)
    (s : ServiceSection) : Prop extends Exits m exit name r where
  main : r.activePid = some exit.pid
  uncontrolled : r.controlPid ≠ some exit.pid
  service : r.loaded.service? = some s
  unmarked : name ∉ m.restartPending
  unstopped : r.stopRequested = true → (m.exitAsked name).1 = true
  granted : ((m.mainExitNoted name exit).grantedDelay name exit).isSome = true

def exitKeepsActive (m : Manager W) (name : String) (r : UnitRecord) (s : ServiceSection)
    (exit : ChildExit) : Bool :=
  let procs := (m.exitAsked name).2.ask (Kernel.procsExist · name)
  staysActive name s r exit (m.notifyFor name) procs.1 procs.2.world

theorem main_of_exits {m : Manager W} {exit : ChildExit} {name : String} {r : UnitRecord}
    (h : Exits m exit name r) (hco : r.controlPid ≠ some exit.pid) :
    r.loaded.isService = true ∧ r.activePid = some exit.pid := by
  have hod := List.find?_some h.owner
  rw [h.record, any_some, Bool.or_eq_true, beq_iff_eq] at hod
  have hma := hod.resolve_left hco
  rw [Bool.and_eq_true, beq_iff_eq] at hma
  exact hma

theorem step_mainExit (het : Exits m exit name r) (hma : r.controlPid ≠ some exit.pid) :
    m.step (.childExit exit) = ((m.mainExitNoted name exit).restartAfterExit name exit
      (r.stopRequested && !(m.exitAsked name).1)).finishExit name := by
  simp only [step, applyChildExit, het.owner, het.record, if_neg hma]
  rfl

theorem spares_mainExitNoted : Spares name m (m.mainExitNoted name exit) :=
  ((Spares.ask m _).trans ((Spares.ask _ _).trans (Spares.ask _ _))).trans
    (spares_noteMainExit _ name exit _ _ _)

private theorem automaticRestartDelayAt_granted (cv : Nat → Nat → Nat → Nat → Nat)
    (r : UnitRecord) (exit : ChildExit) (now : Int)
    (h : (automaticRestartDelayAt cv r exit now).1.isSome = true) :
    (automaticRestartDelayAt cv r exit now).2.state = r.state := by
  revert h
  simp only [automaticRestartDelayAt]
  split
  · simp
  split
  · simp
  · split_ifs <;> simp

private theorem automaticRestart_of_granted (exit : ChildExit)
    (h : (m.grantedDelay name exit).isSome = true) :
    (m.automaticRestart name exit).stateOf name = m.stateOf name ∧
      ((∃ s, (m.automaticRestart name exit).restartTimers =
        m.restartTimers ++ [(s, name)]) ∨
        (m.automaticRestart name exit).jobQueue.pending =
          m.jobQueue.pending ++ [restartJob name]) := by
  obtain ⟨d, hdl⟩ := isSome_iff_exists.mp h
  obtain ⟨r, hr, hgd⟩ := bind_eq_some_iff.mp hdl
  have hsome : (automaticRestartDelayAt (Kernel.restartCurve W) r exit
      ((Kernel.monotonic m.world).1.getD 0)).1.isSome = true := by
    rw [hgd, isSome_some]
  have hst := automaticRestartDelayAt_granted _ r exit _ hsome
  simp only [automaticRestart, Manager.apply, units_ask, hr]
  simp only [ask, hgd, scheduleRestart]
  split
  · exact ⟨by simp [stateOf, hr, hst], .inl ⟨_, rfl⟩⟩
  · exact ⟨by simp [stateOf, hr, hst], .inr rfl⟩

omit [Kernel W] in
/-- An out-of-memory kill fails a unit that is not active. -/
private theorem settled_noteOom (rel : Bool) (r : UnitRecord) (hr : m.units[name]? = some r)
    (h : r.state = .active ∨ r.phase.settled) :
    (m.noteOom name rel).shouldStart name = (r.state != .active) := by
  unfold noteOom
  cases rel with
  | true =>
    simp only [if_true, shouldStart, getElem?_update, hr, map_some, any_some, oomKilled]
    by_cases hav : r.state = .active <;> simp [hav]
  | false =>
    simp only [Bool.false_eq_true, if_false, shouldStart, hr, any_some]
    rcases h with h | h | h
    · simp [h]
    · simp [← phase_state, h]
    · simp [← phase_state, h]

theorem shouldStart_mainExitNoted (s : ServiceSection) (hr : m.units[name]? = some r)
    (hs : r.loaded.service? = some s) (hma : r.activePid = some exit.pid) :
    (m.mainExitNoted name exit).shouldStart name = !m.exitKeepsActive name r s exit := by
  have hak : ((m.exitAsked name).2.ask (Kernel.procsExist · name)).2.units[name]? = some r := hr
  have hnf : (m.exitAsked name).2.notifyFor name = m.notifyFor name := rfl
  have hst := onChildExit_state name s r exit (m.notifyFor name)
    ((m.exitAsked name).2.ask (Kernel.procsExist · name)).1
    ((m.exitAsked name).2.ask (Kernel.procsExist · name)).2.world hs hma
  simp only [mainExitNoted, noteMainExit, hnf, Manager.apply, hak]
  generalize hext : onChildExit name r exit (m.notifyFor name)
    ((m.exitAsked name).2.ask (Kernel.procsExist · name)).1
    ((m.exitAsked name).2.ask (Kernel.procsExist · name)).2.world = exited at hst
  simp only [shouldStart, onNotify, units_cancelStopTimeout, units_cancelStartTimeout]
  have hkp : (exited.2.1.state != .active) = !m.exitKeepsActive name r s exit := by
    simp only [exitKeepsActive]
    split at hst
    · next h => simp [h, hst]
    · next h =>
      rcases hst with hst | hst <;> rw [phase_state] at hst <;> simp [h, hst]
  rw [← hkp]
  apply settled_noteOom _ name _ (stampExit ((m.ask Kernel.realtime).2.ask Kernel.monotonic).1
    (m.ask Kernel.realtime).1 exited.2.1)
  · simp [getElem?_update]
  split at hst
  · exact .inl hst
  · exact .inr hst

omit [Kernel W] in
private theorem shouldStart_of_stateOf {m m' : Manager W} {name : String}
    (h : m'.stateOf name = m.stateOf name) : m'.shouldStart name = m.shouldStart name := by
  have hgu : ∀ m : Manager W, m.shouldStart name =
      (m.stateOf name).any (fun st => st == .inactive || st == .failed) := by
    intro m
    simp [shouldStart, stateOf, Option.any_map]
  rw [hgu, hgu, h]

private theorem shouldStart_run_of_elsewhere (hr : m.units[name]? = some r)
    (hservice : r.loaded.isService = true) (evs : List Event)
    (h : AllSteps step (Elsewhere name) m evs) :
    (run step m evs).shouldStart name = m.shouldStart name := by
  have hinv : ∃ r', (run step m evs).units[name]? = some r' ∧
      r'.loaded.isService = true ∧ r'.phase = r.phase := by
    apply run_invariant (I := fun m => ∃ r', m.units[name]? = some r' ∧
      r'.loaded.isService = true ∧ r'.phase = r.phase) _ m evs ⟨r, hr, hservice, rfl⟩ h
    rintro m e ⟨r₁, hr₁, h₁, hp₁⟩ he
    obtain ⟨r₂, hr₂, hld, h₂⟩ := phase_step_of_elsewhere m name e r₁ he hr₁ h₁
    exact ⟨r₂, hr₂, by rw [hld, h₁], h₂.trans hp₁⟩
  obtain ⟨r', hr', -, hph⟩ := hinv
  apply shouldStart_of_stateOf
  rw [stateOf, stateOf, hr, hr', map_some, map_some, ← phase_state, hph, phase_state]

/-- When the exit of a main process is granted an automatic restart, its start is on the way.
As long as nothing else concerns the unit, `start_service` will go on to activate it exactly
when neither descendants nor settings keep the unit active over the exit. -/
theorem granted_restart_activates_iff (m : Manager W) (exit : ChildExit) (name : String)
    (r : UnitRecord) (s : ServiceSection) (h : GrantsRestart m exit name r s) :
    ((∃ source, (m.step (.childExit exit)).restartTimers = m.restartTimers ++ [(source, name)]) ∨
      (m.step (.childExit exit)).jobQueue.pending = m.jobQueue.pending ++ [restartJob name]) ∧
    ((∀ later, AllSteps step (Elsewhere name) (m.step (.childExit exit)) later →
        (run step (m.step (.childExit exit)) later).shouldStart name = true) ↔
      m.exitKeepsActive name r s exit = false) := by
  have hspr := spares_mainExitNoted m exit name
  have hun : (m.mainExitNoted name exit).restartPending.contains name = false := by
    rw [restartPending_of_shared hspr.shared, ← Bool.not_eq_true]
    exact h.unmarked
  have hus : (r.stopRequested && !(m.exitAsked name).1) = false := by
    cases hstp : r.stopRequested with
    | false => rfl
    | true => simp [h.unstopped hstp]
  have hsp : m.step (.childExit exit) =
      ((m.mainExitNoted name exit).automaticRestart name exit).finishExit name := by
    rw [step_mainExit m exit name r h.toExits h.uncontrolled, restartAfterExit, hun, hus]
    rfl
  obtain ⟨hst, hqd⟩ := automaticRestart_of_granted _ name exit h.granted
  have hservice : r.loaded.isService = true := by
    rw [LoadedUnit.isService, h.service, isSome_some]
  have hev : Evolves (fun _ _ _ => True) m (m.step (.childExit exit)) :=
    evolves_step m _ ⟨fun _ _ _ => ⟨trivial, trivial⟩, fun _ _ _ => ⟨trivial, trivial⟩,
      fun _ _ _ _ => ⟨trivial, fun _ => trivial⟩⟩
  obtain ⟨r', hr', hld, -⟩ := hev.loaded name r h.record
  have hstr : (m.step (.childExit exit)).shouldStart name =
      !m.exitKeepsActive name r s exit := by
    rw [← shouldStart_mainExitNoted m exit name r s h.record h.service h.main]
    apply shouldStart_of_stateOf
    rw [hsp, ← hst, stateOf, stateOf, units_finishExit]
  refine ⟨?_, ?_⟩
  · have hnt := hspr.queues
    have hfi := queues_of_ledger
      (ledger_finishExit ((m.mainExitNoted name exit).automaticRestart name exit) name)
    simp only [queues, Prod.mk.injEq] at hnt hfi
    rw [hsp, hfi.1, hfi.2.2.2, ← hnt.1, ← hnt.2.2.2]
    exact hqd
  · constructor
    · intro hla
      have hnow := hla [] trivial
      rw [run_nil, hstr] at hnow
      simpa using hnow
    · intro hke later hla
      rw [shouldStart_run_of_elsewhere _ name r' hr' (by rw [hld, hservice]) later hla, hstr, hke]
      rfl

def restarting (mode : RestartMode) : Manager Script :=
  run step (Manager.new (oneService
    { restart := .always, restartMode := mode, execStart := [⟨"/bin/a", [], false⟩] }) {} none)
    (runNow .start)

theorem granted_restart_activates_normalMode :
    ∃ r s, GrantsRestart (restarting .normal) ⟨10, cldExited, 0⟩ "a.service" r s ∧
      (restarting .normal).exitKeepsActive "a.service" r s ⟨10, cldExited, 0⟩ = false ∧
      ∀ later, AllSteps step (Elsewhere "a.service")
          ((restarting .normal).step (.childExit ⟨10, cldExited, 0⟩)) later →
        (run step ((restarting .normal).step (.childExit ⟨10, cldExited, 0⟩)) later).shouldStart
          "a.service" = true := by
  have hrn : (restarting .normal).units["a.service"]?.any (fun r =>
      r.activePid == some 10 && r.controlPid == none && !r.stopRequested &&
        r.loaded.service?.any (fun s =>
          !(restarting .normal).exitKeepsActive "a.service" r s ⟨10, cldExited, 0⟩)) = true := by
    decide
  obtain ⟨r, hr, hfl⟩ := (Option.any_eq_true _ _).mp hrn
  simp only [Bool.and_eq_true, beq_iff_eq, Bool.not_eq_true', Option.any_eq_true] at hfl
  obtain ⟨⟨⟨hma, hco⟩, hstp⟩, s, hs, hke⟩ := hfl
  have hgn : GrantsRestart (restarting .normal) ⟨10, cldExited, 0⟩ "a.service" r s :=
    { owner := by decide
      record := hr
      main := hma
      uncontrolled := by simp [hco]
      service := hs
      unmarked := by decide
      unstopped := by simp [hstp]
      granted := by decide }
  exact ⟨r, s, hgn, hke, (granted_restart_activates_iff _ _ _ r s hgn).2.mpr hke⟩

/-- With `RestartMode=direct` the exit leaves the unit active. The timer of the restart fires
and its start job is dropped, so that the service stays active without a process. -/
theorem direct_restart_dropped :
    let m := (restarting .direct).step (.childExit ⟨10, cldExited, 0⟩)
    m.restartTimers = [(1, "a.service")] ∧
      (run step m [.restartTimer 1, .drainShared]).jobQueue.pending = [restartJob "a.service"] ∧
        (run step m [.restartTimer 1, .drainShared]).shouldStart "a.service" = false ∧
        let m' := run step m [.restartTimer 1, .drainShared, .dispatch none]
        m'.jobQueue.pending = [] ∧ m'.restartTimers = [] ∧
          m'.units["a.service"]?.map (fun r => (r.state, r.activePid)) = some (.active, none) := by
  decide

end Rustd.Manager
