import Rustd.Service.StateMachine

/-!
# Phases of a service

The lifecycle of a service, apart from how it is carried out: its state, the processes it is
tracked by, whether a stop was requested, and the result so far. `Move` lists the changes there
are, one constructor for each cause; the lemmas below say that each function of the state
machine makes one such move, or none.
-/

namespace Rustd.Service

open Base UnitFile Option

structure Phase where
  state : UnitState
  main : Option Int
  control : Option Int
  stopRequested : Bool
  result : ServiceResult
  deriving DecidableEq

attribute [ext] Phase

def UnitRecord.phase (r : UnitRecord) : Phase :=
  ⟨r.state, r.activePid, r.controlPid, r.stopRequested, r.serviceResult⟩

def Phase.tracked (p : Phase) : Bool := p.main.isSome || p.control.isSome

def Phase.settled (p : Phase) : Prop := p.state = .inactive ∨ p.state = .failed

inductive Label where
  | start
  | ready
  | stop
  | announce
  | mainPid (pid : Int)
  | mainExit (exit : ChildExit)
  | starterFailed
  | starterAdopted
  | starterWaiting
  | pidFile
  | deadline
  | overdue
  | watchdog
  | abandon
  | emptied
  | reset
  | oom
  | oomExit
  | limit
  deriving DecidableEq

/-- The lifecycle changes a service can make. -/
inductive Move : Label → Phase → Phase → Prop where
  /-- An activation, whatever it comes to. -/
  | start (p q : Phase) : p.settled → q.state ≠ .deactivating → Move .start p q
  /-- A deferred activation completes. -/
  | ready (p : Phase) : p.state = .activating →
      Move .ready p { p with state := .active, result := .success }
  /-- A deferred activation fails in its start-post commands. -/
  | unready (p : Phase) : p.state = .activating →
      Move .ready p { p with state := .failed, result := .exitCode }
  /-- A requested stop waits for the tracked processes. -/
  | stopTracked (p : Phase) : p.tracked = true →
      Move .stop p { p with state := .deactivating, stopRequested := true }
  /-- A requested stop ends a service without tracked processes. -/
  | stopUntracked (p q : Phase) : p.tracked = false → q.settled → q.tracked = false → Move .stop p q
  /-- The service announces that it is stopping. -/
  | announce (p : Phase) : p.state = .active ∨ p.state = .activating →
      Move .announce p { p with state := .deactivating }
  /-- The service names its main process. -/
  | mainPid (p : Phase) (pid : Int) : Move (.mainPid pid) p { p with main := some pid }
  /-- The main process exits. -/
  | mainExit (p q : Phase) (exit : ChildExit) : p.main = some exit.pid → q.main = none →
      q.control = p.control → q.stopRequested = false → q.state ≠ .deactivating →
      (p.state = .deactivating → p.stopRequested = true → q.settled) → Move (.mainExit exit) p q
  /-- The forking starter exits and the activation fails. -/
  | starterFailed (p q : Phase) : p.control.isSome = true → q.state = .failed →
      q.control = none → Move .starterFailed p q
  /-- The forking starter exits and the unit is active. -/
  | starterAdopted (p : Phase) (main : Option Int) : p.control.isSome = true →
      Move .starterAdopted p
        { p with state := .active, main := main, control := none, result := .success }
  /-- The forking starter exits before the PID file is there. -/
  | starterWaiting (p : Phase) : p.control.isSome = true →
      Move .starterWaiting p { p with control := none }
  /-- The awaited PID file is there, for better or worse. -/
  | pidFile (p q : Phase) : p.state = .activating → p.tracked = false →
      q.state = .active ∨ q.state = .failed → Move .pidFile p q
  /-- The start deadline passes. -/
  | deadline (p : Phase) : p.state = .activating → Move .deadline p
      { p with state := .deactivating, stopRequested := false, result := .timeout }
  /-- The stop deadline passes. -/
  | overdue (p : Phase) : p.state = .deactivating → Move .overdue p { p with result := .timeout }
  /-- The main process misses its watchdog deadline. -/
  | watchdog (p : Phase) : p.main.isSome = true → Move .watchdog p
      { p with state := .deactivating, stopRequested := false, result := .watchdog }
  /-- The manager gives up on the processes of a timed out service. -/
  | abandon (p : Phase) (result : ServiceResult) : Move .abandon p
      { state := .failed, main := none, control := none, stopRequested := false, result := result }
  /-- The cgroup of a service without tracked processes is empty. -/
  | emptied (p q : Phase) : p.tracked = false → p.state = .active ∨ p.state = .activating →
      q.settled → Move .emptied p q
  /-- The failure state is reset. -/
  | reset (p : Phase) : Move .reset p
      { p with
        state := if p.state = .failed ∨ p.state = .maintenance then .inactive else p.state
        result := .success }
  /-- An out-of-memory kill is noted. -/
  | oom (p : Phase) : Move .oom p { p with result := .oomKill }
  /-- A process exits after an out-of-memory kill. -/
  | oomExit (p : Phase) : Move .oomExit p
      { p with
        state := if p.state = .active then .active else .failed
        result := .oomKill }
  /-- The start rate limit is hit. -/
  | limit (p : Phase) : Move .limit p { p with state := .failed, result := .startLimitHit }

theorem Move.pidFile_activating (h : Move .pidFile p q) : p.state = .activating := by
  cases h with
  | pidFile _ _ hst _ _ => exact hst

abbrev Moves (guard : Label → Phase → Prop) : Phase → Phase → Prop := Reaches Move guard

variable (r : UnitRecord)

@[simp] theorem phase_tracked : r.phase.tracked = r.tracked := rfl

@[simp] theorem phase_state : r.phase.state = r.state := rfl

@[simp] theorem phase_main : r.phase.main = r.activePid := rfl

@[simp] theorem phase_control : r.phase.control = r.controlPid := rfl

@[simp] theorem phase_stopRequested : r.phase.stopRequested = r.stopRequested := rfl

@[simp] theorem phase_result : r.phase.result = r.serviceResult := rfl

section

variable {W : Type} [Kernel W] (u : String) (s : ServiceSection) (r : UnitRecord)
  (nf cg : Bool) (w : W)

theorem releaseIdleGate_record : (releaseIdleGate r w).1 = { r with idleGateFd := none } := by
  unfold releaseIdleGate
  split
  · rfl
  · next h => rw [← h]

theorem runStopPost_record : (runStopPost u s r nf cg w).1 = r ∨
    (runStopPost u s r nf cg w).1 = { r with state := .failed } := by
  simp only [runStopPost]
  split
  · exact .inl rfl
  · exact .inr rfl

theorem teardown_record : (teardown u s r nf cg w).1 = { r with dynamicUser := none } ∨
      (teardown u s r nf cg w).1 =
        { r with dynamicUser := none, state := .failed } := by
  simp only [teardown, releaseUser]
  rcases runStopPost_record u s r nf cg w with h | h <;> simp [h]

def UnitRecord.fixed (r : UnitRecord) : LoadedUnit × Nat := (r.loaded, r.restartCount)

def Makes (l : Label) (r r' : UnitRecord) : Prop := r'.fixed = r.fixed ∧ Move l r.phase r'.phase

theorem Makes.loaded {r r' : UnitRecord} (h : Makes l r r') : r'.loaded = r.loaded :=
  congrArg Prod.fst h.1

def Started (loaded : LoadedUnit) (r : UnitRecord) : Prop :=
  r.loaded = loaded ∧ r.state ≠ .deactivating

def Launched (r r' : UnitRecord) : Prop := r'.fixed = r.fixed ∧ r'.state ≠ .deactivating

private theorem launched_of_failed {r r' : UnitRecord}
    (h : r' = { r with state := .failed }) : Launched r r' := by
  rw [h]
  exact ⟨rfl, by simp⟩

private theorem launched_stopPost :
    Launched r (runStopPost u s { r with state := .failed } nf cg w).1 := by
  rcases runStopPost_record u s { r with state := .failed } nf cg w with h | h <;>
    exact launched_of_failed h

variable (fds : List Int) (result res : ServiceResult) (exit : ChildExit) (cmd : ExecCommand)

private theorem launched_runOneshot (c : List ExecCommand) (w : W) :
    Launched r (runOneshot u s fds nf cg r c w).2.1 := by
  induction c generalizing w with
  | nil =>
    simp only [runOneshot]
    split
    · exact launched_of_failed rfl
    · split <;> exact ⟨rfl, by simp⟩
  | cons cmd l ih =>
    simp only [runOneshot]
    split
    · exact launched_of_failed rfl
    split
    · exact ih _
    · exact launched_stopPost ..

private theorem launched_recordSpawned (c : SpawnedProcess) : Launched r (recordSpawned s c r) := by
  refine ⟨rfl, ?_⟩
  simp only [recordSpawned]
  split <;> decide

private theorem launched_spawnMain : Launched r (spawnMain u s fds nf cg r cmd w).2.1 := by
  simp only [spawnMain]
  split
  · exact launched_stopPost ..
  split
  · exact launched_recordSpawned ..
  split
  · exact launched_recordSpawned ..
  · simp only [activationFailed, releaseIdleGate_record]
    exact ⟨rfl, by simp⟩

private theorem launched_activateAs (usr : Option DynamicUsers.DynamicUser) :
    Launched r (activateAs u s fds nf cg r cmd usr w).2.1 := by
  simp only [activateAs]
  split
  · exact launched_of_failed rfl
  split
  · exact launched_of_failed rfl
  · exact ⟨rfl, by simp⟩
  split
  · exact launched_of_failed rfl
  · split
    · exact launched_runOneshot ..
    · exact launched_spawnMain ..

private theorem launched_activateService : Launched r (activateService u s fds nf cg r w).2.1 := by
  simp only [activateService]
  split
  · exact launched_of_failed rfl
  split
  · exact launched_of_failed rfl
  split
  · exact launched_of_failed rfl
  · split
    · exact launched_of_failed rfl
    · exact launched_activateAs ..

theorem launched_activate (h : r.state ≠ .deactivating) :
    Launched r (activate u r fds nf cg w).2.1 := by
  simp only [activate, releaseIdleGate_record]
  split
  · exact ⟨rfl, h⟩
  split
  · exact ⟨rfl, by simp⟩
  · exact launched_activateService ..

theorem deactivate_makes (op : KillOperation) (hs : r.loaded.service? = some s) :
    Makes .stop r (deactivate u r nf cg op w).1 := by
  simp only [deactivate, hs, releaseIdleGate_record, releaseUser]
  split
  · next h => exact ⟨rfl, .stopTracked r.phase h⟩
  rename_i h
  have hur : r.phase.tracked = false := (Bool.not_eq_true _).mp h
  generalize hw : (runCommandList _ _ s.execStop w).2 = w'
  rcases runStopPost_record u s { r with stopRequested := true, state := .inactive } nf
    cg w' with hpo | hpo
  · rw [hpo]
    exact ⟨rfl, .stopUntracked _ _ hur (.inl rfl) hur⟩
  · rw [hpo]
    exact ⟨rfl, .stopUntracked _ _ hur (.inr rfl) hur⟩

private theorem completeStart_makes (h : r.state = .activating) :
    Makes .ready r (completeStart u s r fds nf cg w).2.1 := by
  simp only [completeStart]
  split
  · exact ⟨rfl, .unready r.phase h⟩
  · exact ⟨rfl, .ready r.phase h⟩

theorem completeNotifyStart_makes : (completeNotifyStart u r fds nf cg w).2.1 = r ∨
      Makes .ready r (completeNotifyStart u r fds nf cg w).2.1 := by
  simp only [completeNotifyStart]
  split
  · exact .inl rfl
  split
  · next h => exact .inr (completeStart_makes _ _ _ _ _ _ _ h.2)
  · exact .inl rfl

theorem completeDbusStart_makes : (completeDbusStart u r fds nf cg w).2.1 = r ∨
      Makes .ready r (completeDbusStart u r fds nf cg w).2.1 := by
  simp only [completeDbusStart]
  split
  · exact .inl rfl
  split
  · next h => exact .inr (completeStart_makes _ _ _ _ _ _ _ h.2)
  · exact .inl rfl

private theorem failForkingStart_record : (failForkingStart u s r res nf cg w).1 =
      { r with dynamicUser := none, state := .failed, serviceResult := res } := by
  simp only [failForkingStart]
  rcases teardown_record u s { r with state := .failed, serviceResult := res } nf
    cg w with h | h <;> rw [h]

private theorem finishForkingStart_record (mp : Option Int) :
    (finishForkingStart u s r mp nf cg w).2.1 =
        { r with activePid := mp, state := .active, serviceResult := .success } ∨
      (finishForkingStart u s r mp nf cg w).2.1 =
        { r with
          activePid := mp
          dynamicUser := none
          state := .failed
          serviceResult := .exitCode } := by
  simp only [finishForkingStart]
  split
  · exact .inr (failForkingStart_record ..)
  · exact .inl rfl

private theorem adoptPidFile_record (a : Bool) : (∃ pid, (adoptPidFile u s r a nf cg w).2.1 =
        { r with activePid := some pid, state := .active, serviceResult := .success }) ∨
      (adoptPidFile u s r a nf cg w).2.1 = r ∨
        ∃ m res, (adoptPidFile u s r a nf cg w).2.1 =
          { r with
            activePid := m
            dynamicUser := none
            state := .failed
            serviceResult := res } := by
  simp only [adoptPidFile]
  split
  · next pid _ =>
    rcases finishForkingStart_record u s r nf cg
      (Kernel.readPidFile w u s.pidFile).2 (some pid) with h | h
    · exact .inl ⟨pid, h⟩
    · exact .inr (.inr ⟨some pid, .exitCode, h⟩)
  · exact .inr (.inl rfl)
  · exact .inr (.inr ⟨r.activePid, .protocol, failForkingStart_record ..⟩)

inductive StarterExit (r : UnitRecord) (exit : ChildExit) (r' : UnitRecord) : Prop where
  | ignored : r' = r → StarterExit r exit r'
  | failed : Makes .starterFailed r r' → StarterExit r exit r'
  | adopted (s : ServiceSection) : r.loaded.service? = some s → isSuccess exit s = true →
      Makes .starterAdopted r r' → StarterExit r exit r'
  | waiting (s : ServiceSection) : r.loaded.service? = some s → isSuccess exit s = true →
      s.pidFile ≠ "" → Makes .starterWaiting r r' → StarterExit r exit r'

theorem onForkingControlExit_starterExit :
    StarterExit r exit (onForkingControlExit u r exit nf cg w).2.1 := by
  simp only [onForkingControlExit]
  split
  · exact .ignored rfl
  rename_i s hs
  split
  · exact .ignored rfl
  rename_i hco
  have hsome : r.controlPid.isSome = true := by
    push Not at hco
    rw [hco.1, isSome_some]
  split
  · rw [failForkingStart_record]
    exact .failed ⟨rfl, .starterFailed _ _ hsome rfl rfl⟩
  rename_i hsu
  have hsu : isSuccess exit s = true := by simpa using hsu
  split
  · generalize (if s.guessMainPid && cg then Kernel.guessMainPid w u else (none, w)) = guessed
    rcases finishForkingStart_record u s { r with controlPid := none } nf cg
      guessed.2 guessed.1 with h | h
    · rw [h]
      exact .adopted s hs hsu ⟨rfl, .starterAdopted r.phase _ hsome⟩
    · rw [h]
      exact .failed ⟨rfl, .starterFailed _ _ hsome rfl rfl⟩
  · next hfil =>
    rcases adoptPidFile_record u s { r with controlPid := none } nf cg w true
      with ⟨pid, h⟩ | h | ⟨m, res, h⟩
    · rw [h]
      exact .adopted s hs hsu ⟨rfl, .starterAdopted r.phase _ hsome⟩
    · rw [h]
      exact .waiting s hs hsu hfil ⟨rfl, .starterWaiting r.phase hsome⟩
    · rw [h]
      exact .failed ⟨rfl, .starterFailed _ _ hsome rfl rfl⟩

theorem retryForkingPidFile_makes : (retryForkingPidFile u r nf cg w).2.1 = r ∨
      Makes .pidFile r (retryForkingPidFile u r nf cg w).2.1 := by
  simp only [retryForkingPidFile]
  split
  · exact .inl rfl
  rename_i s hs
  split
  · next hpn =>
    simp only [forkingPidFilePending, hs, Bool.and_eq_true, beq_iff_eq, isNone_iff_eq_none] at hpn
    have hur : r.phase.tracked = false := by
      simp [Phase.tracked, hpn.1.2, hpn.2]
    rcases adoptPidFile_record u s r nf cg w false with
      ⟨pid, h⟩ | h | ⟨m, res, h⟩
    · rw [h]
      exact .inr ⟨rfl, .pidFile _ _ hpn.1.1.2 hur (.inl rfl)⟩
    · exact .inl h
    · rw [h]
      exact .inr ⟨rfl, .pidFile _ _ hpn.1.1.2 hur (.inr rfl)⟩
  · exact .inl rfl

private theorem stateAfterExit_ne_deactivating (su : Bool) :
    stateAfterExit r s su ≠ .deactivating := by
  unfold stateAfterExit
  split
  · split_ifs <;> simp
  · split <;> simp
  · split <;> simp
  · simp
  · simp
  · simp

private theorem stateAfterMainExit_ne_deactivating :
    stateAfterMainExit r s exit ≠ .deactivating := by
  unfold stateAfterMainExit
  split
  · simp
  · exact stateAfterExit_ne_deactivating s r _

private theorem stateAfterMainExit_of_stopping (hst : r.state = .deactivating)
    (hstp : r.stopRequested = true) : stateAfterMainExit r s exit = .inactive := by
  simp [stateAfterMainExit, stateAfterExit, hst, hstp]

private theorem cgroupKeeps_of_stopRequested (h : r.stopRequested = true) :
    (cgroupKeeps u s r cg w).1 = false := by
  simp [cgroupKeeps, h]

theorem onChildExit_makes : (onChildExit u r exit nf cg w).1 = true ∧
        Makes (.mainExit exit) r (onChildExit u r exit nf cg w).2.1 ∨
      (onChildExit u r exit nf cg w).1 = false ∧
        (onChildExit u r exit nf cg w).2.1 = r := by
  simp only [onChildExit, releaseIdleGate_record]
  split
  · exact .inr ⟨rfl, rfl⟩
  rename_i s hs
  split
  · exact .inr ⟨rfl, rfl⟩
  rename_i hpid
  have hpid : r.phase.main = some exit.pid := not_not.mp hpid
  generalize (releaseIdleGate r w).2 = w'
  split
  · next hkp =>
    have hstp : r.stopRequested = false := by
      by_contra hne
      rw [cgroupKeeps_of_stopRequested _ _ _ _ _ (by simpa using hne)] at hkp
      cases hkp
    refine .inl ⟨rfl, rfl, .mainExit _ _ exit hpid rfl rfl hstp (by simp) ?_⟩
    intro _ h
    cases hstp.symm.trans h
  · generalize (cgroupKeeps u s r cg w').2 = w''
    rcases teardown_record u s
      { mainExited { r with idleGateFd := none } s exit with
        state := stateAfterMainExit r s exit }
      nf cg w'' with h | h
    · rw [h]
      refine .inl ⟨rfl, rfl, .mainExit _ _ exit hpid rfl rfl rfl ?_ ?_⟩
      · exact stateAfterMainExit_ne_deactivating s r exit
      · intro hd hstp
        exact .inl (stateAfterMainExit_of_stopping s r exit hd hstp)
    · rw [h]
      refine .inl ⟨rfl, rfl, .mainExit _ _ exit hpid rfl rfl rfl (by simp) ?_⟩
      intro _ _
      exact .inr rfl

theorem onServiceCgroupEmpty_makes : (onServiceCgroupEmpty u r nf cg w).1 = true ∧
        Makes .emptied r (onServiceCgroupEmpty u r nf cg w).2.1 ∨
      (onServiceCgroupEmpty u r nf cg w).1 = false ∧
        (onServiceCgroupEmpty u r nf cg w).2.1 = r := by
  simp only [onServiceCgroupEmpty]
  split
  · exact .inr ⟨rfl, rfl⟩
  rename_i s hs
  split
  · exact .inr ⟨rfl, rfl⟩
  rename_i h
  push Not at h
  have hur : r.phase.tracked = false := (Bool.not_eq_true _).mp h.2.1
  generalize (if cg then Kernel.treePopulated w u else (false, w)) = populated
  split
  · exact .inr ⟨rfl, rfl⟩
  generalize hst :
    (if r.stopRequested ∨ r.serviceResult = .success then .inactive
      else .failed : UnitState) =
      state
  have hse : state = .inactive ∨ state = .failed := by
    rw [← hst]
    split <;> simp
  rcases teardown_record u s { r with state := state } nf cg populated.2 with
    hdn | hdn
  · rw [hdn]
    exact .inl ⟨rfl, rfl, .emptied _ _ hur h.2.2 hse⟩
  · rw [hdn]
    exact .inl ⟨rfl, rfl, .emptied _ _ hur h.2.2 (.inr rfl)⟩

theorem onForkingCgroupEmpty_makes : (onForkingCgroupEmpty u r nf cg w).1 = true ∧
        Makes .emptied r (onForkingCgroupEmpty u r nf cg w).2.1 ∨
      (onForkingCgroupEmpty u r nf cg w).1 = false ∧
        (onForkingCgroupEmpty u r nf cg w).2.1 = r := by
  simp only [onForkingCgroupEmpty]
  split
  · exact .inr ⟨rfl, rfl⟩
  rename_i s hs
  split
  · exact .inr ⟨rfl, rfl⟩
  rename_i h
  push Not at h
  have hur : r.phase.tracked = false := (Bool.not_eq_true _).mp h.2.2
  rcases teardown_record u s { r with state := .inactive, serviceResult := .success } nf
    cg w with hdn | hdn
  · rw [hdn]
    exact .inl ⟨rfl, rfl, .emptied _ _ hur (.inl h.2.1) (.inl rfl)⟩
  · rw [hdn]
    exact .inl ⟨rfl, rfl, .emptied _ _ hur (.inl h.2.1) (.inr rfl)⟩

theorem finishTimeoutFailure_makes (hs : r.loaded.service? = some s) :
    Makes .abandon r (finishTimeoutFailure u r res nf cg w).1 := by
  simp only [finishTimeoutFailure, hs, releaseIdleGate_record]
  generalize (releaseIdleGate r w).2 = w'
  rcases teardown_record u s
    { r with
      idleGateFd := none
      activePid := none
      controlPid := none
      state := .failed
      serviceResult := res } nf cg w' with h | h <;> rw [h] <;>
    exact ⟨rfl, .abandon r.phase res⟩

theorem onTimeoutCgroupEmpty_makes (hs : r.loaded.service? = some s) :
    (onTimeoutCgroupEmpty u r nf cg w).1 = true ∧
        Makes .abandon r (onTimeoutCgroupEmpty u r nf cg w).2.1 ∨
      (onTimeoutCgroupEmpty u r nf cg w).1 = false ∧
        (onTimeoutCgroupEmpty u r nf cg w).2.1 = r := by
  simp only [onTimeoutCgroupEmpty]
  split
  · exact .inr ⟨rfl, rfl⟩
  · exact .inl ⟨rfl, finishTimeoutFailure_makes u s r nf cg w _ hs⟩

end

theorem automaticRestartDelayAt_record (cv : Nat → Nat → Nat → Nat → Nat) (r : UnitRecord)
    (exit : ChildExit) (now : Int) : (automaticRestartDelayAt cv r exit now).2.loaded = r.loaded ∧
      ((automaticRestartDelayAt cv r exit now).2.phase = r.phase ∨
        Move .limit r.phase (automaticRestartDelayAt cv r exit now).2.phase) := by
  simp only [automaticRestartDelayAt]
  split
  · exact ⟨rfl, .inl rfl⟩
  split
  · exact ⟨rfl, .inl rfl⟩
  split
  · split_ifs
    · exact ⟨rfl, .inr (.limit r.phase)⟩
    · exact ⟨rfl, .inl rfl⟩
    · exact ⟨rfl, .inr (.limit r.phase)⟩
    · exact ⟨rfl, .inl rfl⟩
  · exact ⟨rfl, .inl rfl⟩

end Rustd.Service
