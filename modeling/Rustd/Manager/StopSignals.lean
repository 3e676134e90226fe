import Rustd.Manager.Stops
import Rustd.Service.Observed

/-!
# The signals of a stop job

With `KillMode=control-group` a stop job is to signal every process of the service's cgroup.
`stop_service` only does so when it tracks a process of the service.
-/

namespace Rustd.Service

open UnitFile List

/-- The signal is sent to the process. -/
def Signal.reaches (name : String) (pid : Int) : Signal → Prop
  | .process pid' _ => pid' = pid
  | .group name' _ excluded => name' = name ∧ pid ∉ excluded

section

variable {W : Type} [Kernel W] (name u : String) (s : ServiceSection) (r : UnitRecord)
  (notify nf cg : Bool) (w : Observed W)

omit [Kernel W] in
@[simp] theorem signals_pass {α : Type} (out : α × W) : (w.pass out).2.signals = w.signals := rfl

@[simp] theorem signals_runCommandList (p : String) (c : LaunchContext)
    (cm : List ExecCommand) : (runCommandList p c cm w).2.signals = w.signals := by
  induction cm generalizing w with
  | nil => rfl
  | cons co l ih =>
    simp only [runCommandList, runCommand]
    split
    · rfl
    split
    · rw [ih]
      rfl
    · rfl

@[simp] theorem signals_runStopPost : (runStopPost name s r nf cg w).2.signals = w.signals := by
  simp only [runStopPost]
  split <;> simp

@[simp] theorem signals_dropUser (usr : Option DynamicUsers.DynamicUser) :
    (dropUser usr w).signals = w.signals := by
  unfold dropUser
  split <;> rfl

@[simp] theorem signals_releaseIdleGate : (releaseIdleGate r w).2.signals = w.signals := by
  unfold releaseIdleGate
  split <;> rfl

@[simp] theorem signals_teardown : (teardown name s r nf cg w).2.signals = w.signals := by
  simp only [teardown, releaseUser, removePidFile, signals_dropUser]
  split
  · exact signals_runStopPost ..
  · exact signals_runStopPost ..

variable (po : KillPolicy) (mp : Option Int) (op : KillOperation)
  (cp : Option Int)

private theorem signals_signalEach (si : Int) (p : List Int) (seen : Option Int) (se : Nat) :
    ∃ new, (signalEach po op si p seen se w).2.signals = w.signals ++ new ∧
      ∀ pid ∈ p, 0 < pid → seen = some pid ∨ .process pid si ∈ new := by
  induction p generalizing w seen se with
  | nil => exact ⟨[], by simp [signalEach], by simp⟩
  | cons a l ih =>
    simp only [signalEach]
    split
    · next hskipped =>
      obtain ⟨new, hnew, hrest⟩ := ih w seen se
      refine ⟨new, hnew, ?_⟩
      intro pid hpid hpos
      rcases mem_cons.mp hpid with rfl | hpid
      · exact .inl (hskipped.resolve_left (by omega))
      · exact hrest pid hpid hpos
    · have h : ∃ mo, (if po.sendHup op then
          (Kernel.kill (Kernel.kill w a si).2 a sighup).2
          else (Kernel.kill w a si).2).signals = w.signals ++ (.process a si :: mo) := by
        split
        · exact ⟨[.process a sighup], append_assoc ..⟩
        · exact ⟨[], rfl⟩
      obtain ⟨mo, h⟩ := h
      obtain ⟨new, hnew, hrest⟩ := ih (if po.sendHup op then
        (Kernel.kill (Kernel.kill w a si).2 a sighup).2
        else (Kernel.kill w a si).2) (some a)
        (if (Kernel.kill w a si).1 then se + 1 else se)
      refine ⟨.process a si :: mo ++ new, ?_, ?_⟩
      · rw [hnew, h, append_assoc]
      intro pid hpid hpos
      rcases mem_cons.mp hpid with rfl | hpid
      · exact .inr (by simp)
      rcases hrest pid hpid hpos with heq | hmem
      · cases heq
        exact .inr (by simp)
      · exact .inr (mem_append_right _ hmem)

private theorem signals_signalPrimary (op : KillOperation) :
    ∃ new, (signalPrimary po mp cp op w).2.signals = w.signals ++ new ∧
      ∀ si, po.signal op = some si →
        ∀ pid ∈ [mp, cp].filterMap id, 0 < pid → .process pid si ∈ new := by
  unfold signalPrimary
  split
  · next hnn => exact ⟨[], by simp, by simp [hnn]⟩
  rename_i si hsome
  obtain ⟨new, hnew, hpi⟩ := signals_signalEach w po op si ([mp, cp].filterMap id) none 0
  refine ⟨new, hnew, ?_⟩
  intro s' h pid hpid hpos
  cases hsome.symm.trans h
  exact (hpi pid hpid hpos).resolve_left (by simp)

private theorem signals_signalCgroupMembers (op : KillOperation) :
    ∃ new, (signalCgroupMembers u po mp cp op w).2.signals =
        w.signals ++ new ∧
      ∀ si, po.signal op = some si → po.signalGroup op = true →
        .group u si ([mp, cp].filterMap id) ∈ new := by
  simp only [signalCgroupMembers]
  split
  · next hnn => exact ⟨[], by simp, by simp [hnn]⟩
  rename_i si hsome
  split
  · next hgr =>
    refine ⟨[], by simp, ?_⟩
    intro _ _ htru
    simp [htru] at hgr
  have hfr : ∀ s', some si = some s' → po.signalGroup op = true →
      Signal.group u s' ([mp, cp].filterMap id) ∈ [Signal.group u si ([mp, cp].filterMap id)] := by
    rintro s' hsa -
    cases hsa
    exact mem_singleton_self _
  rw [hsome]
  split
  · exact ⟨_, rfl, hfr⟩
  split
  · refine ⟨[.group u si ([mp, cp].filterMap id), .group u sighup ([mp, cp].filterMap id)], ?_, ?_⟩
    · split <;> exact append_assoc ..
    · intro s' hsa htru
      exact mem_append_left [_] (hfr s' hsa htru)
  · exact ⟨_, rfl, hfr⟩

private theorem signals_deactivate_untracked (hs : r.loaded.service? = some s)
    (htr : r.tracked = false) :
    (deactivate name r nf cg op w).2.signals = w.signals := by
  have hur : { r with stopRequested := true }.tracked = false := htr
  simp only [deactivate, hs, hur, releaseUser, signals_dropUser, signals_runStopPost,
    signals_runCommandList, Bool.false_eq_true, if_false]

private theorem signals_deactivate_tracked (hs : r.loaded.service? = some s)
    (htr : r.tracked = true) :
    ∃ new, (deactivate name r nf cg op w).2.signals = w.signals ++ new ∧
      ∀ si, (KillPolicy.fromService s).signal op = some si →
        ∀ pid ∈ [r.activePid, r.controlPid].filterMap id, 0 < pid → .process pid si ∈ new := by
  have htr' : { r with stopRequested := true }.tracked = true := htr
  simp only [deactivate, hs, htr', if_true, signals_releaseIdleGate]
  generalize hran : (runCommandList "ExecStop"
    ({ r with stopRequested := true }.context name [] nf cg) s.execStop w).2 = w'
  have hsi : w'.signals = w.signals := by
    rw [← hran, signals_runCommandList]
  rw [← hsi]
  exact signals_signalPrimary w' (.fromService s) r.activePid r.controlPid op

omit w in
private theorem tracked_deactivate (w : W) (hs : r.loaded.service? = some s) :
    (deactivate name r nf cg op w).1.tracked = r.tracked := by
  simp only [deactivate, hs, releaseIdleGate_record, releaseUser]
  split
  · rfl
  generalize (runCommandList _ _ s.execStop w).2 = w'
  rcases runStopPost_record name s { r with stopRequested := true, state := .inactive } nf
    cg w' with hpo | hpo
  · rw [hpo]
    rfl
  · rw [hpo]
    rfl

end
end Rustd.Service

namespace Rustd.Manager

open Base Service UnitFile Jobs List Option

variable {W : Type} [Kernel W] (m : Manager (Observed W)) (name u : String)

def sentSince {W : Type} (m m' : Manager (Observed W)) : List Signal :=
  m'.world.signals.drop m.world.signals.length

omit [Kernel W] in
private theorem sentSince_of_append {m m' : Manager (Observed W)} {new : List Signal}
    (h : m'.world.signals = m.world.signals ++ new) : sentSince m m' = new := by
  rw [sentSince, h, drop_left]

@[simp] theorem signals_cancelStartTimeout :
    (m.cancelStartTimeout name).world.signals = m.world.signals := by
  unfold cancelStartTimeout
  split <;> rfl

@[simp] theorem signals_cancelStopTimeout :
    (m.cancelStopTimeout name).world.signals = m.world.signals := by
  unfold cancelStopTimeout
  split <;> rfl

private theorem signals_finalizeTimeoutWithoutExit (res : ServiceResult) :
    (m.finalizeTimeoutWithoutExit name res).world.signals = m.world.signals := by
  simp only [finalizeTimeoutWithoutExit]
  generalize hprocs : ((m.cancelStartTimeout name).cancelStopTimeout name).ask
    (Kernel.procsExist · name) = procs
  have hsi : procs.2.world.signals = m.world.signals := by
    rw [← hprocs]
    simp [ask, Kernel.procsExist]
  have hun : (procs.2.unregisterMain name).world = procs.2.world := by
    unfold unregisterMain
    split <;> rfl
  unfold Manager.apply
  split
  · rw [hun, hsi]
  rw [← hsi, ← hun]
  simp only [finishTimeoutFailure]
  split
  · rfl
  · simp

private theorem signals_applyFinalKill :
    m.world.signals <+: (m.applyFinalKill name).world.signals := by
  have hsgn : m.world.signals <+: (m.signalTimeoutOperation name .kill).2.world.signals := by
    unfold signalTimeoutOperation
    split
    · exact prefix_rfl
    rename_i r _
    split
    · exact prefix_rfl
    rename_i s _
    obtain ⟨new, hnew, -⟩ := signals_signalPrimary m.world (.fromService s) r.activePid
      r.controlPid .kill
    obtain ⟨mo, hmor, -⟩ := signals_signalCgroupMembers name
      (signalPrimary (.fromService s) r.activePid r.controlPid .kill m.world).2
      (.fromService s) r.activePid r.controlPid .kill
    rw [hnew, append_assoc] at hmor
    exact ⟨new ++ mo, hmor.symm⟩
  simp only [applyFinalKill]
  split
  · rw [signals_finalizeTimeoutWithoutExit]
    exact hsgn
  · exact hsgn

private theorem signals_awaitStop (old : UnitRecord) :
    m.world.signals <+: (m.awaitStop name old).world.signals := by
  unfold awaitStop
  split
  · simp only [armServiceStopTimeout]
    generalize hamd : (m.cancelStopTimeout name).ask
      (Kernel.addTimer · (timerNs (m.grantedStopTimeout name))) = armed
    have hsi : armed.2.world.signals = m.world.signals := by
      rw [← hamd]
      exact signals_cancelStopTimeout m name
    rw [← hsi]
    split
    · exact prefix_rfl
    · exact signals_applyFinalKill armed.2 name
  · exact prefix_rfl

variable (notify nf : Bool) (r : UnitRecord) (s : ServiceSection)

/-- A stop job deactivates its unit in a world without new signals. -/
private theorem requestStop_eq (hr : m.units[name]? = some r) :
    ∃ (w : Observed W) (cg : Bool), w.signals = m.world.signals ∧
      (m.requestStop name nf).world =
        (deactivate name (clearWatchdog r) nf cg (m.stopOperation name) w).2 ∧
      (m.requestStop name nf).units[name]? =
        some (deactivate name (clearWatchdog r) nf cg (m.stopOperation name) w).1 := by
  have hak : (((m.cancelStartTimeout name).cancelStopTimeout name).ask
      (Kernel.procsExist · name)).2.units[name]? = some r := by
    rw [units_ask, units_cancelStopTimeout, units_cancelStartTimeout, hr]
  refine ⟨(((m.cancelStartTimeout name).cancelStopTimeout name).ask
    (Kernel.procsExist · name)).2.world, (((m.cancelStartTimeout name).cancelStopTimeout
    name).ask (Kernel.procsExist · name)).1, ?_, ?_, ?_⟩
  · simp [ask, Kernel.procsExist]
  · simp only [requestStop, Manager.apply, hak]
  · simp only [requestStop, Manager.apply, hak, Std.ExtTreeMap.getElem?_insert_self]

omit [Kernel W] in
/-- Stop jobs have a signal to send to the whole cgroup. -/
private theorem signal_stopOperation (hmd : s.killMode = .controlGroup) :
    ∃ si, (KillPolicy.fromService s).signal (m.stopOperation name) = some si ∧
      (KillPolicy.fromService s).signalGroup (m.stopOperation name) = true := by
  unfold stopOperation
  split <;> simp [KillPolicy.fromService, KillPolicy.signal, KillPolicy.signalGroup, hmd]

private theorem sentSince_stopService_untracked (hr : m.units[name]? = some r)
    (hs : r.loaded.service? = some s) (htr : r.tracked = false) :
    sentSince m (m.stopService name nf) = [] := by
  obtain ⟨w, cg, hsi, hwo, hun⟩ := requestStop_eq m name nf r hr
  have hs' : (clearWatchdog r).loaded.service? = some s := hs
  have hrqs : (m.requestStop name nf).world.signals = m.world.signals := by
    rw [hwo, signals_deactivate_untracked name s _ nf cg w _ hs' htr, hsi]
  have hur : (m.requestStop name nf).units[name]?.any UnitRecord.tracked = false := by
    rw [hun, any_some, tracked_deactivate name s _ nf cg _ w hs']
    exact htr
  have hfo : ((m.requestStop name nf).forgetStopped name r).world =
      (m.requestStop name nf).world := by
    have hup : ∀ m' : Manager (Observed W),
        (m'.update name clearWatchdog).world = m'.world := by
      intro m'
      unfold update
      split <;> rfl
    unfold forgetStopped
    rw [hup]
    split <;> rfl
  apply sentSince_of_append
  simp only [stopService, hr, hur, Bool.false_eq_true, if_false, append_nil]
  rw [hfo, hrqs]

private theorem sentSince_stopService_tracked (hr : m.units[name]? = some r)
    (hs : r.loaded.service? = some s) (hmd : s.killMode = .controlGroup)
    (htr : r.tracked = true) (pid : Int) (hpid : 0 < pid) :
    ∃ si ∈ sentSince m (m.stopService name nf), si.reaches name pid := by
  obtain ⟨w, cg, hsi, hwo, hun⟩ := requestStop_eq m name nf r hr
  have hs' : (clearWatchdog r).loaded.service? = some s := hs
  obtain ⟨new, hnew, hp⟩ :=
    signals_deactivate_tracked name s (clearWatchdog r) nf cg
    w (m.stopOperation name) hs' htr
  rw [← hwo, hsi] at hnew
  have hwa : (m.requestStop name nf).units[name]?.any UnitRecord.tracked = true := by
    rw [hun, any_some, tracked_deactivate name s _ nf cg _ w hs']
    exact htr
  obtain ⟨mo, hmor, hgr⟩ := signals_signalCgroupMembers name (m.requestStop name nf).world
    (.fromService s) r.activePid r.controlPid (m.stopOperation name)
  obtain ⟨rest, hrest⟩ := signals_awaitStop
    ((m.requestStop name nf).signalStopped name r (m.stopOperation name)) name r
  have hsnt : sentSince m (m.stopService name nf) = new ++ mo ++ rest := by
    apply sentSince_of_append
    simp only [stopService, hr, hwa, if_true]
    rw [← hrest, signalStopped, hs]
    simp only [tell]
    rw [hmor, hnew, append_assoc, append_assoc, append_assoc]
  obtain ⟨si, h, hwh⟩ := signal_stopOperation m name s hmd
  rw [hsnt]
  -- A tracked process is signalled on its own, any other with the group.
  by_cases hma : pid ∈ [r.activePid, r.controlPid].filterMap id
  · refine ⟨.process pid si, ?_, rfl⟩
    rw [append_assoc]
    exact mem_append_left _ (hp si h pid hma hpid)
  · refine ⟨.group name si ([r.activePid, r.controlPid].filterMap id), ?_, rfl, hma⟩
    exact mem_append_left _ (mem_append_right _ (hgr si h hwh))

/-- A stop job signals every process of the cgroup of a `KillMode=control-group` service, and
leaves the unit waiting for them or failed, exactly when it tracks a process of the service. -/
theorem stop_signals_cgroup_iff_tracked (r : UnitRecord) (s : ServiceSection)
    (hr : m.units[name]? = some r) (hs : r.loaded.service? = some s)
    (hmode : s.killMode = .controlGroup) (members : Set Int) (hpids : ∀ pid ∈ members, 0 < pid)
    (hpopulated : members.Nonempty) :
    ((∀ pid ∈ members, ∃ signal ∈ sentSince m (m.runJob .stop name).2, signal.reaches name pid) ∧
      (m.runJob .stop name).2.stateOf name ≠ some .inactive) ↔ r.tracked = true := by
  have hjob : (m.runJob .stop name).2 = m.stopService name
      ((effectiveNotifyAccess s).isSome && m.notify.isSome) := by
    simp only [runJob, runUnitJob, hr, hs, runServiceJob]
  rw [hjob]
  generalize ((effectiveNotifyAccess s).isSome && m.notify.isSome) = notify
  constructor
  · rintro ⟨hsgn, -⟩
    by_contra hur
    rw [Bool.not_eq_true] at hur
    obtain ⟨pid, hpid⟩ := hpopulated
    obtain ⟨signal, hsnt, -⟩ := hsgn pid hpid
    rw [sentSince_stopService_untracked m name notify r s hr hs hur] at hsnt
    cases hsnt
  · intro htr
    refine ⟨?_, ?_⟩
    · intro pid hpid
      exact sentSince_stopService_tracked m name notify r s hr hs hmode htr pid (hpids pid hpid)
    have hservice : r.loaded.isService = true := by
      rw [LoadedUnit.isService, hs, isSome_some]
    rcases state_stopService_of_tracked m name notify r hr hservice htr with h | h <;>
      simp [h]

def observedService (s : ServiceSection) : Manager (Observed Script) :=
  run step (Manager.new { world := oneService s } {} none) (runNow .start)

theorem stop_signals_cgroup_mainProcess :
    let m := observedService { execStart := [⟨"/bin/a", [], false⟩] }
    (∃ si ∈ sentSince m (m.runJob .stop "a.service").2, si.reaches "a.service" 10) ∧
      ∃ si ∈ sentSince m (m.runJob .stop "a.service").2, si.reaches "a.service" 11 := by
  have hrn : (observedService { execStart := [⟨"/bin/a", [], false⟩] }).units["a.service"]?.any
      (fun r => r.tracked && r.loaded.service?.any (·.killMode == .controlGroup)) =
        true := by
    decide
  obtain ⟨r, hr, hfl⟩ := (Option.any_eq_true _ _).mp hrn
  simp only [Bool.and_eq_true, Option.any_eq_true, beq_iff_eq] at hfl
  obtain ⟨htr, s, hs, hmd⟩ := hfl
  have hrh := ((stop_signals_cgroup_iff_tracked _ "a.service" r s hr hs hmd {10, 11}
    (by simp) ⟨10, by simp⟩).mpr htr).1
  exact ⟨hrh 10 (by simp), hrh 11 (by simp)⟩

/-- The main process of an `ExitType=cgroup` service exits while another process of its cgroup
is running. A stop job sends no signal at all and the unit is inactive. -/
theorem populated_cgroup_not_signalled :
    let m := (observedService
      { exitType := .cgroup, execStart := [⟨"/bin/a", [], false⟩] }).step
        (.childExit ⟨10, cldExited, 0⟩)
    m.stateOf "a.service" = some .active ∧ (Kernel.treePopulated m.world "a.service").1 = true ∧
      (m.serviceOf "a.service").map ServiceSection.killMode = some .controlGroup ∧
      sentSince m (m.runJob .stop "a.service").2 = [] ∧
      (m.runJob .stop "a.service").2.stateOf "a.service" = some .inactive := by
  decide

end Rustd.Manager
