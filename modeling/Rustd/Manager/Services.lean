import Rustd.Manager.Notifications

/-!
# Service jobs

Embedding of `run_service_job`, `start_service` and `stop_service` with the cgroup handling around
them. The bookkeeping of cgroup and OOM event sources is left to the world.
-/

namespace Rustd.Manager

open Base Service UnitFile Jobs Option

variable {W : Type} [Kernel W] (m : Manager W) (name u : String) (r old : UnitRecord)
  (notify nf : Bool)

/-- Enable or disable the sockets that trigger a service. -/
def setTriggerSocketsEnabled (enabled : Bool) : Manager W :=
  ((m.triggerSockets name).flatMap SocketRecord.sourceIds).foldl
    (fun m source => m.tell (Kernel.setIoEnabled · source enabled)) m

def forgetOom : Manager W :=
  { m with
    oomStopping := m.oomStopping.erase name
    oomRecent := m.oomRecent.erase name }

/-- Remove the cgroup of a unit that needs it no longer. -/
def cleanupUnitCgroupIfEmpty : Manager W :=
  if m.units[name]?.any unitCgroupMustRemainRealized then m
  else
    let populated := m.ask (Kernel.isUnitPopulated · name)
    match populated.1 with
    | .no => (populated.2.forgetOom name).tell (Kernel.removeCgroup · name)
    | .notFound => populated.2.forgetOom name
    | .yes | .unreadable => populated.2

/-- Part of `Manager::prepare_service_cgroup`, `src/manager.rs:1968`. -/
def failResources : Manager W :=
  m.update name (fun r => { r with state := .failed, serviceResult := .resources })

/-- Create the cgroup of a service: whether resource controls are requested, and whether the
`cgroup.procs` path can be used. -/
def prepareServiceCgroup : Except String (Bool × Bool) × Manager W :=
  let requested := (m.serviceOf name).any ServiceSection.resourceControlConfigured
  let created := m.ask (Kernel.createCgroup · name)
  match created.1 with
  | .error error =>
    if requested then
      (.error s!"failed to create cgroup for requested resource controls on '{name}': {error}",
        created.2.failResources name)
    else (.ok (requested, false), created.2)
  | .ok procs =>
    let controlled := created.2.ask (Kernel.applyResourceControl · name)
    match controlled.1 with
    | .error error =>
      let m := controlled.2.cleanupUnitCgroupIfEmpty name
      if requested then
        (.error s!"failed to apply requested cgroup resource controls for '{name}': {error}",
          m.failResources name)
      else (.ok (requested, false), m)
    | .ok () => (.ok (requested, procs), controlled.2)

/-- The record of a unit that is about to be activated. -/
def stampStart (now : Int) (realtime : Option Int) (r : UnitRecord) : UnitRecord :=
  { r with
    statusText := none
    statusErrno := none
    lastStartNs := now
    execMainStartMonotonicNs := some now
    execMainStartRealtimeNs := realtime
    execMainExitRealtimeNs := none
    execMainExitMonotonicNs := none
    watchdogTimestampNs := none
    watchdogTimestampRealtimeNs := none
    watchdogTriggered := false }

/-- Give a unit that is about to be activated its invocation id. -/
def assignInvocation : Except String Unit × Manager W :=
  let now := m.ask Kernel.monotonic
  let realtime := now.2.ask Kernel.realtime
  let id := (realtime.2.update name (stampStart (now.1.getD 0) realtime.1)).ask Kernel.randomId
  match id.1 with
  | .error error => (.error s!"failed to generate invocation ID: {error}", id.2)
  | .ok value => (.ok (), id.2.update name (fun r => { r with invocationId := some value }))

/-- Time the start of a unit or its watchdog. -/
def superviseStart (state : UnitState) (watchdog : Option Nat) (startTimeout : Nat) :
    Except String Unit × Manager W :=
  if state = .activating then
    let armed := m.ask (Kernel.addTimer · (timerNs startTimeout))
    match armed.1 with
    | .error error => (.error error, armed.2)
    | .ok source =>
      let m := { armed.2 with startTimeouts := armed.2.startTimeouts.insert name source }
      (.ok (), m.setTriggerSocketsEnabled name false)
  else if state = .active ∧ watchdog.isSome then
    let now := m.ask Kernel.monotonic
    let realtime := now.2.ask Kernel.realtime
    let m := realtime.2.update name (fun r =>
      { r with
        watchdogTimestampNs := now.1
        watchdogTimestampRealtimeNs := realtime.1 })
    (.ok (), m.setTriggerSocketsEnabled name false)
  else (.ok (), m.setTriggerSocketsEnabled name false)

/-- A started process could not be moved to its requested cgroup. -/
def failAttach (pid : Int) : Manager W :=
  ((m.failResources name).onNotify (·.unregisterPid pid)).tell
    (fun w => (Kernel.kill w pid sigterm).2)

/-- Register and attach the process of an activated unit. -/
def adoptStarted (requested inCgroup : Bool) (access : Option NotifyAccess) (watchdog : Option Nat)
    (startTimeout : Nat) : Except String Unit × Manager W :=
  match r.activePid.or r.controlPid with
  | none => (.ok (), m.cleanupUnitCgroupIfEmpty name)
  | some pid =>
    let registered := match r.activePid, access with
      | some mainPid, some access => m.onNotify (·.registerPid mainPid name access)
      | _, _ => m
    let attached := if inCgroup then (.ok (), registered)
      else registered.ask (Kernel.attachPid · name pid)
    match attached.1, requested with
    | .error error, true =>
      (.error s!"failed to attach '{name}' to its requested resource-control cgroup: {error}",
        attached.2.failAttach name pid)
    | _, _ => attached.2.superviseStart name r.state watchdog startTimeout

/-- Activate a unit and take over what it started. -/
def activateUnit (listenFds : List Int) (notify requested inCgroup : Bool)
    (access : Option NotifyAccess) (watchdog : Option Nat) (startTimeout : Nat) :
    Except String Unit × Manager W :=
  let activation := m.apply name (.error s!"unit '{name}' not in registry")
    (fun r w => activate name r listenFds notify inCgroup w)
  match activation.1, activation.2.units[name]? with
  | .error error, _ => (.error error, activation.2.cleanupUnitCgroupIfEmpty name)
  | .ok (), none => (.ok (), activation.2.cleanupUnitCgroupIfEmpty name)
  | .ok (), some r =>
    activation.2.adoptStarted name r requested inCgroup access watchdog startTimeout

/-- Mark a unit as activating, so that its new cgroup stays. -/
def markActivating : Manager W :=
  (m.cancelStartTimeout name).update name (fun r => { r with state := .activating })

/-- `Manager::start_service` of `src/manager.rs:2025`. -/
def startService (access : Option NotifyAccess) (watchdog : Option Nat) (startTimeout : Nat) :
    Except String Unit × Manager W :=
  if !m.units[name]?.any (fun r => r.state == .inactive || r.state == .failed) then (.ok (), m)
  else
    let prepared := (m.markActivating name).prepareServiceCgroup name
    match prepared.1 with
    | .error error => (.error error, prepared.2)
    | .ok (requested, inCgroup) =>
      let assigned := prepared.2.assignInvocation name
      match assigned.1 with
      | .error error => (.error error, assigned.2)
      | .ok () => assigned.2.activateUnit name (m.collectListenFdsFor name) notify requested
          inCgroup access watchdog startTimeout

def clearWatchdog : UnitRecord :=
  { r with
    watchdogTimestampNs := none
    watchdogTimestampRealtimeNs := none
    watchdogTriggered := false }

/-- Part of `Manager::stop_service`, `src/manager.rs:2176`. -/
def stopOperation : KillOperation :=
  if m.restartPending.contains name then .restart else .terminate

/-- Drop the timers of a service and deactivate it. -/
def requestStop : Manager W :=
  let cancelled := (m.cancelStartTimeout name).cancelStopTimeout name
  let procs := cancelled.ask (Kernel.procsExist · name)
  (procs.2.apply name () (fun r w =>
    ((), deactivate name (clearWatchdog r) notify procs.1 (m.stopOperation name) w))).2

/-- Signal the other processes of a service. -/
def signalStopped (operation : KillOperation) : Manager W :=
  match old.loaded.service? with
  | some s => m.tell (fun w => (signalCgroupMembers name (.fromService s) old.activePid
      old.controlPid operation w).2)
  | none => m

/-- The timeout a stop is given. -/
def grantedStopTimeout : Nat :=
  (m.units[name]?.bind m.stopTimeoutForRecord).getD (seconds m.config.defaultTimeoutStopSec)

/-- Wait for the processes of a service. -/
def awaitStop : Manager W :=
  if old.tracked then m.armServiceStopTimeout name (m.grantedStopTimeout name) else m

/-- Forget the process of a service that stopped at once. -/
def forgetStopped : Manager W :=
  let m := match old.activePid.or old.controlPid with
    | some pid => m.onNotify (·.unregisterPid pid)
    | none => m
  m.update name clearWatchdog

/-- `Manager::stop_service` of `src/manager.rs:2176`. -/
def stopService : Manager W :=
  let stopped := m.requestStop name notify
  match m.units[name]? with
  | none => stopped
  | some old =>
    if stopped.units[name]?.any UnitRecord.tracked then
      (stopped.signalStopped name old (m.stopOperation name)).awaitStop name old
    else stopped.forgetStopped name old

/-- `Manager::run_service_job` of `src/manager.rs:1920`. -/
def runServiceJob (kind : JobKind) (name : String) (r : UnitRecord) (s : ServiceSection) :
    Except String Unit × Manager W :=
  let access := effectiveNotifyAccess s
  let notify := access.isSome && m.notify.isSome
  match kind with
  | .start => m.startService name notify access s.watchdogSec
      (s.timeoutStartSec.getD (seconds m.config.defaultTimeoutStartSec))
  | .stop => (.ok (), m.stopService name notify)
  | .reload =>
    let procs := m.ask (Kernel.procsExist · name)
    procs.2.ask (reload name r notify procs.1)
  | .nop | .restart | .isolate => (.ok (), m)

structure Starts (ok : UnitRecord → Prop) (name : String) (m m' : Manager W) : Prop where
  others : ∀ other, other ≠ name → m'.units[other]? = m.units[other]?
  absent : m.units[name]? = none → m'.units[name]? = none
  started : ∀ r, m.units[name]? = some r → ok r → ∃ r', m'.units[name]? = some r' ∧ ok r'

namespace Starts

variable {ok : UnitRecord → Prop} {name u : String} {m m' m'' : Manager W}

omit [Kernel W] in
theorem of_units (h : m'.units = m.units) : Starts ok name m m' := by
  refine ⟨fun v _ => by rw [h], fun hnn => by rw [h, hnn], ?_⟩
  intro r hr hok
  exact ⟨r, by rw [h, hr], hok⟩

omit [Kernel W] in
theorem ask {α : Type} (m : Manager W) (f : W → α × W) : Starts ok name m (m.ask f).2 :=
  of_units rfl

omit [Kernel W] in
theorem trans (h : Starts ok name m m') (h' : Starts ok name m' m'') : Starts ok name m m'' := by
  refine ⟨fun v hne => (h'.others v hne).trans (h.others v hne),
    fun hnn => h'.absent (h.absent hnn), ?_⟩
  intro r hr hok
  obtain ⟨r', hr', hok'⟩ := h.started r hr hok
  exact h'.started r' hr' hok'

omit [Kernel W] in
theorem update (f : UnitRecord → UnitRecord) (hf : ∀ r, ok r → ok (f r)) :
    Starts ok name m (m.update name f) := by
  refine ⟨?_, ?_, ?_⟩
  · intro v hne
    rw [getElem?_update, if_neg (Ne.symm hne)]
  · intro hnn
    rw [getElem?_update, if_pos rfl, hnn, map_none]
  · intro r hr hok
    exact ⟨f r, by rw [getElem?_update, if_pos rfl, hr, map_some], hf r hok⟩

omit [Kernel W] in
theorem apply {α : Type} (a : α) (f : UnitRecord → W → α × UnitRecord × W)
    (hf : ∀ r w, ok r → ok (f r w).2.1) : Starts ok name m (m.apply name a f).2 := by
  unfold Manager.apply
  cases hr : m.units[name]? with
  | none => exact of_units rfl
  | some r =>
    refine ⟨?_, ?_, ?_⟩
    · intro v hne
      simp [Std.ExtTreeMap.getElem?_insert, Ne.symm hne]
    · intro hnn
      cases hr.symm.trans hnn
    intro r' hr' hok
    cases hr.symm.trans hr'
    exact ⟨(f r m.world).2.1, by simp, hf r m.world hok⟩

end Starts

def Attaches (W : Type) [Kernel W] (name : String) : Prop :=
  ∀ (w : W) (pid : Int), (Kernel.attachPid w name pid).1 = .ok ()

structure KeptByStart (ok : UnitRecord → Prop) : Prop where
  marked : ∀ r, ok r → ok { r with state := .activating }
  failed : ∀ r, ok r → ok { r with state := .failed, serviceResult := .resources }
  stamped : ∀ now realtime r, ok r → ok (stampStart now realtime r)
  invoked : ∀ id r, ok r → ok { r with invocationId := id }
  watched : ∀ now realtime r, ok r →
    ok { r with watchdogTimestampNs := now, watchdogTimestampRealtimeNs := realtime }

theorem keptByStart_counted (ld : LoadedUnit) (n : Nat) :
    KeptByStart (fun r => Started ld r ∧ r.restartCount = n) where
  marked _ h := ⟨⟨h.1.1, by simp⟩, h.2⟩
  failed _ h := ⟨⟨h.1.1, by simp⟩, h.2⟩
  stamped _ _ _ h := h
  invoked _ _ h := h
  watched _ _ _ h := h

section

variable {P : Permits} (m : Manager W) (name u : String) (enabled notify nf : Bool) (r : UnitRecord)

@[simp] theorem ledger_setTriggerSocketsEnabled :
    (m.setTriggerSocketsEnabled name enabled).ledger = m.ledger := by
  unfold setTriggerSocketsEnabled
  generalize (m.triggerSockets name).flatMap SocketRecord.sourceIds = s
  induction s generalizing m with
  | nil => rfl
  | cons so s ih =>
    rw [List.foldl_cons, ih]
    rfl

@[simp] theorem units_setTriggerSocketsEnabled :
    (m.setTriggerSocketsEnabled name enabled).units = m.units :=
  units_of_ledger (ledger_setTriggerSocketsEnabled m name enabled)

@[simp] theorem ledger_cleanupUnitCgroupIfEmpty :
    (m.cleanupUnitCgroupIfEmpty name).ledger = m.ledger := by
  simp only [cleanupUnitCgroupIfEmpty]
  split
  · rfl
  · split <;> rfl

@[simp] theorem units_cleanupUnitCgroupIfEmpty : (m.cleanupUnitCgroupIfEmpty u).units = m.units :=
  units_of_ledger (ledger_cleanupUnitCgroupIfEmpty m u)

section

variable {ok : UnitRecord → Prop} (hw : ∀ now realtime r, ok r →
  ok { r with watchdogTimestampNs := now, watchdogTimestampRealtimeNs := realtime })

include hw

private theorem starts_superviseStart (st : UnitState) (wd : Option Nat) (tm : Nat) :
    Starts ok name m (m.superviseStart name st wd tm).2 := by
  simp only [superviseStart]
  split
  · split
    · exact Starts.of_units rfl
    · exact Starts.of_units (by simp)
  split
  · apply (Starts.ask m Kernel.monotonic).trans
    apply (Starts.ask _ Kernel.realtime).trans
    apply Starts.trans _ (Starts.of_units (units_setTriggerSocketsEnabled _ name false))
    exact Starts.update _ (hw _ _)
  · exact Starts.of_units (units_setTriggerSocketsEnabled m name false)

/-- Taking over what an activation has spawned fails the unit only if the process cannot be moved
to the cgroup that its resource controls ask for. -/
theorem starts_adoptStarted (r : UnitRecord) (re cg : Bool)
    (ac : Option NotifyAccess) (wd : Option Nat) (tm : Nat) (hfa : re = true → ¬Attaches W name →
      ∀ r, ok r → ok { r with state := .failed, serviceResult := .resources }) :
    Starts ok name m (m.adoptStarted name r re cg ac wd tm).2 := by
  simp only [adoptStarted]
  split
  · exact Starts.of_units (units_cleanupUnitCgroupIfEmpty m name)
  rename_i pid _
  generalize hrg : (match r.activePid, ac with
    | some mainPid, some ac => m.onNotify (·.registerPid mainPid name ac)
    | _, _ => m) = registered
  have hun : registered.units = m.units := by
    rw [← hrg]
    split <;> rfl
  apply (Starts.of_units hun).trans
  generalize hattached : (if cg then (.ok (), registered)
    else registered.ask (Kernel.attachPid · name pid)) = attached
  have hun' : attached.2.units = registered.units := by
    rw [← hattached]
    split <;> rfl
  apply (Starts.of_units hun').trans
  split
  · next error herr =>
    have hrf : ¬Attaches W name := by
      intro h
      rw [← hattached] at herr
      split at herr
      · cases herr
      · cases (h _ _).symm.trans herr
    have hre : Starts ok name attached.2 (attached.2.failResources name) :=
      Starts.update _ (hfa rfl hrf)
    exact hre.trans (Starts.of_units rfl)
  · exact starts_superviseStart _ name hw _ _ _

end

section

variable {ok : UnitRecord → Prop} (hok : KeptByStart ok)

include hok

omit [Kernel W] in
private theorem starts_failResources : Starts ok name m (m.failResources name) :=
  Starts.update _ hok.failed

private theorem starts_prepareServiceCgroup : Starts ok name m (m.prepareServiceCgroup name).2 := by
  simp only [prepareServiceCgroup]
  apply (Starts.ask m (Kernel.createCgroup · name)).trans
  split
  · split
    · exact starts_failResources _ name hok
    · exact Starts.of_units rfl
  apply (Starts.ask _ (Kernel.applyResourceControl · name)).trans
  split
  · apply (Starts.of_units (units_cleanupUnitCgroupIfEmpty _ name)).trans
    split
    · exact starts_failResources _ name hok
    · exact Starts.of_units rfl
  · exact Starts.of_units rfl

theorem starts_assignInvocation : Starts ok name m (m.assignInvocation name).2 := by
  simp only [assignInvocation]
  apply (Starts.ask m Kernel.monotonic).trans
  apply (Starts.ask _ Kernel.realtime).trans
  apply (Starts.update (stampStart _ _) (hok.stamped _ _)).trans
  apply (Starts.ask _ Kernel.randomId).trans
  split
  · exact Starts.of_units rfl
  · exact Starts.update _ (hok.invoked _)

private theorem starts_activateUnit (fds : List Int) (nf re cg : Bool)
    (ac : Option NotifyAccess) (wd : Option Nat) (tm : Nat) (h : ∀ r fds cg (w : W), ok r →
      ok (activate name r fds nf cg w).2.1) :
    Starts ok name m (m.activateUnit name fds nf re cg ac wd tm).2 := by
  simp only [activateUnit]
  apply (Starts.apply (Except.error _) (fun r w => activate name r fds nf cg w)
    fun r w => h r fds cg w).trans
  split
  · exact Starts.of_units (units_cleanupUnitCgroupIfEmpty _ name)
  · exact Starts.of_units (units_cleanupUnitCgroupIfEmpty _ name)
  · exact starts_adoptStarted _ name hok.watched _ _ _ _ _ _ (fun _ _ => hok.failed)

theorem starts_startService (nf : Bool) (ac : Option NotifyAccess) (wd : Option Nat) (tm : Nat)
    (h : ∀ r fds cg (w : W), ok r →
      ok (activate name r fds nf cg w).2.1) :
    Starts ok name m (m.startService name nf ac wd tm).2 := by
  simp only [startService]
  split
  · exact Starts.of_units rfl
  have hmarked : Starts ok name m (m.markActivating name) :=
    (Starts.of_units (units_cancelStartTimeout m name)).trans (Starts.update _ hok.marked)
  apply hmarked.trans
  apply (starts_prepareServiceCgroup _ name hok).trans
  split
  · exact Starts.of_units rfl
  apply (starts_assignInvocation _ name hok).trans
  split
  · exact Starts.of_units rfl
  · exact starts_activateUnit _ name hok _ _ _ _ _ _ _ h

end

section

private theorem queues_cleanup : (m.cleanupUnitCgroupIfEmpty name).queues = m.queues :=
  queues_of_ledger (ledger_cleanupUnitCgroupIfEmpty m name)

private theorem queues_prepareServiceCgroup :
    (m.prepareServiceCgroup name).2.queues = m.queues := by
  simp only [prepareServiceCgroup, failResources]
  split
  · split <;> simp
  split
  · split <;> simp [queues_cleanup]
  · simp

private theorem queues_assignInvocation : (m.assignInvocation name).2.queues = m.queues := by
  simp only [assignInvocation]
  split <;> simp

private theorem queues_superviseStart (st : UnitState) (wd : Option Nat) (tm : Nat) :
    (m.superviseStart name st wd tm).2.queues = m.queues := by
  simp only [superviseStart]
  split
  · split
    · rfl
    · exact queues_of_ledger (ledger_setTriggerSocketsEnabled _ name false)
  split
  · rw [queues_of_ledger (ledger_setTriggerSocketsEnabled _ name false), queues_update]
    rfl
  · exact queues_of_ledger (ledger_setTriggerSocketsEnabled m name false)

private theorem queues_adoptStarted (r : UnitRecord) (re cg : Bool)
    (ac : Option NotifyAccess) (wd : Option Nat) (tm : Nat) :
    (m.adoptStarted name r re cg ac wd tm).2.queues =
      m.queues := by
  simp only [adoptStarted]
  split
  · exact queues_cleanup m name
  split
  · refine (queues_update _ name _).trans ?_
    split
    · split <;> rfl
    · split <;> rfl
  rw [queues_superviseStart]
  split
  · split <;> rfl
  · split <;> rfl

private theorem queues_activateUnit (fds : List Int) (nf re cg : Bool)
    (ac : Option NotifyAccess) (wd : Option Nat) (tm : Nat) :
      (m.activateUnit name fds nf re cg ac wd
      tm).2.queues = m.queues := by
  simp only [activateUnit]
  split
  · rw [queues_cleanup, queues_apply]
  · rw [queues_cleanup, queues_apply]
  · rw [queues_adoptStarted, queues_apply]

private theorem queues_startService (nf : Bool) (ac : Option NotifyAccess) (wd : Option Nat)
    (tm : Nat) :
    (m.startService name nf ac wd tm).2.queues = m.queues := by
  have hmarked : (m.markActivating name).queues = m.queues := by
    rw [markActivating, queues_update, queues_of_ledger (ledger_cancelStartTimeout m name)]
  simp only [startService]
  split
  · rfl
  split
  · rw [queues_prepareServiceCgroup, hmarked]
  split
  · rw [queues_assignInvocation, queues_prepareServiceCgroup, hmarked]
  · rw [queues_activateUnit, queues_assignInvocation, queues_prepareServiceCgroup, hmarked]

end

variable {m name u} in
omit [Kernel W] in
theorem Starts.tends (h : ∀ ld n, Starts (fun r => Started ld r ∧ r.restartCount = n) name m m')
    (hqueues : m'.queues = m.queues)
    (hse : ∀ r, m.units[name]? = some r → r.phase.settled ∧ r.loaded.isService = true)
    (hstr : ∀ p, P.move name .start p) : Tends P m m' := by
  have hts : m'.restartTimers = m.restartTimers := congrArg (·.2.2.2) hqueues
  refine ⟨?_, ?_, Queues.of_queues hqueues, fun _ _ _ hsc => .inl (hts ▸ hsc)⟩
  · intro v r hr
    by_cases heq : v = name
    · subst heq
      obtain ⟨hdw, hservice⟩ := hse r hr
      have hst : r.state ≠ .deactivating := by
        rcases hdw with hst | hst <;> simp [← phase_state, hst]
      obtain ⟨r', hr', ⟨hld, hst'⟩, hcn⟩ :=
        (h r.loaded r.restartCount).started r hr ⟨⟨rfl, hst⟩, rfl⟩
      have hmks : Makes .start r r' := ⟨Prod.ext hld hcn, .start _ _ hdw hst'⟩
      exact ⟨r', hr', hmks.alters_service hservice (hstr _)⟩
    · exact ⟨r, ((h r.loaded r.restartCount).others v heq).trans hr, Alters.refl r⟩
  · intro v r' hnn hsome
    by_cases heq : v = name
    · subst heq
      cases ((h r'.loaded 0).absent hnn).symm.trans hsome
    · rw [(h r'.loaded 0).others v heq, hnn] at hsome
      cases hsome

private theorem tends_startService (ac : Option NotifyAccess) (wd : Option Nat)
    (tm : Nat) (hservice : ∀ r, m.units[name]? = some r → r.loaded.isService = true)
    (hstr : ∀ p, P.move name .start p) : Tends P m (m.startService name nf ac wd tm).2 := by
  by_cases hse : m.units[name]?.any (fun r => r.state == .inactive || r.state == .failed) = true
  · refine Starts.tends ?_ (queues_startService m name nf ac wd tm) ?_ hstr
    · intro ld n
      apply starts_startService m name (keptByStart_counted ld n)
      rintro r fds cg w ⟨⟨rfl, hst⟩, rfl⟩
      obtain ⟨hfx, hst'⟩ := launched_activate name r nf cg w fds hst
      exact ⟨⟨congrArg Prod.fst hfx, hst'⟩, congrArg Prod.snd hfx⟩
    · intro r hr
      exact ⟨by simpa [hr, Phase.settled] using hse, hservice r hr⟩
  · have hsa : m.startService name nf ac wd tm = (.ok (), m) := by
      rw [startService, if_pos (by simpa using hse)]
    rw [hsa]
    exact Tends.refl m

omit [Kernel W] in
private theorem clearWatchdog_phase : (clearWatchdog r).phase = r.phase := rfl

private theorem tends_requestStop
    (hstp : ∀ r, m.units[name]? = some r → P.move name .stop r.phase) :
    Tends P m (m.requestStop name nf) := by
  simp only [requestStop]
  refine Tends.trans (Tends.of_ledger ?_) (Tends.apply name () _ ?_)
  · simp
  intro r hr
  simp only [units_ask, units_cancelStopTimeout, units_cancelStartTimeout] at hr
  have hcl : Alters (P.move name) (P.rise name) r (clearWatchdog r) :=
    Alters.of_phase rfl (clearWatchdog_phase r) rfl
  exact hcl.trans (alters_deactivate name (clearWatchdog r) nf _ _ _ (hstp r hr))

theorem requestStop_makes (hr : m.units[name]? = some r) (hservice : r.loaded.isService = true) :
    ∃ r', (m.requestStop name nf).units[name]? = some r' ∧ Makes .stop r r' := by
  obtain ⟨s, hs⟩ := isSome_iff_exists.mp hservice
  refine ⟨_, ?_, deactivate_makes name s (clearWatchdog r) nf
    (((m.cancelStartTimeout name).cancelStopTimeout name).ask
      (Kernel.procsExist · name)).1
    (((m.cancelStartTimeout name).cancelStopTimeout name).ask
      (Kernel.procsExist · name)).2.world (m.stopOperation name) hs⟩
  simp [requestStop, Manager.apply, hr]

theorem phase_requestStop_of_tracked (hr : m.units[name]? = some r)
    (hservice : r.loaded.isService = true) (htr : r.tracked = true) :
    ∃ r', (m.requestStop name nf).units[name]? = some r' ∧ r'.loaded = r.loaded ∧
      r'.phase = { r.phase with state := .deactivating, stopRequested := true } := by
  obtain ⟨r', hr', hfx, hmv⟩ := requestStop_makes m name nf r hr hservice
  refine ⟨r', hr', congrArg Prod.fst hfx, ?_⟩
  generalize r'.phase = q at hmv ⊢
  cases hmv with
  | stopTracked => rfl
  | stopUntracked _ _ hur => cases hur.symm.trans htr

@[simp] theorem ledger_signalStopped (old : UnitRecord) (op : KillOperation) :
    (m.signalStopped name old op).ledger = m.ledger := by
  unfold signalStopped
  split <;> rfl

def stopMisses (notify : Bool) : Bool :=
  match m.units[name]? with
  | none => false
  | some old =>
    let stopped := m.requestStop name notify
    let signalled := stopped.signalStopped name old (m.stopOperation name)
    stopped.units[name]?.any UnitRecord.tracked &&
      signalled.armMisses name (signalled.grantedStopTimeout name)

/-- A stop job of a service with tracked processes requests the stop, signals the cgroup and
arms the timer. -/
theorem stopService_of_tracked (hr : m.units[name]? = some r) (hservice : r.loaded.isService = true)
    (htr : r.tracked = true) :
    m.stopService name nf =
      ((m.requestStop name nf).signalStopped name r
        (m.stopOperation name)).armServiceStopTimeout
        name (((m.requestStop name nf).signalStopped name r (m.stopOperation
          name)).grantedStopTimeout name) := by
  obtain ⟨r₁, hr₁, -, hph⟩ := phase_requestStop_of_tracked m name nf r hr hservice htr
  have htr₁ : (m.requestStop name nf).units[name]?.any UnitRecord.tracked = true := by
    rw [hr₁, any_some, ← phase_tracked, hph]
    exact htr
  simp only [stopService, hr, htr₁, if_true, awaitStop, htr]

theorem state_stopService_of_tracked (hr : m.units[name]? = some r)
    (hservice : r.loaded.isService = true) (htr : r.tracked = true) :
    (m.stopService name nf).stateOf name = some .deactivating ∨
      (m.stopService name nf).stateOf name = some .failed := by
  obtain ⟨r₁, hr₁, hld, hph⟩ := phase_requestStop_of_tracked m name nf r hr hservice htr
  have htn : Tends (.moves fun _ l _ => l = .abandon) (m.requestStop name nf)
      (m.stopService name nf) := by
    rw [stopService_of_tracked m name nf r hr hservice htr]
    exact (tends_armServiceStopTimeout _ name _ fun _ _ => rfl).after_ledger
      (ledger_signalStopped _ name r _)
  obtain ⟨r₂, hr₂, -, hmo⟩ := htn.evolves.loaded name r₁ hr₁
  have hst : r₂.phase.state = .deactivating ∨ r₂.phase.state = .failed := by
    apply (hmo (by rw [hld, hservice])).invariant
      (I := fun p => p.state = .deactivating ∨ p.state = .failed)
    · rintro l p q - rfl hmv
      cases hmv
      exact .inr rfl
    · exact .inl (by rw [hph])
  rw [stateOf, hr₂, map_some, ← phase_state]
  exact hst.imp (congrArg some) (congrArg some)

theorem tends_stopService_of_requested
    (habn : m.stopMisses name nf = true → ∀ p, P.move name .abandon p) :
    Tends P (m.requestStop name nf) (m.stopService name nf) := by
  simp only [stopService]
  split
  · exact Tends.refl _
  rename_i old hold
  split
  · next htr =>
    apply (Tends.of_ledger (ledger_signalStopped _ name old _)).trans
    unfold awaitStop
    split
    · apply tends_armServiceStopTimeout
      intro hms
      exact habn (by simp [stopMisses, hold, htr, hms])
    · exact Tends.refl _
  · unfold forgetStopped
    refine Tends.trans (Tends.of_ledger ?_)
      (Tends.update name clearWatchdog fun r _ => Alters.of_phase rfl (clearWatchdog_phase r) rfl)
    split <;> rfl

theorem tends_stopService (hstp : ∀ r, m.units[name]? = some r → P.move name .stop r.phase)
    (habn : m.stopMisses name nf = true → ∀ p, P.move name .abandon p) : Tends P m
      (m.stopService name nf) :=
  (tends_requestStop m name nf hstp).trans
    (tends_stopService_of_requested m name nf habn)

theorem tends_runServiceJob (k : JobKind) (r : UnitRecord) (s : ServiceSection)
    (hr : m.units[name]? = some r) (hs : r.loaded.service? = some s)
    (hstr : k = .start → ∀ p, P.move name .start p)
    (hstp : k = .stop → ∀ p, P.move name .stop p ∧ P.move name .abandon p) :
    Tends P m (m.runServiceJob k name r s).2 := by
  cases k with
  | start =>
    refine tends_startService m name _ _ _ _ ?_ (hstr rfl)
    intro r' hr'
    cases hr.symm.trans hr'
    rw [LoadedUnit.isService, hs]
    rfl
  | stop =>
    exact tends_stopService m name _ (fun r _ => (hstp rfl r.phase).1) (fun _ p => (hstp rfl p).2)
  | reload => exact Tends.of_ledger rfl
  | nop | restart | isolate => exact Tends.refl m

end

namespace Spares

variable {un : String}

theorem stopService (m : Manager W) (nf : Bool) : Spares un m (m.stopService un nf) := by
  have hrqs : Spares un m (m.requestStop un nf) := by
    simp only [requestStop]
    apply (cancelStartTimeout m).trans
    apply (cancelStopTimeout _).trans
    apply (ask _ _).trans
    exact apply _ _ _
  simp only [Manager.stopService]
  apply hrqs.trans
  split
  · exact refl _
  rename_i old _
  split
  · have hsgn : Spares un (m.requestStop un nf)
        ((m.requestStop un nf).signalStopped un old
          (m.stopOperation un)) := by
      unfold signalStopped
      split
      · exact ⟨fun _ _ => rfl, fun _ _ => rfl, fun _ _ => rfl, rfl⟩
      · exact refl _
    apply hsgn.trans
    unfold awaitStop
    split
    · exact armServiceStopTimeout _ _
    · exact refl _
  · unfold forgetStopped
    refine Spares.trans ?_ (update _ _)
    split
    · exact onNotify _ _
    · exact refl _

end Spares
end Rustd.Manager
