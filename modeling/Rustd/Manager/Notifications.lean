import Rustd.Manager.Timeouts

/-!
# Notifications and readiness

Embedding of `apply_notify_events`, `apply_dbus_ready_events` and
`retry_pending_forking_pid_files` in `src/manager.rs:1180–1391`.
-/

namespace Rustd.Manager

open Base Service UnitFile

def stripSuffix (text suffix : String) : Option String :=
  if suffix.toList <:+ text.toList then
    some (String.ofList (text.toList.take (text.length - suffix.length)))
  else none

/-- The service a socket unit triggers. -/
def triggeredServiceName (socketName explicitService : String) : String :=
  if explicitService ≠ "" then explicitService
  else match stripSuffix socketName ".socket" with
    | some stem => stem ++ ".service"
    | none => socketName ++ ".service"

example : triggeredServiceName "foo.socket" "" = "foo.service" := by decide

variable (r : UnitRecord) (message msg : NotifyMessage) (now realtime rt : Option Int)

def mainAfter : Option Int :=
  match message.mainPid with
  | some pid => if 0 < pid then some pid else r.activePid
  | none => r.activePid

/-- The old and the new main process, when a message names another one. -/
def pidChange : Option (Option Int × Int) :=
  match message.mainPid with
  | some pid => if 0 < pid ∧ r.activePid ≠ some pid then some (r.activePid, pid) else none
  | none => none

/-- The message announces the end of a running service. -/
def announcesStop : Bool :=
  message.stopping && (r.state == .active || r.state == .activating)

/-- The message completes a start. -/
def readyRequested : Bool :=
  message.ready && r.state == .activating && !announcesStop r message

/-- The record after the fields of a message were noted. -/
def noteMessage : UnitRecord :=
  let r' := { r with
    statusText := message.status.or r.statusText
    statusErrno := message.errno.or r.statusErrno
    activePid := mainAfter r message }
  let r' := if message.watchdog && (watchdogIntervalNs r).isSome then
    { r' with
      watchdogTimestampNs := now
      watchdogTimestampRealtimeNs := realtime
      watchdogTriggered := false } else r'
  if announcesStop r message then
    { r' with
      state := .deactivating
      watchdogTimestampNs := none
      watchdogTimestampRealtimeNs := none
      watchdogTriggered := false }
  else r'

variable {W : Type} (m : Manager W)

/-- Stop timeout of a unit with a tracked process. -/
def stopTimeoutForRecord (r : UnitRecord) : Option Nat :=
  if r.tracked then
    some ((r.loaded.service?.bind ServiceSection.timeoutStopSec).getD
      (seconds m.config.defaultTimeoutStopSec))
  else none

/-- The socket units that trigger a service. -/
def triggerSockets (serviceName : String) : List SocketRecord :=
  m.socketRecords.toList.filterMap (fun (socketName, socket) =>
    match m.units[socketName]?.map UnitRecord.loaded with
    | some (.socket _ service) =>
      if triggeredServiceName socketName service = serviceName then some socket else none
    | _ => none)

/-- Descriptors of the sockets that trigger a service. -/
def collectListenFdsFor (name : String) : List Int :=
  (m.triggerSockets name).flatMap SocketRecord.listenFds

/-- Start to watch the watchdog of a unit that has one. -/
def stampWatchdog (r : UnitRecord) : UnitRecord :=
  if (watchdogIntervalNs r).isSome then
    { r with
      watchdogTimestampNs := now
      watchdogTimestampRealtimeNs := realtime
      watchdogTriggered := false }
  else r

variable [Kernel W] (m : Manager W) (name u : String) (event ev : NotifyEvent) (announced : Bool)
  (r : UnitRecord) (message msg : NotifyMessage) (now realtime rt : Option Int)

/-- Tell the server about a new main process. -/
def applyNotifyPidChange (oldPid : Option Int) (newPid : Int) : Manager W :=
  let m := match oldPid with
    | some oldPid => m.onNotify (·.replacePid oldPid newPid)
    | none => match m.units[name]?.bind UnitRecord.notifyAccess with
      | some access => m.onNotify (·.registerPid newPid name access)
      | none => m
  (m.ask (Kernel.attachPid · name newPid)).2

/-- A requested `READY=1`, and whether the start timer is to be cancelled. -/
def completeReady (requested : Bool) (now realtime : Option Int) : Bool × Manager W :=
  if !requested then (false, m)
  else
    let procs := m.ask (Kernel.procsExist · name)
    let done := procs.2.apply name (.ok false) (fun r w =>
      completeNotifyStart name r (m.collectListenFdsFor name) m.notify.isSome procs.1 w)
    match done.1 with
    | .ok true => (true, done.2.update name (stampWatchdog now realtime))
    | .ok false => (false, done.2)
    | .error _ => (true, done.2)

/-- Part of `Manager::apply_notify_events`, `src/manager.rs:1201`. -/
def cancelStartWhen (cancel : Bool) : Manager W :=
  if cancel then m.cancelStartTimeout name else m

/-- Arm the stop timer of a unit that announced its end. -/
def armAnnouncedStop : Manager W :=
  if !announced then m
  else match m.units[name]?.bind m.stopTimeoutForRecord with
    | some timeout => m.armServiceStopTimeout name timeout
    | none => m

/-- The stop timer of a unit that announced its end cannot be armed, and the kill in its place
reaches no process. -/
def announcedStopMisses : Bool :=
  announced && (m.units[name]?.bind m.stopTimeoutForRecord).any (m.armMisses name)

/-- Part of `Manager::apply_notify_events`, `src/manager.rs:1201`. -/
def applyPidChange (change : Option (Option Int × Int)) : Manager W :=
  match change with
  | some (oldPid, newPid) => m.applyNotifyPidChange name oldPid newPid
  | none => m

/-- A notification of a loaded unit up to the stop timer. -/
def settleMessage : Manager W :=
  let noted := m.update name (noteMessage · message now realtime)
  let readied := noted.completeReady name (readyRequested r message) now realtime
  let cancelled := readied.2.cancelStartWhen name (readied.1 || announcesStop r message)
  cancelled.armAnnouncedStop name (announcesStop r message)

/-- One notification of a loaded unit. -/
def applyMessage : Manager W :=
  (m.settleMessage name r message now realtime).applyPidChange name (pidChange r message)

/-- Part of `Manager::apply_notify_events`, `src/manager.rs:1201`. -/
def applyNotifyEvent : Manager W :=
  let now := m.ask Kernel.monotonic
  let realtime := now.2.ask Kernel.realtime
  match m.units[event.unitName]? with
  | none => realtime.2
  | some r => realtime.2.applyMessage event.unitName r event.message now.1 realtime.1

/-- All pending notifications. -/
def applyNotifyEvents : Manager W :=
  let events := (m.notify.map NotifyState.pending).getD []
  events.foldl applyNotifyEvent (m.onNotify (·.drainEvents.2))

/-- A `BusName=` got its owner. -/
def applyDbusReady : Manager W :=
  let procs := m.ask (Kernel.procsExist · name)
  let done := procs.2.apply name (.ok false) (fun r w =>
    completeDbusStart name r (m.collectListenFdsFor name) (m.notifyFor name) procs.1 w)
  match done.1 with
  | .ok false => done.2
  | .ok true | .error _ => done.2.cancelStartTimeout name

/-- Look for the PID file of one unit. -/
def retryPidFile : Manager W :=
  let procs := m.ask (Kernel.procsExist · name)
  let done := procs.2.apply name (.ok false) (fun r w =>
    retryForkingPidFile name r (m.notifyFor name) procs.1 w)
  match done.1 with
  | .ok false => done.2
  | .error _ => done.2.cancelStartTimeout name
  | .ok true =>
    let m' := done.2.cancelStartTimeout name
    match m'.units[name]?.bind UnitRecord.activePid,
      m.units[name]?.bind UnitRecord.notifyAccess with
    | some pid, some access => m'.onNotify (·.registerPid pid name access)
    | _, _ => m'

/-- Look for all awaited PID files. -/
def retryPendingForkingPidFiles : Manager W :=
  (m.unitNames.filter (m.units[·]?.any forkingPidFilePending)).foldl retryPidFile m

section

variable {P : Permits} (m : Manager W) (name u : String) (r : UnitRecord) (cancel : Bool)
  (change : Option (Option Int × Int)) (message msg : NotifyMessage) (now realtime rt : Option Int)

omit [Kernel W] in
private theorem noteMessage_loaded : (noteMessage r msg now rt).loaded = r.loaded := by
  simp only [noteMessage]
  split_ifs <;> rfl

omit [Kernel W] in
theorem noteMessage_phase : (noteMessage r msg now rt).phase =
      { r.phase with
        main := mainAfter r msg
        state := if announcesStop r msg then .deactivating else r.state } := by
  simp only [noteMessage]
  split_ifs <;> rfl

private theorem moves_noteMessage (hpid : ∀ pid p, g (.mainPid pid) p)
    (ha : announcesStop r msg = true →
      g .announce { r.phase with main := mainAfter r msg }) :
    Moves g r.phase (noteMessage r msg now rt).phase := by
  have hma : Moves g r.phase { r.phase with main := mainAfter r msg } := by
    unfold mainAfter
    split
    · next pid _ =>
      split
      · exact Reaches.single (.mainPid pid) (hpid pid _) (.mainPid r.phase pid)
      · exact Reaches.refl _
    · exact Reaches.refl _
  rw [noteMessage_phase]
  apply hma.trans
  split
  · next h =>
    refine Reaches.single .announce (ha h) (.announce _ ?_)
    simpa [announcesStop] using (Bool.and_eq_true_iff.mp h).2
  · exact Reaches.refl _

omit [Kernel W] in
private theorem alters_noteMessage
    (hpid : ∀ pid p, mo (.mainPid pid) p) (h : announcesStop r msg = true →
      mo .announce { r.phase with main := mainAfter r msg }) :
    Alters mo ri r (noteMessage r msg now rt) := by
  refine ⟨noteMessage_loaded .., fun _ => moves_noteMessage r _ _ _ hpid h, ?_, ?_⟩
  · intro _ hup
    rw [noteMessage_phase] at hup
    refine .inr ?_
    rcases hup with hup | hup
    · split at hup
      · cases hup
      · exact .inl hup
    split at hup
    · cases hup
    · exact .inr hup
  · intro _ hres
    simp only [noteMessage]
    split_ifs <;> exact hres

private theorem tends_completeReady (re : Bool) (now rt : Option Int)
    (hrd : ∀ p, P.move name .ready p) : Tends P m (m.completeReady name re now rt).2 := by
  simp only [completeReady]
  split
  · exact Tends.refl m
  have hdn := (Tends.ask m (Kernel.procsExist · name)).trans
    (Tends.apply (P := P) name (Except.ok false) (fun r w => completeNotifyStart name r
      (m.collectListenFdsFor name) m.notify.isSome
      (m.ask (Kernel.procsExist · name)).1 w)
      fun r _ => alters_completeNotifyStart name r _ _ _ _ (hrd r.phase))
  split
  · refine hdn.trans (Tends.update name _ ?_)
    intro r _
    unfold stampWatchdog
    split
    · exact Alters.of_phase rfl rfl rfl
    · exact Alters.refl r
  · exact hdn
  · exact hdn

@[simp] theorem ledger_cancelStartWhen : (m.cancelStartWhen name cancel).ledger = m.ledger := by
  unfold cancelStartWhen
  split
  · exact ledger_cancelStartTimeout m name
  · rfl

@[simp] theorem units_cancelStartWhen : (m.cancelStartWhen name cancel).units = m.units :=
  units_of_ledger (ledger_cancelStartWhen m name cancel)

private theorem tends_armAnnouncedStop (announced : Bool)
    (habn : m.announcedStopMisses name announced = true → ∀ p, P.move name .abandon p) :
    Tends P m (m.armAnnouncedStop name announced) := by
  unfold armAnnouncedStop
  split
  · exact Tends.refl m
  rename_i hannounced
  split
  · next timeout hti =>
    apply tends_armServiceStopTimeout m name
    intro hms
    apply habn
    simp [announcedStopMisses, hti, hms, by simpa using hannounced]
  · exact Tends.refl m

@[simp] theorem ledger_applyPidChange : (m.applyPidChange name change).ledger = m.ledger := by
  unfold applyPidChange
  split
  · simp only [applyNotifyPidChange]
    split
    · rfl
    · split <;> rfl
  · rfl

@[simp] theorem units_applyPidChange : (m.applyPidChange name change).units = m.units :=
  units_of_ledger (ledger_applyPidChange m name change)

theorem tends_settleMessage (hr : m.units[name]? = some r)
    (hpid : ∀ pid p, P.move name (.mainPid pid) p) (hrd : ∀ p, P.move name .ready p)
    (ha : announcesStop r msg = true →
      P.move name .announce { r.phase with main := mainAfter r msg } ∧
        ∀ p, P.move name .abandon p) : Tends P m (m.settleMessage name r msg now rt) := by
  have hnt : Tends P m (m.update name (noteMessage · msg now rt)) := by
    apply Tends.update
    intro r' hr'
    cases hr.symm.trans hr'
    exact alters_noteMessage r _ _ _ hpid fun h => (ha h).1
  simp only [settleMessage]
  apply hnt.trans
  apply (tends_completeReady _ name _ _ _ hrd).trans
  apply (Tends.of_ledger (ledger_cancelStartWhen _ name _)).trans
  exact tends_armAnnouncedStop _ name _ (fun h => (ha (Bool.and_eq_true_iff.mp h).1).2)

theorem tends_applyNotifyEvent (event : NotifyEvent)
    (hpid : ∀ pid p, P.move event.unitName (.mainPid pid) p) (hrd : ∀ p, P.move event.unitName
      .ready p)
    (h : ∀ r, m.units[event.unitName]? = some r → announcesStop r event.message = true →
      P.move event.unitName .announce { r.phase with main := mainAfter r event.message } ∧
        ∀ p, P.move event.unitName .abandon p) :
    Tends P m (m.applyNotifyEvent event) := by
  simp only [applyNotifyEvent]
  have hak : Tends P m ((m.ask Kernel.monotonic).2.ask Kernel.realtime).2 := Tends.of_ledger rfl
  split
  · exact hak
  rename_i r hr
  have hse := hak.trans (tends_settleMessage _ _ r _ (m.ask Kernel.monotonic).1
    ((m.ask Kernel.monotonic).2.ask Kernel.realtime).1 hr hpid hrd (h r hr))
  exact hse.trans (Tends.of_ledger (ledger_applyPidChange _ _ _))

theorem tends_applyDbusReady (hrd : ∀ p, P.move u .ready p) : Tends P m (m.applyDbusReady u) := by
  simp only [applyDbusReady]
  have hdn := (Tends.ask m (Kernel.procsExist · u)).trans
    (Tends.apply (P := P) u (Except.ok false) (fun r w => completeDbusStart u r
      (m.collectListenFdsFor u) (m.notifyFor u)
      (m.ask (Kernel.procsExist · u)).1 w)
      fun r _ => alters_completeDbusStart u r _ _ _ _ (hrd r.phase))
  split
  · exact hdn
  · exact hdn.trans (Tends.of_ledger (ledger_cancelStartTimeout _ u))
  · exact hdn.trans (Tends.of_ledger (ledger_cancelStartTimeout _ u))

private theorem tends_retryPidFile (h : ∀ p, p.state = .activating → P.move name .pidFile p) :
    Tends P m (m.retryPidFile name) := by
  simp only [retryPidFile]
  have hdn := (Tends.ask m (Kernel.procsExist · name)).trans
    (Tends.apply (P := P) name (Except.ok false) (fun r w => retryForkingPidFile name r
      (m.notifyFor name) (m.ask (Kernel.procsExist · name)).1 w)
      fun r _ => alters_retryForkingPidFile name r _ _ _ (h r.phase))
  split
  · exact hdn
  · exact hdn.trans (Tends.of_ledger (ledger_cancelStartTimeout _ name))
  apply hdn.trans
  split
  · exact Tends.of_ledger (ledger_cancelStartTimeout _ name)
  · exact Tends.of_ledger (ledger_cancelStartTimeout _ name)

theorem tends_retryPendingForkingPidFiles (h : ∀ name p, p.state = .activating → P.move name
    .pidFile p) :
    Tends P m m.retryPendingForkingPidFiles :=
  Tends.foldl _ _ (fun m name _ => tends_retryPidFile m name (h name)) m

end

namespace Spares

variable {un : String} (m : Manager W)

theorem completeReady (re : Bool) (now rt : Option Int) :
    Spares un m (m.completeReady un re now rt).2 := by
  simp only [Manager.completeReady]
  split
  · exact refl m
  have hdn : Spares un m _ := (ask m (Kernel.procsExist · un)).trans
    (apply _ (Except.ok false) (fun r w => completeNotifyStart un r
      (m.collectListenFdsFor un) m.notify.isSome
      (m.ask (Kernel.procsExist · un)).1 w))
  split
  · exact hdn.trans (update _ _)
  · exact hdn
  · exact hdn

theorem cancelStartWhen (cancel : Bool) : Spares un m (m.cancelStartWhen un cancel) := by
  unfold Manager.cancelStartWhen
  split
  · exact cancelStartTimeout m
  · exact refl m

theorem armAnnouncedStop (announced : Bool) : Spares un m (m.armAnnouncedStop un announced) := by
  unfold Manager.armAnnouncedStop
  split
  · exact refl m
  split
  · exact armServiceStopTimeout m _
  · exact refl m

theorem applyPidChange (name : String) (change : Option (Option Int × Int)) :
    Spares un m (m.applyPidChange name change) := by
  unfold Manager.applyPidChange
  split
  · simp only [applyNotifyPidChange]
    refine Spares.trans ?_ (ask _ _)
    split
    · exact onNotify m _
    split
    · exact onNotify m _
    · exact refl m
  · exact refl m

theorem applyNotifyEvent (ev : NotifyEvent) : Spares ev.unitName m (m.applyNotifyEvent ev) := by
  simp only [Manager.applyNotifyEvent]
  split
  · exact (ask m _).trans (ask _ _)
  apply (ask m _).trans
  apply (ask _ _).trans
  simp only [applyMessage, settleMessage]
  apply (update _ _).trans
  apply (completeReady _ _ _ _).trans
  apply (cancelStartWhen _ _).trans
  apply (armAnnouncedStop _ _).trans
  exact applyPidChange _ _ _

theorem applyDbusReady : Spares un m (m.applyDbusReady un) := by
  simp only [Manager.applyDbusReady]
  apply (ask m _).trans
  apply (apply _ _ _).trans
  split
  · exact refl _
  · exact cancelStartTimeout _
  · exact cancelStartTimeout _

private theorem retryPidFile : Spares un m (m.retryPidFile un) := by
  simp only [Manager.retryPidFile]
  apply (ask m _).trans
  apply (apply _ _ _).trans
  split
  · exact refl _
  · exact cancelStartTimeout _
  apply (cancelStartTimeout _).trans
  split
  · exact onNotify _ _
  · exact refl _

end Spares

theorem shared_retryPendingForkingPidFiles (m : Manager W) :
    m.retryPendingForkingPidFiles.shared = m.shared := by
  simp only [retryPendingForkingPidFiles]
  generalize m.unitNames.filter (m.units[·]?.any forkingPidFilePending) = ns
  induction ns generalizing m with
  | nil => rfl
  | cons name ns ih => exact (ih (m.retryPidFile name)).trans (Spares.retryPidFile m).shared

end Rustd.Manager
