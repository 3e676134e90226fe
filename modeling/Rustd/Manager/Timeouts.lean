import Rustd.Manager.Effects

/-!
# Service timeouts

Embedding of the deadline handling of `src/manager.rs:1393–1674`: the timers of starting and
stopping services, what happens when one fires, and the watchdog.
-/

namespace Rustd.Manager

open Base Service UnitFile List Option Std.ExtTreeMap

variable {W : Type} [Kernel W] (m : Manager W) (name u : String) (s : ServiceSection)
  (event : TimeoutEvent) (timeout : Nat) (operation op : KillOperation)
  (result res : ServiceResult)

/-- Forget the start timer of a unit. -/
def cancelStartTimeout : Manager W :=
  match m.startTimeouts[name]? with
  | none => m
  | some source =>
    { m with
      startTimeouts := m.startTimeouts.erase name
      world := Kernel.removeTimer m.world source }

/-- Forget the stop timer of a unit. -/
def cancelStopTimeout : Manager W :=
  match m.stopTimeouts[name]? with
  | none => m
  | some source =>
    { m with
      stopTimeouts := m.stopTimeouts.erase name
      world := Kernel.removeTimer m.world source }

/-- Part of `Manager::timeout_policy`, `src/manager.rs:1492`. -/
def stopTimeout : Nat :=
  s.timeoutStopSec.getD (seconds m.config.defaultTimeoutStopSec)

/-- The abort timeout in effect for a service. -/
def abortTimeout : Nat :=
  s.timeoutAbortSec.getD (m.stopTimeout s)

/-- Timer delay of a duration: at least one nanosecond, at most `i64::MAX`. -/
def timerNs : Nat := max 1 (min timeout i64Max.toNat)

/-- Signal the processes of a unit; how many were reached. -/
def signalTimeoutOperation : Nat × Manager W :=
  match m.units[name]? with
  | none => (0, m)
  | some r =>
    match r.loaded.service? with
    | none => (0, m)
    | some s =>
      let primary := signalPrimary (.fromService s) r.activePid r.controlPid operation m.world
      let group := signalCgroupMembers name (.fromService s) r.activePid r.controlPid operation
        primary.2
      -- An error while the cgroup is enumerated is logged and counts for nothing.
      (primary.1 + group.1.toOption.getD 0, { m with world := group.2 })

/-- Start deadline passed: stop the unit. -/
def markTimeoutDeactivating : Manager W :=
  m.update name (fun r =>
    { r with
      serviceResult := result
      stopRequested := false
      state := .deactivating
      watchdogTimestampNs := none
      watchdogTimestampRealtimeNs := none })

/-- Forget the registration of the main process of a unit. -/
def unregisterMain : Manager W :=
  match m.units[name]?.bind UnitRecord.activePid with
  | some pid => m.onNotify (·.unregisterPid pid)
  | none => m

/-- End a timed out service none of whose processes could be signalled. -/
def finalizeTimeoutWithoutExit : Manager W :=
  let m := (m.cancelStartTimeout name).cancelStopTimeout name
  let procs := m.ask (Kernel.procsExist · name)
  let m := procs.2.unregisterMain name
  (m.apply name () (fun r w =>
    ((), finishTimeoutFailure name r result m.notify.isSome procs.1 w))).2

/-- Kill the unit for good. -/
def applyFinalKill : Manager W :=
  let result := if m.units[name]?.map UnitRecord.serviceResult = some .watchdog then .watchdog
    else .timeout
  let signalled := m.signalTimeoutOperation name .kill
  if signalled.1 = 0 then signalled.2.finalizeTimeoutWithoutExit name result else signalled.2

/-- Arm the stop timer of a unit; a unit whose timer cannot be armed is killed at once. The phase
travels with the timer. -/
def armServiceStopTimeout : Manager W :=
  let armed := (m.cancelStopTimeout name).ask (Kernel.addTimer · (timerNs timeout))
  match armed.1 with
  | .ok source => { armed.2 with stopTimeouts := armed.2.stopTimeouts.insert name source }
  | .error _ => armed.2.applyFinalKill name

/-- Signal a unit and wait for its processes, or end it when none was reached. -/
def signalAndWait (timeout : Nat) (result : ServiceResult) : Manager W :=
  let signalled := m.signalTimeoutOperation name operation
  if signalled.1 = 0 then signalled.2.finalizeTimeoutWithoutExit name result
  else signalled.2.armServiceStopTimeout name timeout

/-- `Manager::apply_start_deadline` of `src/manager.rs:1553`. -/
def applyStartDeadline : Manager W :=
  if m.stateOf name ≠ some .activating then m
  else match m.serviceOf name with
    | none => m
    | some s =>
      let marked := m.markTimeoutDeactivating name .timeout
      match s.timeoutStartFailureMode with
      | .kill => marked.applyFinalKill name
      | .abort => marked.signalAndWait name .watchdog (m.abortTimeout s) .timeout
      | .terminate => marked.signalAndWait name .terminate (m.stopTimeout s) .timeout

/-- The stop deadline passed. -/
def markOverdue : Manager W :=
  m.update name (fun r => { r with serviceResult := .timeout })

/-- `Manager::apply_stop_deadline` of `src/manager.rs:1587`. -/
def applyStopDeadline : Manager W :=
  match m.serviceOf name with
  | none => m
  | some s =>
    if m.stateOf name ≠ some .deactivating then m
    else
      let late := m.markOverdue name
      if s.timeoutStopFailureMode = .abort then
        late.signalAndWait name .watchdog (m.abortTimeout s) .timeout
      else late.applyFinalKill name

/-- `Manager::apply_abort_deadline` of `src/manager.rs:1615`. -/
def applyAbortDeadline : Manager W :=
  if m.stateOf name = some .deactivating then m.applyFinalKill name else m

/-- Whether a fired timer is the one registered; the registration is removed either way. -/
def takeTimeout : Bool × Manager W :=
  match event.phase with
  | .start =>
    (m.startTimeouts[event.unitName]? == some event.sourceId,
      { m with startTimeouts := m.startTimeouts.erase event.unitName })
  | .stop | .abort =>
    (m.stopTimeouts[event.unitName]? == some event.sourceId,
      { m with stopTimeouts := m.stopTimeouts.erase event.unitName })

/-- A service timer fired. -/
def applyServiceTimeoutEvent : Manager W :=
  let taken := m.takeTimeout event
  if !taken.1 then taken.2
  else
    let m := taken.2.tell (Kernel.removeTimer · event.sourceId)
    match event.phase with
    | .start => m.applyStartDeadline event.unitName
    | .stop => m.applyStopDeadline event.unitName
    | .abort => m.applyAbortDeadline event.unitName

/-- The main process missed its watchdog deadline. -/
def watchdogExpired (now : Int) (r : UnitRecord) : Bool :=
  !r.watchdogTriggered && match watchdogIntervalNs r, r.watchdogTimestampNs, r.activePid with
    | some interval, some last, some _ => decide (interval ≤ saturatingSub now last)
    | _, _, _ => false

def WatchdogMissed : Prop :=
  ∃ r now, m.units[name]? = some r ∧ (Kernel.monotonic m.world).1 = some now ∧
    watchdogExpired now r = true

/-- Part of `Manager::expire_watchdogs`, `src/manager.rs:1393`. -/
def markWatchdog (r : UnitRecord) : UnitRecord :=
  { r with
    watchdogTriggered := true
    statusText := some "Watchdog timeout"
    serviceResult := .watchdog
    stopRequested := false
    state := .deactivating }

/-- Abort one unit that missed its watchdog deadline. -/
def abortForWatchdog : Manager W :=
  let timeout := ((m.serviceOf name).map m.abortTimeout).getD
    (seconds m.config.defaultTimeoutStopSec)
  m.signalAndWait name .watchdog timeout .watchdog

/-- `Manager::expire_watchdogs` of `src/manager.rs:1393`. -/
def expireWatchdogs : Manager W :=
  let clock := m.ask Kernel.monotonic
  match clock.1 with
  | none => clock.2
  | some now =>
    let expired := clock.2.unitNames.filter
      (clock.2.units[·]?.any (watchdogExpired now))
    let marked := expired.foldl (fun m name => m.update name markWatchdog) clock.2
    expired.foldl abortForWatchdog marked

def finalKillMisses : Bool :=
  (m.signalTimeoutOperation name .kill).1 == 0

def armMisses : Bool :=
  let armed := (m.cancelStopTimeout name).ask (Kernel.addTimer · (timerNs timeout))
  match armed.1 with
  | .ok _ => false
  | .error _ => armed.2.finalKillMisses name

def signalMisses (timeout : Nat) : Bool :=
  let signalled := m.signalTimeoutOperation name operation
  signalled.1 == 0 || signalled.2.armMisses name timeout

def startDeadlineMisses : Bool :=
  match m.serviceOf name with
  | none => false
  | some s =>
    let marked := m.markTimeoutDeactivating name .timeout
    m.stateOf name == some .activating && match s.timeoutStartFailureMode with
      | .kill => marked.finalKillMisses name
      | .abort => marked.signalMisses name .watchdog (m.abortTimeout s)
      | .terminate => marked.signalMisses name .terminate (m.stopTimeout s)

def stopDeadlineMisses : Bool :=
  match m.serviceOf name with
  | none => false
  | some s =>
    let late := m.markOverdue name
    m.stateOf name == some .deactivating && if s.timeoutStopFailureMode = .abort then
      late.signalMisses name .watchdog (m.abortTimeout s) else late.finalKillMisses name

def timeoutMisses : Bool :=
  let taken := m.takeTimeout event
  let m := taken.2.tell (Kernel.removeTimer · event.sourceId)
  taken.1 && match event.phase with
    | .start => m.startDeadlineMisses event.unitName
    | .stop => m.stopDeadlineMisses event.unitName
    | .abort => m.stateOf event.unitName == some .deactivating && m.finalKillMisses event.unitName

def abortMisses : Bool :=
  m.signalMisses name .watchdog (((m.serviceOf name).map m.abortTimeout).getD
    (seconds m.config.defaultTimeoutStopSec))

def abortsMiss (m : Manager W) : List String → Bool
  | [] => false
  | name :: names => m.abortMisses name || (m.abortForWatchdog name).abortsMiss names

def watchdogMisses : Bool :=
  let clock := m.ask Kernel.monotonic
  match clock.1 with
  | none => false
  | some now =>
    let expired := clock.2.unitNames.filter
      (clock.2.units[·]?.any (watchdogExpired now))
    (expired.foldl (fun m name => m.update name markWatchdog) clock.2).abortsMiss expired

section

variable {P : Permits} (m : Manager W) (name u : String)

@[simp] theorem ledger_cancelStartTimeout : (m.cancelStartTimeout name).ledger = m.ledger := by
  unfold cancelStartTimeout
  split <;> rfl

@[simp] theorem units_cancelStartTimeout : (m.cancelStartTimeout name).units = m.units :=
  units_of_ledger (ledger_cancelStartTimeout m name)

@[simp] theorem ledger_cancelStopTimeout : (m.cancelStopTimeout name).ledger = m.ledger := by
  unfold cancelStopTimeout
  split <;> rfl

@[simp] theorem units_cancelStopTimeout : (m.cancelStopTimeout name).units = m.units :=
  units_of_ledger (ledger_cancelStopTimeout m name)

variable (operation op : KillOperation) (names us : List String) (timeout : Nat)
  (result res : ServiceResult)

@[simp] theorem ledger_signalTimeoutOperation :
    (m.signalTimeoutOperation name op).2.ledger = m.ledger := by
  unfold signalTimeoutOperation
  split
  · rfl
  · split <;> rfl

@[simp] theorem units_signalTimeoutOperation : (m.signalTimeoutOperation u op).2.units = m.units :=
  units_of_ledger (ledger_signalTimeoutOperation m u op)

omit [Kernel W] in
@[simp] theorem ledger_unregisterMain : (m.unregisterMain name).ledger = m.ledger := by
  unfold unregisterMain
  split <;> rfl

omit [Kernel W] in
@[simp] theorem units_unregisterMain : (m.unregisterMain name).units = m.units :=
  units_of_ledger (ledger_unregisterMain m name)

private theorem tends_finalizeTimeoutWithoutExit (hmv : ∀ p, P.move name .abandon p) :
    Tends P m (m.finalizeTimeoutWithoutExit name res) := by
  simp only [finalizeTimeoutWithoutExit]
  refine Tends.trans (Tends.of_ledger ?_) (Tends.apply name () _ ?_)
  · simp
  · intro r _
    exact alters_finishTimeoutFailure name r _ _ _ res (hmv r.phase)

private theorem tends_applyFinalKill (hmv : m.finalKillMisses name = true → ∀ p, P.move name
    .abandon p) :
    Tends P m (m.applyFinalKill name) := by
  simp only [applyFinalKill]
  apply Tends.trans (Tends.of_ledger (ledger_signalTimeoutOperation m name .kill))
  split
  · next h => exact tends_finalizeTimeoutWithoutExit _ name _ (hmv (by simp [finalKillMisses, h]))
  · exact Tends.refl _

theorem tends_armServiceStopTimeout
    (hmv : m.armMisses name timeout = true → ∀ p, P.move name .abandon p) :
    Tends P m (m.armServiceStopTimeout name timeout) := by
  simp only [armServiceStopTimeout]
  apply Tends.trans (Tends.of_ledger (ledger_cancelStopTimeout m name))
  split
  · exact Tends.of_ledger rfl
  rename_i h
  apply (Tends.ask _ _).trans
  apply tends_applyFinalKill
  intro hms
  exact hmv (by simp [armMisses, h, hms])

private theorem tends_signalAndWait
    (hmv : m.signalMisses name op timeout = true → ∀ p, P.move name .abandon p) :
    Tends P m (m.signalAndWait name op timeout res) := by
  simp only [signalAndWait]
  apply Tends.trans (Tends.of_ledger (ledger_signalTimeoutOperation m name op))
  split
  · next h => exact tends_finalizeTimeoutWithoutExit _ name _ (hmv (by simp [signalMisses, h]))
  apply tends_armServiceStopTimeout
  intro hms
  exact hmv (by simp [signalMisses, hms])

private theorem tends_applyStartDeadline
    (h : m.stateOf name = some .activating → ∀ p, P.move name .deadline p)
    (hmv : m.startDeadlineMisses name = true → ∀ p, P.move name .abandon p) :
    Tends P m (m.applyStartDeadline name) := by
  simp only [applyStartDeadline]
  split
  · exact Tends.refl m
  rename_i hst
  have hst := not_not.mp hst
  have hmarked : Tends P m (m.markTimeoutDeactivating name .timeout) := by
    apply Tends.update
    intro r hr
    have hmks : Makes .deadline r { r with
        serviceResult := .timeout
        stopRequested := false
        state := .deactivating
        watchdogTimestampNs := none
        watchdogTimestampRealtimeNs := none } :=
      ⟨rfl, .deadline r.phase (by simpa [stateOf, hr] using hst)⟩
    exact hmks.alters rfl (h hst _)
  split
  · exact Tends.refl m
  rename_i s hs
  apply hmarked.trans
  simp only [startDeadlineMisses, hs, hst, BEq.rfl, Bool.true_and] at hmv
  split
  · next hmd =>
    rw [hmd] at hmv
    exact tends_applyFinalKill _ name hmv
  · next hmd =>
    rw [hmd] at hmv
    exact tends_signalAndWait _ name _ _ _ hmv
  next hmd =>
  rw [hmd] at hmv
  exact tends_signalAndWait _ name _ _ _ hmv

private theorem tends_applyStopDeadline (h : ∀ p, P.move name .overdue p)
    (hmv : m.stopDeadlineMisses name = true → ∀ p, P.move name .abandon p) :
    Tends P m (m.applyStopDeadline name) := by
  simp only [applyStopDeadline]
  split
  · exact Tends.refl m
  rename_i s hs
  split
  · exact Tends.refl m
  rename_i hst
  have hst := not_not.mp hst
  have hla : Tends P m (m.markOverdue name) := by
    apply Tends.update
    intro r hr
    have hmks : Makes .overdue r { r with serviceResult := .timeout } :=
      ⟨rfl, .overdue r.phase (by simpa [stateOf, hr] using hst)⟩
    exact hmks.alters rfl (h _)
  apply hla.trans
  simp only [stopDeadlineMisses, hs, hst, BEq.rfl, Bool.true_and] at hmv
  split
  · next hmd =>
    rw [if_pos hmd] at hmv
    exact tends_signalAndWait _ name _ _ _ hmv
  next hmd =>
  rw [if_neg hmd] at hmv
  exact tends_applyFinalKill _ name hmv

/-- A fired timer only concerns its unit: its deadline passes, and the manager gives up when
the signals of the deadline reach nobody. -/
theorem tends_applyServiceTimeoutEvent (event : TimeoutEvent)
    (hd : m.stateOf event.unitName = some .activating →
      ∀ p, P.move event.unitName .deadline p)
    (ho : ∀ p, P.move event.unitName .overdue p)
    (hmv : m.timeoutMisses event = true → ∀ p, P.move event.unitName .abandon p) :
    Tends P m (m.applyServiceTimeoutEvent event) := by
  have htk : (m.takeTimeout event).2.ledger = m.ledger := by
    unfold takeTimeout
    split <;> rfl
  simp only [applyServiceTimeoutEvent]
  apply Tends.trans (Tends.of_ledger htk)
  simp only [timeoutMisses] at hmv
  split
  · exact Tends.refl _
  rename_i htoo
  have htoo : (m.takeTimeout event).1 = true := by simpa using htoo
  simp only [htoo, Bool.true_and] at hmv
  apply (Tends.tell _ _).trans
  have hst : ((m.takeTimeout event).2.tell
      (Kernel.removeTimer · event.sourceId)).stateOf event.unitName =
        m.stateOf event.unitName := by
    simp [stateOf, tell, units_of_ledger htk]
  cases hph : event.phase with
  | start =>
    rw [hph] at hmv
    exact tends_applyStartDeadline _ _ (fun h => hd (hst.symm.trans h)) hmv
  | stop =>
    rw [hph] at hmv
    exact tends_applyStopDeadline _ _ ho hmv
  | abort =>
    simp only [hph] at hmv
    simp only [applyAbortDeadline]
    split
    · next hdeactivating =>
      apply tends_applyFinalKill
      intro hms
      exact hmv (by simp [hdeactivating, hms])
    · exact Tends.refl _

omit [Kernel W] in
/-- Marking units as expired changes no process table. -/
private theorem tends_markWatchdog
    (h : ∀ name ∈ us, ∀ r, m.units[name]? = some r → r.activePid.isSome = true)
    (hw : ∀ name ∈ us, ∀ p, P.move name .watchdog p) :
    Tends P m (us.foldl (fun m name => m.update name markWatchdog) m) := by
  induction us generalizing m with
  | nil => exact Tends.refl m
  | cons name us ih =>
    rw [foldl_cons]
    refine Tends.trans (Tends.update name markWatchdog ?_)
      (ih _ ?_ (fun v hother => hw v (mem_cons_of_mem _ hother)))
    · intro r hr
      have hmks : Makes .watchdog r (markWatchdog r) :=
        ⟨rfl, .watchdog r.phase (h name mem_cons_self r hr)⟩
      exact hmks.alters rfl (hw name mem_cons_self _)
    intro v hother r hr
    rw [getElem?_update] at hr
    split at hr
    · obtain ⟨r₀, hr₀, rfl⟩ := map_eq_some_iff.mp hr
      exact h v (mem_cons_of_mem _ hother) r₀ hr₀
    · exact h v (mem_cons_of_mem _ hother) r hr

omit [Kernel W] in
private theorem activePid_of_watchdogExpired {now : Int}
    (h : watchdogExpired now r = true) : r.activePid.isSome = true := by
  simp only [watchdogExpired, Bool.and_eq_true] at h
  have hmt := h.2
  split at hmt
  · next hpid => rw [hpid, isSome_some]
  · cases hmt

private theorem tends_abortForWatchdog
    (habn : m.abortsMiss us = true → ∀ name ∈ us, ∀ p, P.move name .abandon p) :
    Tends P m (us.foldl abortForWatchdog m) := by
  induction us generalizing m with
  | nil => exact Tends.refl m
  | cons name us ih =>
    rw [foldl_cons]
    have hab : Tends P m (m.abortForWatchdog name) := by
      apply tends_signalAndWait m name
      intro hms
      have hms : m.abortMisses name = true := hms
      exact habn (by simp [abortsMiss, hms]) name mem_cons_self
    apply hab.trans (ih _ _)
    intro hms v hother
    exact habn (by simp [abortsMiss, hms]) v (mem_cons_of_mem _ hother)

/-- Missed watchdog deadlines make their services wait for the abort, and the manager gives up
when the signals reach nobody. -/
theorem tends_expireWatchdogs (h : ∀ name, m.WatchdogMissed name → ∀ p, P.move name .watchdog p)
    (habn : m.watchdogMisses = true →
      ∀ name, m.WatchdogMissed name → ∀ p, P.move name .abandon p) :
    Tends P m m.expireWatchdogs := by
  simp only [watchdogMisses] at habn
  simp only [expireWatchdogs]
  apply (Tends.ask _ _).trans
  split
  · exact Tends.refl _
  rename_i now hnow
  simp only [hnow] at habn
  have hmi : ∀ name ∈ (m.ask Kernel.monotonic).2.unitNames.filter (fun name =>
      (m.ask Kernel.monotonic).2.units[name]?.any (watchdogExpired now)),
      ∃ r, m.units[name]? = some r ∧ watchdogExpired now r = true := by
    intro name hname
    exact (Option.any_eq_true _ _).mp (mem_filter.mp hname).2
  apply Tends.trans (tends_markWatchdog _ _ ?_ ?_) (tends_abortForWatchdog _ _ ?_)
  · intro name hname r hr
    obtain ⟨r', hr', hexp⟩ := hmi name hname
    cases hr'.symm.trans hr
    exact activePid_of_watchdogExpired hexp
  · intro name hname p
    obtain ⟨r, hr, hexp⟩ := hmi name hname
    exact h name ⟨r, now, hr, hnow, hexp⟩ p
  intro hms name hname
  obtain ⟨r, hr, hexp⟩ := hmi name hname
  exact habn hms name ⟨r, now, hr, hnow, hexp⟩

end

namespace Spares

variable {un : String} (m : Manager W) (name u : String) (event : TimeoutEvent)
  (operation op : KillOperation) (timeout : Nat) (result res : ServiceResult)

theorem cancelStartTimeout : Spares un m (m.cancelStartTimeout un) := by
  unfold Manager.cancelStartTimeout
  split
  · exact refl m
  refine ⟨fun _ _ => rfl, ?_, fun _ _ => rfl, rfl⟩
  intro v hne
  simp [getElem?_erase, Ne.symm hne]

theorem cancelStopTimeout : Spares un m (m.cancelStopTimeout un) := by
  unfold Manager.cancelStopTimeout
  split
  · exact refl m
  refine ⟨fun _ _ => rfl, fun _ _ => rfl, ?_, rfl⟩
  intro v hne
  simp [getElem?_erase, Ne.symm hne]

theorem signalTimeoutOperation : Spares un m (m.signalTimeoutOperation name op).2 := by
  unfold Manager.signalTimeoutOperation
  split
  · exact refl m
  split
  · exact refl m
  · exact ⟨fun _ _ => rfl, fun _ _ => rfl, fun _ _ => rfl, rfl⟩

omit [Kernel W] in
theorem unregisterMain : Spares un m (m.unregisterMain name) := by
  unfold Manager.unregisterMain
  split
  · exact onNotify m _
  · exact refl m

theorem finalizeTimeoutWithoutExit : Spares un m (m.finalizeTimeoutWithoutExit un res) := by
  simp only [Manager.finalizeTimeoutWithoutExit]
  apply (cancelStartTimeout m).trans
  apply (cancelStopTimeout _).trans
  apply (ask _ _).trans
  apply (unregisterMain _ un).trans
  exact apply _ _ _

theorem applyFinalKill : Spares un m (m.applyFinalKill un) := by
  simp only [Manager.applyFinalKill]
  apply (signalTimeoutOperation _ un .kill).trans
  split
  · exact finalizeTimeoutWithoutExit _ _
  · exact refl _

theorem armServiceStopTimeout : Spares un m (m.armServiceStopTimeout un timeout) := by
  simp only [Manager.armServiceStopTimeout]
  apply (cancelStopTimeout m).trans
  split
  · refine ⟨fun _ _ => rfl, fun _ _ => rfl, ?_, rfl⟩
    intro v hne
    simp [Manager.ask, Std.ExtTreeMap.getElem?_insert, Ne.symm hne]
  · exact (ask _ _).trans (applyFinalKill _)

theorem signalAndWait : Spares un m (m.signalAndWait un op timeout res) := by
  simp only [Manager.signalAndWait]
  apply (signalTimeoutOperation m un op).trans
  split
  · exact finalizeTimeoutWithoutExit _ _
  · exact armServiceStopTimeout _ _

theorem applyStartDeadline : Spares un m (m.applyStartDeadline un) := by
  simp only [Manager.applyStartDeadline]
  split
  · exact refl m
  split
  · exact refl m
  apply (update m _).trans
  split
  · exact applyFinalKill _
  · exact signalAndWait _ _ _ _
  · exact signalAndWait _ _ _ _

theorem applyStopDeadline : Spares un m (m.applyStopDeadline un) := by
  simp only [Manager.applyStopDeadline]
  split
  · exact refl m
  split
  · exact refl m
  apply (update m _).trans
  split
  · exact signalAndWait _ _ _ _
  · exact applyFinalKill _

omit [Kernel W] in
theorem takeTimeout : Spares event.unitName m (m.takeTimeout event).2 := by
  unfold Manager.takeTimeout
  split
  · refine ⟨fun _ _ => rfl, ?_, fun _ _ => rfl, rfl⟩
    intro v hne
    simp [getElem?_erase, Ne.symm hne]
  all_goals
    refine ⟨fun _ _ => rfl, fun _ _ => rfl, ?_, rfl⟩
    intro v hne
    simp [getElem?_erase, Ne.symm hne]

theorem applyServiceTimeoutEvent : Spares event.unitName m (m.applyServiceTimeoutEvent event) := by
  simp only [Manager.applyServiceTimeoutEvent]
  apply (takeTimeout m event).trans
  split
  · exact refl _
  apply (tell _ _).trans
  split
  · exact applyStartDeadline _
  · exact applyStopDeadline _
  simp only [applyAbortDeadline]
  split
  · exact applyFinalKill _
  · exact refl _

end Spares
end Rustd.Manager
