import Rustd.Manager.Jobs

/-!
# Ends of processes

Embedding of the handlers for exited children, emptied cgroups, out-of-memory kills and
reset-failed requests: `src/manager.rs:949–970`, `1676–1821` and `2327–2445`.
-/

namespace Rustd.Manager

open Base Service UnitFile Jobs List Std.ExtTreeMap

variable {W : Type} [Kernel W] (m : Manager W) (name u : String) (names us : List String)
  (r : UnitRecord) (exit e : ChildExit) (now realtime rt : Option Int) (related rel : Bool)

/-- Arm the timer of an automatic restart, or queue the start at once. -/
def scheduleRestart (delay : Nat) : Manager W :=
  let armed := m.ask (Kernel.addTimer · (max (truncateI64 delay) 1000000).toNat)
  match armed.1 with
  | .ok source => { armed.2 with restartTimers := armed.2.restartTimers ++ [(source, name)] }
  | .error _ => { armed.2 with jobQueue := armed.2.jobQueue.enqueueInternal .start name }

/-- The timer of an automatic restart fires. -/
def restartTimerFired (source : Nat) : Manager W :=
  match m.restartTimers.find? (·.1 == source) with
  | none => m
  | some timer =>
    { m with
      restartTimers := m.restartTimers.erase timer
      sharedQueue := m.sharedQueue.enqueueInternal .start timer.2 }

/-- Restart a unit if its settings ask for it. -/
def automaticRestart : Manager W :=
  let now := m.ask Kernel.monotonic
  let decided := now.2.apply name none (fun r w =>
    let delay := automaticRestartDelayAt (Kernel.restartCurve W) r exit (now.1.getD 0)
    (delay.1, delay.2, w))
  match decided.1 with
  | some delay => decided.2.scheduleRestart name delay
  | none => decided.2

/-- The exit of a process of the unit counts as an out-of-memory kill. -/
def oomRelated : Bool × Manager W :=
  let now := m.ask Kernel.instant
  (m.oomStopping.contains name || m.oomRecent[name]?.any (now.1 < ·), now.2)

/-- The first unit that a process belongs to. -/
def ownerOf (pid : Int) : Option String :=
  m.unitNames.find? (fun name => m.units[name]?.any (fun r =>
    r.controlPid == some pid || (r.loaded.isService && r.activePid == some pid)))

/-- Part of `Manager::apply_child_exits`, `src/manager.rs:1681`. -/
def oomKilled : UnitRecord :=
  { r with
    serviceResult := .oomKill
    state := if r.state = .active then .active else .failed }

def noteOom : Manager W :=
  if related then m.update name oomKilled else m

/-- Part of `Manager::apply_child_exits`, `src/manager.rs:1681`. -/
def cancelStopWhen (cancel : Bool) : Manager W :=
  if cancel then m.cancelStopTimeout name else m

/-- Exit of the control process of a unit. -/
def applyControlExit : Manager W :=
  let related := m.oomRelated name
  let stopping := r.stopRequested && !related.1
  let procs := related.2.ask (Kernel.procsExist · name)
  let done := procs.2.apply name (.ok false) (fun r w =>
    onForkingControlExit name r exit (m.notifyFor name) procs.1 w)
  let m := done.2.cancelStartWhen name (done.2.stateOf name != some .activating)
  let m := (m.cancelStopWhen name stopping).noteOom name related.1
  if m.stateOf name = some .failed ∧ stopping = false then m.automaticRestart name exit else m

/-- The record of a unit whose main process has exited. -/
def stampExit (r : UnitRecord) : UnitRecord :=
  { clearWatchdog r with
    execMainExitRealtimeNs := realtime
    execMainExitMonotonicNs := now }

/-- Start the unit again, as requested or as configured. -/
def restartAfterExit (stopping : Bool) : Manager W :=
  if m.restartPending.contains name then
    { m with
      restartPending := m.restartPending.erase name
      jobQueue := m.jobQueue.enqueueInternal .start name }
  else if !stopping then m.automaticRestart name exit
  else m

/-- The record and the tables after the main process of a unit exited. -/
def noteMainExit : Manager W :=
  let procs := m.ask (Kernel.procsExist · name)
  let done := procs.2.apply name false (fun r w =>
    onChildExit name r exit (m.notifyFor name) procs.1 w)
  let m := (done.2.update name (stampExit now realtime)).noteOom name related
  ((m.cancelStartTimeout name).cancelStopTimeout name).onNotify (·.unregisterPid exit.pid)

/-- Exit of the main process of a unit. -/
def applyMainExit : Manager W :=
  let related := m.oomRelated name
  (related.2.noteMainExit name exit now realtime related.1).restartAfterExit name exit
    (r.stopRequested && !related.1)

/-- What follows the exit of any process of a unit. -/
def finishExit : Manager W :=
  let m := m.setTriggerSocketsEnabled name true
  let m := if m.oomStopping.contains name then m
    else { m with oomRecent := m.oomRecent.erase name }
  m.cleanupUnitCgroupIfEmpty name

/-- Part of `Manager::apply_child_exits`, `src/manager.rs:1681`. -/
def applyChildExit : Manager W :=
  let realtime := m.ask Kernel.realtime
  let now := realtime.2.ask Kernel.monotonic
  match m.ownerOf exit.pid with
  | none => now.2
  | some name => match m.units[name]? with
    | none => now.2
    | some r =>
      let exited := if r.controlPid = some exit.pid then now.2.applyControlExit name r exit
        else now.2.applyMainExit name r exit now.1 realtime.1
      exited.finishExit name

/-- What an emptied cgroup means to its unit, and whether it ended an `ExitType=cgroup` service. -/
def onCgroupEmpty (notify inCgroup : Bool) (w : W) : Bool × UnitRecord × W :=
  let completed := onServiceCgroupEmpty name r notify inCgroup w
  if completed.1 then completed
  else
    let timedOut := onTimeoutCgroupEmpty name completed.2.1 notify inCgroup completed.2.2
    if timedOut.1 then (false, timedOut.2)
    else (false, (onForkingCgroupEmpty name timedOut.2.1 notify inCgroup timedOut.2.2).2)

/-- The exit a service is restarted for when its cgroup is empty. -/
def cgroupExit : ChildExit := ⟨0, r.execMainCode, r.execMainStatus⟩

/-- The cgroup of a unit is empty. -/
def applyCgroupEmpty : Manager W :=
  let procs := m.ask (Kernel.procsExist · name)
  let done := procs.2.apply name false (fun r w =>
    onCgroupEmpty name r m.notify.isSome procs.1 w)
  let m := match done.1, done.2.units[name]? with
    | true, some r =>
      if r.stopRequested then done.2 else done.2.automaticRestart name (cgroupExit r)
    | _, _ => done.2
  m.cleanupUnitCgroupIfEmpty name

/-- `OOMPolicy=` in effect. -/
def resolveOomPolicy (systemScope : Bool) (setting : OomSetting) : OomSetting :=
  match setting with
  | .unset => if systemScope then .stop else .continue
  | setting => setting

/-- Note an out-of-memory kill of a service. -/
def noteOomEvent : Manager W :=
  let now := (m.update name (fun r => { r with serviceResult := .oomKill })).ask Kernel.instant
  { now.2 with oomRecent := now.2.oomRecent.insert name (now.1 + seconds 2) }

/-- Stop a service after an out-of-memory kill. -/
def stopForOom : Manager W :=
  { m with oomStopping := m.oomStopping.insert name }.stopService name m.notify.isSome

def oomMisses : Bool :=
  let noted := m.noteOomEvent name
  { noted with oomStopping := noted.oomStopping.insert name }.stopMisses name noted.notify.isSome

/-- A unit had an out-of-memory kill. -/
def applyOomEvent : Manager W :=
  match m.serviceOf name with
  | none => m
  | some s => match resolveOomPolicy m.config.systemScope s.oomPolicy with
    | .stop => (m.noteOomEvent name).stopForOom name
    | .kill => (((m.noteOomEvent name).stopForOom name).ask
        (Kernel.signalUnit · name sigkill [])).2
    | .unset | .continue => m.noteOomEvent name

/-- Reset the failure state of one unit. -/
def resetFailedUnit : Manager W :=
  let m := { m with restartPending := m.restartPending.erase name }
  (m.update name resetFailedRecord).cleanupUnitCgroupIfEmpty name

/-- The units a reset-failed request is for: all if it names none. -/
def resetNames : List String :=
  if names = [] then m.unitNames else names

/-- Part of `Manager::apply_reset_failed_requests`, `src/manager.rs:949`. -/
def resetFailed : Manager W :=
  (m.resetNames names).foldl resetFailedUnit m

/-- The unit of an exited child, with its record and its `[Service]` section. -/
structure Exits (m : Manager W) (exit : ChildExit) (name : String) (r : UnitRecord) : Prop where
  owner : m.ownerOf exit.pid = some name
  record : m.units[name]? = some r

structure StarterSucceeds (m : Manager W) (exit : ChildExit) (name : String) (r : UnitRecord)
    (s : ServiceSection) : Prop extends Exits m exit name r where
  control : r.controlPid = some exit.pid
  service : r.loaded.service? = some s
  success : isSuccess exit s = true

section

variable {P : Permits} (m : Manager W) (name u : String) (cancel : Bool) (names us : List String)
  (r : UnitRecord) (exit e : ChildExit) (notify nf related rel inCgroup cg : Bool)

private theorem restartRequested_of_granted (cv : Nat → Nat → Nat → Nat → Nat) (r : UnitRecord)
    (exit : ChildExit) (now : Int) (d : Nat)
    (h : (automaticRestartDelayAt cv r exit now).1 = some d) :
    ∃ s, r.loaded.service? = some s ∧ restartRequested s exit r.serviceResult = true := by
  revert h
  simp only [automaticRestartDelayAt]
  split
  · simp
  rename_i s hs
  split
  · simp
  rename_i hrqs
  intro _
  exact ⟨s, hs, by simpa using hrqs⟩

def MayRestart (r : UnitRecord) (exit : ChildExit) : Prop :=
  ∃ s result, r.loaded.service? = some s ∧ restartRequested s exit result = true

theorem MayRestart.congr {r r' : UnitRecord} {exit : ChildExit} (h : r'.loaded = r.loaded)
    (hmay : MayRestart r' exit) : MayRestart r exit := by
  simpa [MayRestart, h] using hmay

/-- A timer is armed or a start queued for a restart that was counted. -/
private theorem tends_scheduleRestart (d : Nat) (hjob : P.job ⟨0, .start, name⟩)
    (hunt : P.unit name) (h : HasRestarted name m) : Tends P m (m.scheduleRestart name d) := by
  simp only [scheduleRestart]
  split
  · refine Tends.of_queues rfl ⟨fun _ hj => hj, fun _ hj => .inl hj, fun _ hname => .inl hname,
      ?_, fun _ hname => .inl hname⟩ ?_
    · intro t htm
      rcases mem_append.mp htm with htm | htm
      · exact .inl htm
      · obtain rfl := mem_singleton.mp htm
        exact .inr hunt
    · intro v s hsc
      rcases mem_append.mp hsc with hsc | hsc
      · exact .inl hsc
      · obtain ⟨-, rfl⟩ := Prod.mk.inj (mem_singleton.mp hsc)
        exact .inr h
  · exact Tends.of_queues rfl (Queues.push ⟨0, .start, name⟩ hjob rfl rfl rfl rfl)
      (fun _ _ hsc => .inl hsc)

theorem tends_automaticRestart (hlm : ∀ p, P.move u .limit p)
    (h : ∀ r, m.units[u]? = some r → MayRestart r e → P.job ⟨0, .start, u⟩ ∧ P.unit u) :
    Tends P m (m.automaticRestart u e) := by
  simp only [automaticRestart]
  apply (Tends.ask m Kernel.monotonic).trans
  generalize (m.ask Kernel.monotonic).1.getD 0 = now
  cases hr : m.units[u]? with
  | none =>
    simp only [Manager.apply, units_ask, hr]
    exact Tends.refl _
  | some r =>
    simp only [Manager.apply, units_ask, hr]
    have hde : Tends P (m.ask Kernel.monotonic).2 { (m.ask Kernel.monotonic).2 with
        units := m.units.insert u (automaticRestartDelayAt (Kernel.restartCurve W) r e now).2 } :=
      Tends.insert u r _ hr rfl rfl (alters_automaticRestartDelayAt _ r e now (hlm _))
    apply hde.trans
    split
    · next delay hdl =>
      obtain ⟨s, hs, hrqs⟩ := restartRequested_of_granted _ r e now delay hdl
      obtain ⟨hjob, hunt⟩ := h r hr ⟨s, _, hs, hrqs⟩
      exact tends_scheduleRestart _ u delay hjob hunt ⟨_, getElem?_insert_self,
        restarted_of_granted _ r e now hdl⟩
    · exact Tends.refl _

omit [Kernel W] in
private theorem tends_noteOom (hoom : ∀ p, P.move u .oomExit p) : Tends P m (m.noteOom u rel) := by
  unfold noteOom
  split
  · apply Tends.update
    intro r _
    have hmks : Makes .oomExit r (oomKilled r) := ⟨rfl, .oomExit r.phase⟩
    exact hmks.alters rfl (hoom _)
  · exact Tends.refl m

@[simp] theorem ledger_cancelStopWhen : (m.cancelStopWhen name cancel).ledger = m.ledger := by
  unfold cancelStopWhen
  split
  · exact ledger_cancelStopTimeout m name
  · rfl

@[simp] theorem units_cancelStopWhen : (m.cancelStopWhen name cancel).units = m.units :=
  units_of_ledger (ledger_cancelStopWhen m name cancel)

/-- Whether an exit counts as an out-of-memory kill of a unit, and the manager that knows it. -/
def exitAsked : Bool × Manager W :=
  ((m.ask Kernel.realtime).2.ask Kernel.monotonic).2.oomRelated name

/-- An exit may be followed by a restart of its unit: one was requested, or the settings ask for
one and no stop was requested, unless for an out-of-memory kill. -/
def RestartsOnExit (r : UnitRecord) (exit : ChildExit) : Prop :=
  name ∈ m.restartPending ∨
    (r.stopRequested && !(m.exitAsked name).1) = false ∧ MayRestart r exit

theorem tends_applyControlExit (hr : m.units[name]? = some r)
    (hfa : P.move name .starterFailed r.phase)
    (ha : ∀ s, r.loaded.service? = some s → isSuccess exit s = true →
      P.move name .starterAdopted r.phase)
    (hwg : ∀ s, r.loaded.service? = some s → isSuccess exit s = true → s.pidFile ≠ "" →
      P.move name .starterWaiting r.phase)
    (hla : ∀ p, P.move name .oomExit p ∧ P.move name .limit p)
    (h : (r.stopRequested && !(m.oomRelated name).1) = false → MayRestart r exit →
      P.job ⟨0, .start, name⟩ ∧ P.unit name) : Tends P m (m.applyControlExit name r exit) := by
  have hak : Tends P m ((m.oomRelated name).2.ask (Kernel.procsExist · name)).2 := Tends.of_ledger
    rfl
  simp only [applyControlExit]
  generalize hext : ((m.oomRelated name).2.ask (Kernel.procsExist · name)).2.apply name
    (.ok false) (fun r w => onForkingControlExit name r exit (m.notifyFor name)
      ((m.oomRelated name).2.ask (Kernel.procsExist · name)).1 w) = done
  have hdn : Tends P m done.2 := by
    rw [← hext]
    apply hak.trans
    apply Tends.apply
    intro r' hr'
    cases hr.symm.trans hr'
    exact alters_onForkingControlExit name r _ _ _ exit hfa ha hwg
  have hnt : Tends P m (((done.2.cancelStartWhen name
      (done.2.stateOf name != some .activating)).cancelStopWhen name
      (r.stopRequested && !(m.oomRelated name).1)).noteOom name (m.oomRelated name).1) := by
    apply hdn.trans
    exact (tends_noteOom _ name _ (fun p => (hla p).1)).after_ledger (by simp)
  apply hnt.trans
  split
  · next hfa =>
    apply tends_automaticRestart _ name exit (fun p => (hla p).2)
    intro r' hr' hmay
    exact h hfa.2 (hmay.congr (hnt.loaded_eq hr hr'))
  · exact Tends.refl _

private theorem tends_noteMainExit (now rt : Option Int) (rel : Bool)
    (hr : m.units[name]? = some r) (het : P.move name (.mainExit exit) r.phase)
    (hoom : ∀ p, P.move name .oomExit p) : Tends P m (m.noteMainExit name exit now rt rel) := by
  have hdn : Tends P (m.ask (Kernel.procsExist · name)).2
      ((m.ask (Kernel.procsExist · name)).2.apply name false
        (fun r w => onChildExit name r exit (m.notifyFor name)
          (m.ask (Kernel.procsExist · name)).1 w)).2 := by
    apply Tends.apply
    intro r' hr'
    cases hr.symm.trans hr'
    exact alters_onChildExit name r _ _ _ exit het
  simp only [noteMainExit]
  apply (Tends.ask m _).trans
  apply hdn.trans
  apply (Tends.update name (stampExit now rt) fun _ _ => Alters.of_phase rfl rfl rfl).trans
  apply (tends_noteOom _ name rel hoom).trans
  apply Tends.of_ledger
  simp

private theorem tends_applyMainExit (now realtime : Option Int) (hr : m.units[name]? = some r)
    (het : P.move name (.mainExit exit) r.phase) (hla : ∀ p, P.move name .oomExit p ∧ P.move name
      .limit p)
    (h : name ∈ m.restartPending ∨ (r.stopRequested && !(m.oomRelated name).1) = false ∧
      MayRestart r exit → P.job ⟨0, .start, name⟩ ∧ P.unit name)
    (hlos : name ∈ m.restartPending → P.lost name) :
    Tends P m (m.applyMainExit name r exit now realtime) := by
  have hak : ∀ P : Permits, Tends P m (m.oomRelated name).2 := fun _ => Tends.of_ledger rfl
  have hnt : Tends P m ((m.oomRelated name).2.noteMainExit name exit now realtime
      (m.oomRelated name).1) :=
    (hak P).trans (tends_noteMainExit _ name r exit now realtime _ hr het
      (fun p => (hla p).1))
  -- the exit itself marks no unit
  have hma : ∀ v ∈ ((m.oomRelated name).2.noteMainExit name exit now realtime
      (m.oomRelated name).1).restartPending, v ∈ m.restartPending ∨ False :=
    ((hak { P with unit := fun _ => False }).trans (tends_noteMainExit _ name r exit now realtime
      _ hr het (fun p => (hla p).1))).queues.marked
  simp only [applyMainExit]
  generalize (m.oomRelated name).2.noteMainExit name exit now realtime (m.oomRelated name).1 = noted
    at hnt hma ⊢
  apply hnt.trans
  unfold restartAfterExit
  split
  · next hmarked =>
    have hmarked : name ∈ m.restartPending := (hma name hmarked).resolve_right id
    have hpu : Queues P.job P.unit P.lost noted
        { noted with jobQueue := noted.jobQueue.enqueueInternal .start name } :=
      Queues.push ⟨0, .start, name⟩ (h (.inl hmarked)).1 rfl rfl rfl rfl
    exact Tends.of_queues rfl (hpu.trans (Queues.unmark fun _ => hlos hmarked))
      (fun _ _ hsc => .inl hsc)
  · split
    · next hsto =>
      apply tends_automaticRestart _ name exit (fun p => (hla p).2)
      intro r' hr' hmay
      refine h (.inr ⟨by simpa only [Bool.not_eq_true'] using hsto, ?_⟩)
      exact hmay.congr (hnt.loaded_eq hr hr')
    · exact Tends.refl noted

@[simp] theorem ledger_finishExit : (m.finishExit name).ledger = m.ledger := by
  simp only [finishExit, ledger_cleanupUnitCgroupIfEmpty]
  split
  · exact ledger_setTriggerSocketsEnabled m name true
  · exact ledger_setTriggerSocketsEnabled m name true

@[simp] theorem units_finishExit : (m.finishExit name).units = m.units :=
  units_of_ledger (ledger_finishExit m name)

/-- A child exit only concerns the unit the process belongs to, and may queue a start of it, at
once or later. -/
theorem tends_applyChildExit (hex : ∀ name r, Exits m exit name r → P.move name (.mainExit exit)
    r.phase ∧
      P.move name .starterFailed r.phase) (hla : ∀ name, m.ownerOf exit.pid = some name →
      ∀ p, P.move name .oomExit p ∧ P.move name .limit p)
    (hst : ∀ name r s, StarterSucceeds m exit name r s → P.move name .starterAdopted r.phase ∧
      (s.pidFile ≠ "" → P.move name .starterWaiting r.phase))
    (h : ∀ name r, Exits m exit name r → m.RestartsOnExit name r exit →
      P.job ⟨0, .start, name⟩ ∧ P.unit name)
    (hlos : ∀ name r, Exits m exit name r → r.controlPid ≠ some exit.pid →
      name ∈ m.restartPending → P.lost name) : Tends P m (m.applyChildExit exit) := by
  have hak : Tends P m ((m.ask Kernel.realtime).2.ask Kernel.monotonic).2 := Tends.of_ledger rfl
  simp only [applyChildExit]
  split
  · exact hak
  rename_i name hor
  split
  · exact hak
  rename_i r hr
  have hr' : ((m.ask Kernel.realtime).2.ask Kernel.monotonic).2.units[name]? = some r := hr
  have het : Exits m exit name r := ⟨hor, hr⟩
  apply hak.trans
  refine Tends.trans ?_ (Tends.of_ledger (ledger_finishExit _ name))
  split
  · next hco =>
    refine tends_applyControlExit _ name r exit hr' (hex name r het).2 ?_ ?_ (hla name hor) ?_
    · intro s hs hsu
      exact (hst name r s ⟨het, hco, hs, hsu⟩).1
    · intro s hs hsu
      exact (hst name r s ⟨het, hco, hs, hsu⟩).2
    · intro hsto hmay
      exact h name r het (.inr ⟨hsto, hmay⟩)
  · next hma =>
    exact tends_applyMainExit _ name r exit _ _ hr' (hex name r het).1 (hla name hor)
      (h name r het) (hlos name r het hma)

private theorem onCgroupEmpty_makes (s : ServiceSection) (r : UnitRecord) (nf cg : Bool) (w : W)
    (hs : r.loaded.service? = some s) : (onCgroupEmpty name r nf cg w).2.1 = r ∨
      Makes .emptied r (onCgroupEmpty name r nf cg w).2.1 ∨
        Makes .abandon r (onCgroupEmpty name r nf cg w).2.1 := by
  simp only [onCgroupEmpty]
  rcases onServiceCgroupEmpty_makes name r nf cg w with ⟨htru, h⟩ | ⟨hfls, hsa⟩
  · rw [if_pos htru]
    exact .inr (.inl h)
  rw [if_neg (by simp [hfls]), hsa]
  generalize (onServiceCgroupEmpty name r nf cg w).2.2 = w₁
  rcases onTimeoutCgroupEmpty_makes name s r nf cg w₁ hs with
    ⟨htru, h⟩ | ⟨hfls, hsa⟩
  · rw [if_pos htru]
    exact .inr (.inr h)
  rw [if_neg (by simp [hfls]), hsa]
  generalize (onTimeoutCgroupEmpty name r nf cg w₁).2.2 = w₂
  rcases onForkingCgroupEmpty_makes name r nf cg w₂ with ⟨-, h⟩ | ⟨-, hsa⟩
  · exact .inr (.inl h)
  · exact .inl hsa

/-- An emptied cgroup brings no unit up. -/
private theorem alters_onCgroupEmpty (w : W)
    (he : mo .emptied r.phase) (habn : mo .abandon r.phase) :
    Alters mo ri r (onCgroupEmpty name r nf cg w).2.1 := by
  cases hs : r.loaded.service? with
  | none =>
    have hservice : onServiceCgroupEmpty name r nf cg w = (false, r, w) := by
      simp [onServiceCgroupEmpty, hs]
    simp only [onCgroupEmpty, hservice, Bool.false_eq_true, if_false]
    simp only [onTimeoutCgroupEmpty]
    split
    · simp only [onForkingCgroupEmpty, hs]
      exact Alters.refl r
    · exact alters_finishTimeoutFailure name r nf cg w _ habn
  | some s =>
    rcases onCgroupEmpty_makes name s r nf cg w hs with h | h | h
    · rw [h]
      exact Alters.refl r
    · exact h.alters rfl he
    · exact h.alters rfl habn

/-- An emptied cgroup may be followed by a restart of its unit: it ended a running
`ExitType=cgroup` service whose settings ask for one. -/
def RestartsOnEmpty : Prop :=
  ∃ r s, m.units[name]? = some r ∧ r.loaded.service? = some s ∧ s.exitType = .cgroup ∧
    r.tracked = false ∧ (r.state = .active ∨ r.state = .activating) ∧ MayRestart r (cgroupExit r)

/-- What an emptied cgroup that ends an `ExitType=cgroup` service says about it. -/
private theorem onCgroupEmpty_completed (w : W) (h : (onCgroupEmpty name r nf cg w).1 = true) :
    (∃ s, r.loaded.service? = some s ∧ s.exitType = .cgroup ∧ r.tracked = false ∧
      (r.state = .active ∨ r.state = .activating)) ∧
    (onCgroupEmpty name r nf cg w).2.1.loaded = r.loaded ∧
      cgroupExit (onCgroupEmpty name r nf cg w).2.1 = cgroupExit r := by
  have hco : onCgroupEmpty name r nf cg w =
      onServiceCgroupEmpty name r nf cg w := by
    simp only [onCgroupEmpty] at h ⊢
    split
    · rfl
    rename_i hfls
    rw [if_neg hfls] at h
    split at h <;> cases h
  rw [hco] at h ⊢
  revert h
  unfold onServiceCgroupEmpty
  split
  · simp
  rename_i s hs
  split
  · simp
  rename_i hrn
  push Not at hrn
  generalize (if cg then Kernel.treePopulated w name else (false, w)) = populated
  dsimp only
  split
  · simp
  intro _
  refine ⟨⟨s, hs, hrn.1, by simpa using hrn.2.1, hrn.2.2⟩, ?_⟩
  generalize (if r.stopRequested ∨ r.serviceResult = .success then .inactive else .failed :
    UnitState) = state
  rcases teardown_record name s { r with state := state } nf cg populated.2 with
    hdn | hdn
  · rw [hdn]
    exact ⟨rfl, rfl⟩
  · rw [hdn]
    exact ⟨rfl, rfl⟩

theorem tends_applyCgroupEmpty
    (hmv : ∀ p, P.move name .emptied p ∧ P.move name .abandon p ∧ P.move name .limit p)
    (h : m.RestartsOnEmpty name → P.job ⟨0, .start, name⟩ ∧ P.unit name) :
    Tends P m (m.applyCgroupEmpty name) := by
  simp only [applyCgroupEmpty]
  generalize hprocs : m.ask (Kernel.procsExist · name) = procs
  have hlg : procs.2.ledger = m.ledger := by
    rw [← hprocs]
    rfl
  have hun := units_of_ledger hlg
  apply (Tends.of_ledger hlg).trans
  have hap : Tends P procs.2 (procs.2.apply name false (fun r w =>
      onCgroupEmpty name r m.notify.isSome procs.1 w)).2 :=
    Tends.apply name false _ fun r _ =>
      alters_onCgroupEmpty name r _ _ _ (hmv _).1 (hmv _).2.1
  generalize hdn : procs.2.apply name false (fun r w =>
    onCgroupEmpty name r m.notify.isSome procs.1 w) = done at hap ⊢
  apply hap.trans
  refine Tends.trans ?_ (Tends.of_ledger (ledger_cleanupUnitCgroupIfEmpty _ name))
  split
  · next r' hco hr' =>
    split
    · exact Tends.refl done.2
    apply tends_automaticRestart _ name _ (fun p => (hmv p).2.2)
    intro r₂ hr₂ hmay
    cases hr'.symm.trans hr₂
    apply h
    cases hr : m.units[name]? with
    | none => simp [← hdn, Manager.apply, hun, hr] at hr'
    | some r =>
      simp only [← hdn, Manager.apply, hun, hr] at hco hr'
      simp only [getElem?_insert_self, Option.some.injEq] at hr'
      obtain ⟨⟨s, hs, hc, htr, hst⟩, hld, het⟩ := onCgroupEmpty_completed name r _ _ _ hco
      rw [hr'] at hld het
      refine ⟨r, s, hr, hs, hc, htr, hst, ?_⟩
      simpa [MayRestart, hld, het] using hmay
  · exact Tends.refl done.2

theorem tends_applyOomEvent (hoom : ∀ p, P.move name .oom p) (hstp : ∀ p, P.move name .stop p)
    (habn : m.oomMisses name = true → ∀ p, P.move name .abandon p) : Tends P m
      (m.applyOomEvent name) := by
  have hnt : Tends P m (m.noteOomEvent name) := by
    have hup : Tends P m (m.update name (fun r => { r with serviceResult := .oomKill })) := by
      apply Tends.update
      intro r _
      have hmks : Makes .oom r { r with serviceResult := .oomKill } := ⟨rfl, .oom r.phase⟩
      exact hmks.alters rfl (hoom _)
    exact hup.trans (Tends.of_ledger rfl)
  have hspp : Tends P (m.noteOomEvent name) ((m.noteOomEvent name).stopForOom name) := by
    have h : Tends P { m.noteOomEvent name with
        oomStopping := (m.noteOomEvent name).oomStopping.insert name }
        ((m.noteOomEvent name).stopForOom name) :=
      tends_stopService _ name _ (fun r _ => hstp r.phase) habn
    exact h.after_ledger rfl
  unfold applyOomEvent
  split
  · exact Tends.refl m
  split
  · exact hnt.trans hspp
  · exact (hnt.trans hspp).trans (Tends.ask _ _)
  · exact hnt
  · exact hnt

private theorem getElem?_resetFailedUnit (v : String) : (m.resetFailedUnit name).units[v]? =
      if name = v then m.units[v]?.map resetFailedRecord else m.units[v]? := by
  simp only [resetFailedUnit, units_cleanupUnitCgroupIfEmpty]
  exact getElem?_update _ name v _

/-- A reset only sees units whose processes and pending stops are as they were. -/
private theorem tends_resetUnits
    (h : ∀ name ∈ us, ∀ r, m.units[name]? = some r → ∀ p, p.tracked = r.tracked →
      (p.state = .deactivating → r.state = .deactivating) → P.move name .reset p)
    (hlos : ∀ name ∈ us, P.lost name) : Tends P m (us.foldl resetFailedUnit m) := by
  induction us generalizing m with
  | nil => exact Tends.refl m
  | cons name us ih =>
    rw [foldl_cons]
    have hsp : Tends P m (m.resetFailedUnit name) := by
      have her : Tends P m { m with restartPending := m.restartPending.erase name } :=
        Tends.of_queues rfl (Queues.unmark fun _ => hlos name mem_cons_self)
          (fun _ _ hsc => .inl hsc)
      have hup : Tends P { m with restartPending := m.restartPending.erase name }
          ({ m with restartPending := m.restartPending.erase name }.update name
            resetFailedRecord) := by
        apply Tends.update
        intro r hr
        exact alters_resetFailedRecord r (h name mem_cons_self r hr r.phase rfl id)
      exact (her.trans hup).trans (Tends.of_ledger (ledger_cleanupUnitCgroupIfEmpty _ name))
    apply hsp.trans (ih _ _ (fun v hother => hlos v (mem_cons_of_mem _ hother)))
    intro v hother r hr p htr hst
    rw [getElem?_resetFailedUnit] at hr
    split at hr
    · obtain ⟨r₀, hr₀, rfl⟩ := Option.map_eq_some_iff.mp hr
      apply h v (mem_cons_of_mem _ hother) r₀ hr₀ p htr
      intro hp
      have hrst := hst hp
      simp only [resetFailedRecord] at hrst
      split at hrst
      · cases hrst
      · exact hrst
    · exact h v (mem_cons_of_mem _ hother) r hr p htr hst

theorem tends_resetFailed
    (h : ∀ name ∈ m.resetNames us, ∀ r, m.units[name]? = some r → ∀ p, p.tracked = r.tracked →
      (p.state = .deactivating → r.state = .deactivating) → P.move name .reset p)
    (hlos : ∀ name ∈ m.resetNames us, P.lost name) : Tends P m (m.resetFailed us) :=
  tends_resetUnits m (m.resetNames us) h hlos

end
end Rustd.Manager
