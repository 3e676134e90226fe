import Rustd.Manager.Stops

/-!
# Restarts of running services

`restart_unit` marks a running service, stops it and leaves the start to the handler of its last
exit. This module follows the marker over runs of the manager loop.
-/

namespace Rustd.Manager

open Base Service UnitFile Jobs List Option

variable {W : Type}

def jobsFor (m : Manager W) (name : String) : List Job :=
  m.jobQueue.pending.filter (·.unitName == name)

variable {m m' : Manager W}

theorem restartPending_of_shared (h : m'.shared = m.shared) :
    m'.restartPending = m.restartPending := by
  simp only [shared, Prod.mk.injEq] at h
  exact h.2.2.2.2.2.2.2.2.1

private theorem jobQueue_of_shared (h : m'.shared = m.shared) : m'.jobQueue = m.jobQueue := by
  simp only [shared, Prod.mk.injEq] at h
  exact h.2.2.2.1

/-- What the handling of some units does to the rest of the manager: the records and the restart
markers of the other units stay, markers are only removed, and jobs are only queued for the
handled units. -/
structure Handles (handled : String → Prop) (m m' : Manager W) : Prop where
  units : ∀ other, ¬ handled other → m'.units[other]? = m.units[other]?
  cleared : ∀ other, other ∈ m'.restartPending → other ∈ m.restartPending
  marked : ∀ other, ¬ handled other → other ∈ m.restartPending → other ∈ m'.restartPending
  queued : ∃ jobs : List Job, m'.jobQueue.pending = m.jobQueue.pending ++ jobs ∧
    ∀ job ∈ jobs, handled job.unitName

namespace Handles

variable {handled ha' : String → Prop} {name u : String} {m m' m'' : Manager W}

theorem of_eq (hun : ∀ v, ¬ handled v → m'.units[v]? = m.units[v]?)
    (hpn : m'.restartPending = m.restartPending) (hqu : m'.jobQueue = m.jobQueue) :
    Handles handled m m' := by
  refine ⟨hun, fun v h => hpn ▸ h, fun v _ h => hpn ▸ h, [], ?_, ?_⟩
  · rw [hqu, append_nil]
  · simp

private theorem of_shared (hun : ∀ v, ¬ handled v → m'.units[v]? = m.units[v]?)
    (hsh : m'.shared = m.shared) : Handles handled m m' :=
  of_eq hun (restartPending_of_shared hsh) (jobQueue_of_shared hsh)

private theorem of_spares (h : Spares name m m') : Handles (· = name) m m' := of_shared h.units
    h.shared

theorem trans (h : Handles handled m m') (h' : Handles handled m' m'') : Handles handled m m'' := by
  obtain ⟨jobs, hjb, hhn⟩ := h.queued
  obtain ⟨j', hjb', hhn'⟩ := h'.queued
  refine ⟨fun v hne => (h'.units v hne).trans (h.units v hne),
    fun v hother => h.cleared v (h'.cleared v hother),
    fun v hne hother => h'.marked v hne (h.marked v hne hother), jobs ++ j', ?_, ?_⟩
  · rw [hjb', hjb, append_assoc]
  intro job hjob
  rcases mem_append.mp hjob with hjob | hjob
  · exact hhn job hjob
  · exact hhn' job hjob

theorem mono (hsub : ∀ v, handled v → ha' v) (h : Handles handled m m') : Handles ha' m m' := by
  obtain ⟨jobs, hjb, hhn⟩ := h.queued
  exact ⟨fun v hne => h.units v (fun hother => hne (hsub v hother)), h.cleared,
    fun v hne => h.marked v (fun hother => hne (hsub v hother)), jobs, hjb,
    fun job hjob => hsub _ (hhn job hjob)⟩

private theorem jobsFor_eq (h : Handles handled m m') (hname : ¬ handled name) :
    m'.jobsFor name = m.jobsFor name := by
  obtain ⟨jobs, hjb, hhn⟩ := h.queued
  have hnn : jobs.filter (·.unitName == name) = [] := by
    rw [filter_eq_nil_iff]
    intro job hjob heq
    exact hname (eq_of_beq heq ▸ hhn job hjob)
  rw [jobsFor, hjb, filter_append, hnn, append_nil, jobsFor]

private theorem jobsFor_prefix (h : Handles handled m m') : m.jobsFor name <+: m'.jobsFor name := by
  obtain ⟨jobs, hjb, -⟩ := h.queued
  rw [jobsFor, jobsFor, hjb]
  exact (prefix_append _ jobs).filter _

end Handles

variable [Kernel W]

section

variable (m : Manager W) (name u : String)

private theorem handles_scheduleRestart (d : Nat) : Handles (· = u) m (m.scheduleRestart u d) := by
  simp only [scheduleRestart]
  split
  · exact Handles.of_eq (fun _ _ => rfl) rfl rfl
  · exact ⟨fun _ _ => rfl, fun _ h => h, fun _ _ h => h, [⟨0, .start, u⟩], rfl, by simp⟩

variable (r : UnitRecord) (handled : String → Prop) (exit e : ChildExit) (now rt : Option Int)

private theorem handles_automaticRestart : Handles (· = name) m (m.automaticRestart name exit) := by
  simp only [automaticRestart]
  apply (Handles.of_spares (Spares.ask m Kernel.monotonic)).trans
  apply (Handles.of_spares (Spares.apply _ _ _)).trans
  split
  · exact handles_scheduleRestart _ name _
  · exact Handles.of_spares (Spares.refl _)

omit [Kernel W] in
private theorem spares_noteOom (rel : Bool) : Spares name m (m.noteOom name rel) := by
  unfold noteOom
  split
  · exact Spares.update m _
  · exact Spares.refl m

private theorem handles_applyControlExit :
    Handles (· = name) m (m.applyControlExit name r exit) := by
  have hspp : ∀ (m : Manager W) (c : Bool),
      Spares name m (m.cancelStopWhen name c) := by
    intro m c
    unfold cancelStopWhen
    split
    · exact Spares.cancelStopTimeout m
    · exact Spares.refl m
  simp only [applyControlExit]
  apply (Handles.of_spares ((Spares.ask m _).trans (Spares.ask _ _))).trans
  apply (Handles.of_spares (Spares.apply _ _ _)).trans
  apply (Handles.of_spares (Spares.cancelStartWhen _ _)).trans
  apply (Handles.of_spares (hspp _ _)).trans
  apply (Handles.of_spares (spares_noteOom _ name _)).trans
  split
  · exact handles_automaticRestart _ name exit
  · exact Handles.of_spares (Spares.refl _)

theorem spares_noteMainExit (rel : Bool) : Spares name m (m.noteMainExit name exit now rt rel) := by
  simp only [noteMainExit]
  apply (Spares.ask m _).trans
  apply (Spares.apply _ _ _).trans
  apply (Spares.update _ _).trans
  apply (spares_noteOom _ name rel).trans
  apply (Spares.cancelStartTimeout _).trans
  apply (Spares.cancelStopTimeout _).trans
  exact Spares.onNotify _ _

private theorem handles_restartAfterExit (s : Bool) :
    Handles (· = name) m (m.restartAfterExit name exit s) := by
  unfold restartAfterExit
  split
  · refine ⟨fun _ _ => rfl, ?_, ?_, [⟨0, .start, name⟩], rfl, by simp⟩
    · intro v h
      exact (Std.ExtTreeSet.mem_erase.mp h).2
    · intro v hne h
      exact Std.ExtTreeSet.mem_erase.mpr ⟨by simpa using Ne.symm hne, h⟩
  · split
    · exact handles_automaticRestart m name exit
    · exact Handles.of_spares (Spares.refl m)

private theorem handles_applyMainExit :
    Handles (· = name) m (m.applyMainExit name r exit now rt) := by
  simp only [applyMainExit]
  apply (Handles.of_spares ((Spares.ask m _).trans (spares_noteMainExit _ name _ _ _ _))).trans
  exact handles_restartAfterExit _ name exit _

private theorem spares_setTriggerSocketsEnabled (en : Bool) :
    Spares name m (m.setTriggerSocketsEnabled name en) := by
  unfold setTriggerSocketsEnabled
  generalize (m.triggerSockets name).flatMap SocketRecord.sourceIds = s
  induction s generalizing m with
  | nil => exact Spares.refl m
  | cons so s ih => exact (Spares.tell m _).trans (ih _)

private theorem handles_cleanupUnitCgroupIfEmpty :
    Handles handled m (m.cleanupUnitCgroupIfEmpty name) := by
  simp only [cleanupUnitCgroupIfEmpty]
  split
  · exact Handles.of_eq (fun _ _ => rfl) rfl rfl
  · split <;> exact Handles.of_eq (fun _ _ => rfl) rfl rfl

private theorem handles_finishExit : Handles handled m (m.finishExit name) := by
  simp only [finishExit]
  have hsome : Handles handled m (m.setTriggerSocketsEnabled name true) :=
    Handles.of_shared (fun _ _ => by rw [units_setTriggerSocketsEnabled])
      (spares_setTriggerSocketsEnabled m name true).shared
  apply hsome.trans
  refine Handles.trans ?_ (handles_cleanupUnitCgroupIfEmpty _ name handled)
  split <;> exact Handles.of_eq (fun _ _ => rfl) rfl rfl

private theorem handles_applyChildExit :
    Handles (m.ownerOf exit.pid = some ·) m (m.applyChildExit exit) := by
  simp only [applyChildExit]
  split
  · exact Handles.of_eq (fun _ _ => rfl) rfl rfl
  rename_i name hor
  split
  · exact Handles.of_eq (fun _ _ => rfl) rfl rfl
  rename_i r _
  have hext : Handles (· = name) m
      ((if r.controlPid = some exit.pid then
          ((m.ask Kernel.realtime).2.ask Kernel.monotonic).2.applyControlExit name r exit
        else ((m.ask Kernel.realtime).2.ask Kernel.monotonic).2.applyMainExit name r exit
          ((m.ask Kernel.realtime).2.ask Kernel.monotonic).1
          (m.ask Kernel.realtime).1).finishExit name) := by
    refine Handles.trans ?_ (handles_finishExit _ name _)
    apply (Handles.of_spares ((Spares.ask m _).trans (Spares.ask _ _))).trans
    split
    · exact handles_applyControlExit _ name r exit
    · exact handles_applyMainExit _ name r exit _ _
  apply hext.mono
  rintro v rfl
  exact hor

private theorem handles_applyCgroupEmpty : Handles (· = name) m (m.applyCgroupEmpty name) := by
  simp only [applyCgroupEmpty]
  apply (Handles.of_spares ((Spares.ask m _).trans (Spares.apply _ _ _))).trans
  refine Handles.trans ?_ (handles_cleanupUnitCgroupIfEmpty _ name _)
  split
  · split
    · exact Handles.of_eq (fun _ _ => rfl) rfl rfl
    · exact handles_automaticRestart _ name _
  · exact Handles.of_eq (fun _ _ => rfl) rfl rfl

end

def handled (m : Manager W) : Event → String → Prop
  | .childExit exit => fun name => m.ownerOf exit.pid = some name
  | .cgroupEmpty name | .dbusReady name => (· = name)
  | .timeout event => (· = event.unitName)
  | .notify event => (· = event.unitName)
  | _ => fun _ => True

def OfProcesses : Event → Prop
  | .childExit _ | .cgroupEmpty _ | .timeout _ | .notify _ | .dbusReady _ | .retryPidFiles => True
  | _ => False

private theorem handles_step (m : Manager W) (e : Event) (h : OfProcesses e) :
    Handles (m.handled e) m (m.step e) := by
  cases e with
  | childExit exit => exact handles_applyChildExit m exit
  | cgroupEmpty name => exact handles_applyCgroupEmpty m name
  | timeout ev => exact Handles.of_spares (Spares.applyServiceTimeoutEvent m ev)
  | notify ev => exact Handles.of_spares (Spares.applyNotifyEvent m ev)
  | dbusReady name => exact Handles.of_spares (Spares.applyDbusReady m)
  | retryPidFiles =>
    exact Handles.of_shared (fun _ h => absurd trivial h) (shared_retryPendingForkingPidFiles m)
  | _ => exact absurd h id

/-- The unit stops, and its restart is noted. -/
structure RestartWaits (name : String) (jobs : List Job) (m : Manager W) : Prop where
  pending : name ∈ m.restartPending
  waiting : ServiceIn (fun p => p.state = .deactivating ∧ p.tracked = true) name m
  jobs : m.jobsFor name = jobs

def restartJob (name : String) : Job := ⟨0, .start, name⟩

/-- The start of the restart is queued. -/
structure RestartQueued (name : String) (jobs : List Job) (m : Manager W) : Prop where
  cleared : name ∉ m.restartPending
  queued : m.jobsFor name = jobs ++ [restartJob name]

/-- The events that do not lose a restart: process events, but while the restart is waiting no
exit of the control process, and no timeout whose signals reach nobody. -/
def RestartHonoured (name : String) (m : Manager W) : Event → Prop
  | .childExit exit => name ∈ m.restartPending →
      ∀ r, Exits m exit name r → r.controlPid ≠ some exit.pid
  | .timeout event => name ∈ m.restartPending → event.unitName = name →
      m.timeoutMisses event = false
  | e => OfProcesses e

theorem RestartHonoured.ofProcesses (h : RestartHonoured name m exit) : OfProcesses exit := by
  cases exit with
  | childExit | timeout => trivial
  | _ => exact h

section

variable {name u : String} {jobs : List Job} {m m' : Manager W} {handled : String → Prop}

omit [Kernel W] in
private theorem RestartWaits.handles (h : RestartWaits name jobs m) (hhnd : Handles handled m m')
    (hname : ¬ handled name) : RestartWaits name jobs m' := by
  obtain ⟨r, hr, hservice⟩ := h.waiting
  exact ⟨hhnd.marked name hname h.pending, ⟨r, (hhnd.units name hname).trans hr, hservice⟩,
    (hhnd.jobsFor_eq hname).trans h.jobs⟩

def keepsWaiting (l : Label) : Prop :=
  match l with
  | .mainPid _ | .ready | .pidFile | .deadline | .overdue => True
  | _ => False

omit [Kernel W] in
theorem RestartWaits.evolves (h : RestartWaits name jobs m)
    (hev : Evolves (fun v l _ => v = name → keepsWaiting l) m m')
    (hsh : m'.shared = m.shared) : RestartWaits name jobs m' := by
  obtain ⟨r, hr, hservice, hph⟩ := h.waiting
  obtain ⟨r', hr', hld, hmo⟩ := hev.loaded name r hr
  refine ⟨by rw [restartPending_of_shared hsh]; exact h.pending, ⟨r', hr', ?_, ?_⟩, ?_⟩
  · rw [hld]
    exact hservice
  · apply (hmo hservice).invariant (I := fun p => p.state = .deactivating ∧ p.tracked = true) _ hph
    rintro l p q ⟨hst, htr⟩ hl hmv
    have hl := hl rfl
    cases hmv with
    | mainPid => exact ⟨hst, rfl⟩
    | overdue => exact ⟨hst, htr⟩
    | ready _ h | unready _ h | deadline _ h | pidFile _ _ h => cases h.symm.trans hst
    | _ => exact absurd hl id
  · rw [jobsFor, jobQueue_of_shared hsh]
    exact h.jobs

omit [Kernel W] in
private theorem RestartWaits.not_announcesStop (h : RestartWaits name jobs m) (r : UnitRecord)
    (hr : m.units[name]? = some r) (msg : NotifyMessage) : announcesStop r msg = false := by
  obtain ⟨r', hr', -, hst, -⟩ := h.waiting
  cases hr.symm.trans hr'
  rw [phase_state] at hst
  simp [announcesStop, hst]

private theorem onCgroupEmpty_of_tracked (name : String) (r : UnitRecord) (nf cg : Bool) (w : W)
    (htr : r.tracked = true) : onCgroupEmpty name r nf cg w = (false, r, w) := by
  have hservice : onServiceCgroupEmpty name r nf cg w = (false, r, w) := by
    unfold onServiceCgroupEmpty
    split <;> simp [htr]
  have hti : onTimeoutCgroupEmpty name r nf cg w = (false, r, w) := by
    simp [onTimeoutCgroupEmpty, htr]
  have hfo : onForkingCgroupEmpty name r nf cg w = (false, r, w) := by
    unfold onForkingCgroupEmpty
    split <;> simp [htr]
  simp [onCgroupEmpty, hservice, hti, hfo]

theorem RestartWaits.applyCgroupEmpty (h : RestartWaits name jobs m) :
    RestartWaits name jobs (m.applyCgroupEmpty name) := by
  obtain ⟨r, hr, hservice, hph⟩ := h.waiting
  have hak : (m.ask (Kernel.procsExist · name)).2.units[name]? = some r := hr
  have hempty : ∀ (nf cg : Bool) (w : W),
      onCgroupEmpty name r nf cg w = (false, r, w) :=
    fun nf cg w => onCgroupEmpty_of_tracked name r nf cg w hph.2
  have hkp : RestartWaits name jobs
      { (m.ask (Kernel.procsExist · name)).2 with
        units := (m.ask (Kernel.procsExist · name)).2.units.insert name r } :=
    ⟨h.pending, ⟨r, by simp, hservice, hph⟩, h.jobs⟩
  simp only [Manager.applyCgroupEmpty, Manager.apply, hak, hempty]
  exact hkp.handles (handles_cleanupUnitCgroupIfEmpty _ name (fun _ => False)) id

theorem RestartWaits.applyMainExit (h : RestartWaits name jobs m) (r : UnitRecord)
    (exit : ChildExit) (now rt : Option Int) :
    RestartQueued name jobs (m.applyMainExit name r exit now rt) := by
  have hspr := (Spares.ask m Kernel.instant).trans
    (spares_noteMainExit (m.oomRelated name).2 name exit now rt (m.oomRelated name).1)
  have hpn := restartPending_of_shared hspr.shared
  have hqu := jobQueue_of_shared hspr.shared
  have hmarked : ((m.oomRelated name).2.noteMainExit name exit now rt
      (m.oomRelated name).1).restartPending.contains name = true := by
    rw [hpn]
    exact h.pending
  simp only [Manager.applyMainExit, restartAfterExit, hmarked, if_true]
  refine ⟨by simp, ?_⟩
  simp only [jobsFor, hqu, JobQueue.enqueueInternal, filter_append]
  rw [← h.jobs, jobsFor]
  simp [restartJob]

omit [Kernel W] in
private theorem RestartQueued.handles (h : RestartQueued name jobs m) (hhnd : Handles handled m m')
    (hname : ¬ handled name) : RestartQueued name jobs m' :=
  ⟨fun hmem => h.cleared (hhnd.cleared name hmem), (hhnd.jobsFor_eq hname).trans h.queued⟩

private theorem waits_or_queued_step (name : String) (jobs : List Job) (m : Manager W) (e : Event)
    (h : RestartWaits name jobs m) (he : RestartHonoured name m e) :
    RestartWaits name jobs (m.step e) ∨ RestartQueued name jobs (m.step e) := by
  by_cases hhn : m.handled e name
  · obtain ⟨r, hr, hservice, hst, htr⟩ := h.waiting
    cases e with
    | childExit exit =>
      right
      have hma : r.controlPid ≠ some exit.pid := he h.pending r ⟨hhn, hr⟩
      have hor : m.ownerOf exit.pid = some name := hhn
      simp only [step, applyChildExit, hor, hr, if_neg hma]
      have hak : RestartWaits name jobs ((m.ask Kernel.realtime).2.ask Kernel.monotonic).2 :=
        ⟨h.pending, h.waiting, h.jobs⟩
      exact (hak.applyMainExit r exit _ _).handles (handles_finishExit _ name (fun _ => False)) id
    | cgroupEmpty other =>
      obtain rfl : name = other := hhn
      exact .inl h.applyCgroupEmpty
    | timeout ev =>
      have hname : ev.unitName = name := hhn.symm
      refine .inl (h.evolves (evolves_step m (.timeout ev) ⟨?_, ?_, ?_⟩)
        (Spares.applyServiceTimeoutEvent m ev).shared)
      · exact fun _ _ _ => trivial
      · exact fun _ _ => trivial
      · intro hms
        cases (he h.pending hname).symm.trans hms
    | notify ev =>
      obtain rfl : name = ev.unitName := hhn
      refine .inl (h.evolves (evolves_step m (.notify ev) ⟨?_, ?_, ?_⟩)
        (Spares.applyNotifyEvent m ev).shared)
      · exact fun _ _ _ => trivial
      · exact fun _ _ => trivial
      · intro r' hr' ha
        cases (h.not_announcesStop r' hr' ev.message).symm.trans ha
    | dbusReady other =>
      exact .inl (h.evolves (evolves_step m (.dbusReady other) fun _ _ => trivial)
        (Spares.applyDbusReady m).shared)
    | retryPidFiles =>
      exact .inl (h.evolves (evolves_step m .retryPidFiles fun _ _ _ _ => trivial)
        (shared_retryPendingForkingPidFiles m))
    | _ => exact absurd he id
  · exact .inl (h.handles (handles_step m e he.ofProcesses) hhn)

private theorem phase_stopService_of_tracked (m : Manager W) (name : String) (nf : Bool)
    (r : UnitRecord) (hr : m.units[name]? = some r) (hservice : r.loaded.isService = true)
    (htr : r.tracked = true) (hms : m.stopMisses name nf = false) :
    ∃ r', (m.stopService name nf).units[name]? = some r' ∧ r'.loaded = r.loaded ∧
      r'.phase = { r.phase with state := .deactivating, stopRequested := true } := by
  obtain ⟨r₁, hr₁, hld, hph⟩ := phase_requestStop_of_tracked m name nf r hr hservice htr
  have htr₁ : (m.requestStop name nf).units[name]?.any UnitRecord.tracked = true := by
    rw [hr₁, any_some, ← phase_tracked, hph]
    exact htr
  simp only [stopMisses, hr, htr₁, Bool.true_and] at hms
  rw [stopService_of_tracked m name nf r hr hservice htr]
  -- Arming the timer or killing the processes makes no move.
  have htn : Tends (.moves fun _ _ _ => False) (m.requestStop name nf) _ :=
    (Tends.of_ledger (ledger_signalStopped _ name r (m.stopOperation name))).trans
      (tends_armServiceStopTimeout _ name _ fun h => by cases hms.symm.trans h)
  obtain ⟨r₂, hr₂, h₂, hmo⟩ := htn.evolves.loaded name r₁ hr₁
  have hsa : r₂.phase = r₁.phase :=
    (hmo (by rw [hld]; exact hservice)).invariant (I := fun p => p = r₁.phase)
      (fun _ _ _ _ hfls _ => absurd hfls id) rfl
  exact ⟨r₂, hr₂, h₂.trans hld, hsa.trans hph⟩

def restartMisses (m : Manager W) (name : String) : Bool :=
  match m.serviceOf name with
  | none => false
  | some s => m.stateOf name != some .deactivating &&
      { m with restartPending := m.restartPending.insert name }.stopMisses name
        ((effectiveNotifyAccess s).isSome && m.notify.isSome)

private theorem restartWaits_restartRunning (m : Manager W) (name : String) (r : UnitRecord)
    (hr : m.units[name]? = some r) (hservice : r.loaded.isService = true)
    (htr : r.tracked = true) (hms : m.restartMisses name = false) :
    RestartWaits name (m.jobsFor name) (m.restartRunning name r.state).2 := by
  obtain ⟨s, hs⟩ := isSome_iff_exists.mp hservice
  by_cases hst : r.state = .deactivating
  · have hwg : m.restartRunning name r.state =
        (.ok (), { m with restartPending := m.restartPending.insert name }) := by
      simp [restartRunning, hst, hr, htr]
    rw [hwg]
    exact ⟨by simp, ⟨r, hr, hservice, hst, htr⟩, rfl⟩
  · have hmarked : { m with restartPending := m.restartPending.insert name }.stopMisses name
        ((effectiveNotifyAccess s).isSome && m.notify.isSome) = false := by
      simpa [restartMisses, serviceOf, stateOf, hr, hs, hst] using hms
    obtain ⟨r', hr', hld, hph⟩ := phase_stopService_of_tracked
      { m with restartPending := m.restartPending.insert name } name _ r hr hservice
        htr hmarked
    have htr' : r'.tracked = true := by
      rw [← phase_tracked, hph]
      exact htr
    have hwg : m.restartRunning name r.state =
        (.ok (), { m with restartPending := m.restartPending.insert name }.stopService name
          ((effectiveNotifyAccess s).isSome && m.notify.isSome)) := by
      simp [restartRunning, hst, runUnitJob, hr, hs, runServiceJob, hr', htr']
    have hsh : ({ m with restartPending := m.restartPending.insert name }.stopService name
        ((effectiveNotifyAccess s).isSome && m.notify.isSome)).shared =
          { m with restartPending := m.restartPending.insert name }.shared :=
      (Spares.stopService { m with restartPending := m.restartPending.insert name } _).shared
    rw [hwg]
    refine ⟨?_, ⟨r', hr', by rw [hld]; exact hservice, ?_⟩, ?_⟩
    · rw [restartPending_of_shared hsh]
      simp
    · rw [hph]
      exact ⟨rfl, htr⟩
    · rw [jobsFor, jobQueue_of_shared hsh, jobsFor]

private theorem restartWaits_restartUnit (m : Manager W) (name : String) (r : UnitRecord)
    (hr : m.units[name]? = some r) (hservice : r.loaded.isService = true)
    (hrn : r.state = .active ∨ r.state = .activating ∨ r.state = .deactivating)
    (htr : r.tracked = true) (hms : m.restartMisses name = false) :
    RestartWaits name (m.jobsFor name) (m.restartUnit name).2 := by
  obtain ⟨s, hs⟩ := isSome_iff_exists.mp hservice
  have hsv : m.serviceOf name = some s := by simp [serviceOf, hr, hs]
  have hsO : m.stateOf name = some r.state := by simp [stateOf, hr]
  have hre : m.restartUnit name = m.restartRunning name r.state := by
    simp only [restartUnit, loadUnit_of_some hr, hsv, hsO, isNone_some,
      Bool.false_eq_true, if_false, getD_some]
    rcases hrn with h | h | h <;> rw [h]
  rw [hre]
  exact restartWaits_restartRunning m name r hr hservice htr hms

private theorem queued_stays (name : String) (jobs : List Job) (m : Manager W) (evs : List Event)
    (h : RestartQueued name jobs m) (hevn : AllSteps step (RestartHonoured name) m evs) :
    name ∉ (run step m evs).restartPending ∧
      jobs ++ [restartJob name] <+: (run step m evs).jobsFor name := by
  apply run_invariant (I := fun m => name ∉ m.restartPending ∧
    jobs ++ [restartJob name] <+: m.jobsFor name) _ m evs ⟨h.cleared, h.queued ▸ prefix_rfl⟩
    hevn
  rintro m e ⟨hc, hqd⟩ he
  have hhnd := handles_step m e he.ofProcesses
  exact ⟨fun hmem => hc (hhnd.cleared name hmem), hqd.trans hhnd.jobsFor_prefix⟩

/-- Once a restarted service is inactive or failed, its restart is not pending any more, and
there was one step that cleared the marker and queued one start job. -/
theorem restart_not_lost (m : Manager W) (name : String) (r : UnitRecord)
    (hr : m.units[name]? = some r) (hservice : r.loaded.isService = true)
    (hrunning : r.state = .active ∨ r.state = .activating ∨ r.state = .deactivating)
    (htracked : r.tracked = true) (hmisses : m.restartMisses name = false) (events : List Event)
    (hevents : AllSteps step (RestartHonoured name) (m.restartUnit name).2 events)
    (hsettled : (run step (m.restartUnit name).2 events).stateOf name = some .inactive ∨
      (run step (m.restartUnit name).2 events).stateOf name = some .failed) :
    name ∉ (run step (m.restartUnit name).2 events).restartPending ∧
      m.jobsFor name ++ [restartJob name] <+:
        (run step (m.restartUnit name).2 events).jobsFor name ∧
      ∃ earlier event later, events = earlier ++ event :: later ∧
        RestartWaits name (m.jobsFor name) (run step (m.restartUnit name).2 earlier) ∧
        RestartQueued name (m.jobsFor name)
          ((run step (m.restartUnit name).2 earlier).step event) := by
  have hwa := restartWaits_restartUnit m name r hr hservice hrunning htracked hmisses
  rcases run_holds_until (waits_or_queued_step name (m.jobsFor name)) _ events hwa hevents with
    h | ⟨earlier, event, later, rfl, hea, hqd⟩
  · obtain ⟨r', hr', -, hst, -⟩ := h.waiting
    rw [phase_state] at hst
    simp [stateOf, hr', hst] at hsettled
  have hla := ((allSteps_append _ _ _ _ _).mp hevents).2.2
  obtain ⟨hcl, hjb⟩ := queued_stays name (m.jobsFor name) _ later hqd hla
  rw [run_append]
  exact ⟨hcl, hjb, earlier, event, later, rfl, hea, hqd⟩

end

def running : Manager Script :=
  run step (Manager.new (oneService { execStart := [⟨"/bin/a", [], false⟩] }) {} none)
    (runNow .start)

theorem restart_not_lost_mainExit :
    let m := (running.restartUnit "a.service").2
    let ev : List Event := [.childExit ⟨10, cldExited, 0⟩]
    (run step m ev).stateOf "a.service" = some .inactive ∧
      "a.service" ∉ (run step m ev).restartPending ∧
        running.jobsFor "a.service" ++ [restartJob "a.service"] <+:
          (run step m ev).jobsFor "a.service" := by
  intro m ev
  have hrn : running.units["a.service"]?.any (fun r =>
      r.loaded.isService && r.tracked && r.state == .active) = true := by decide
  obtain ⟨r, hr, h⟩ := (Option.any_eq_true _ _).mp hrn
  simp only [Bool.and_eq_true, beq_iff_eq] at h
  have hho : RestartHonoured "a.service" m (.childExit ⟨10, cldExited, 0⟩) := by
    have hma : m.units["a.service"]?.all (·.controlPid != some 10) = true := by decide
    intro _ r het
    simpa [het.record] using hma
  have hlos := restart_not_lost running "a.service" r hr h.1.1 (.inl h.2) h.1.2 (by decide)
    ev ⟨hho, trivial⟩ (by decide)
  exact ⟨by decide, hlos.1, hlos.2.1⟩

/-- The exit of a control process ends a restarted service without the start it waits for. -/
theorem restart_lost_by_control_exit :
    let m := run step (starting.restartUnit "a.service").2 [.childExit ⟨10, cldExited, 1⟩]
    (starting.restartUnit "a.service").2.stateOf "a.service" = some .deactivating ∧
      m.stateOf "a.service" = some .failed ∧ "a.service" ∈ m.restartPending ∧
        m.jobQueue.pending = [] ∧ m.sharedQueue.pending = [] ∧ m.restartTimers = [] := by
  decide

end Rustd.Manager
