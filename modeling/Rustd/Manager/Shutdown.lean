import Rustd.Manager.Progress
import Rustd.Manager.RestartResults
import Rustd.Manager.Rising

/-!
# Shutdown

Embedding of how the manager loop comes to return: a request for the kernel to reboot, power off,
halt or execute another kernel queues one transaction, and the loop returns once it is idle.
Nothing keeps other jobs out while the transaction is in progress.
-/

namespace Rustd.Manager

open Base Service UnitFile Jobs List Option Std

inductive Shutdown where
  | reboot
  | poweroff
  | halt
  | kexec
  deriving DecidableEq

/-- `LoopResult` of `src/event/loop_.rs:30`. -/
inductive LoopResult where
  | exit
  | reexecute
  | shutdown (kind : Shutdown)
  deriving DecidableEq

/-- Part of `Manager::run_inner`, `src/manager.rs:508`. -/
structure Loop (W : Type) where
  manager : Manager W
  pendingShutdown : Option Shutdown := none
  reexecuteRequested : Bool := false
  exitRequested : Bool := false
  shutdownAction : Option Shutdown := none
  unitLoadRequests : List String := []
  /-- The units kept by the shutdown transaction in progress. -/
  kept : ExtTreeSet String := ∅
  returned : Option LoopResult := none

/-- Part of `Manager::run_inner`, `src/manager.rs:508`. -/
inductive LoopEvent where
  | handle (e : Event)
  /-- A client asks for the shutdown. -/
  | requestShutdown (kind : Shutdown)
  | requestReexecute
  | requestExit
  | requestUnitLoad (name : String)
  | applyUnitLoadRequests
  /-- A signal asked the event loop for the shutdown. -/
  | signal (kind : Shutdown)
  /-- The end of a turn. -/
  | check

variable {W : Type} [Kernel W] (kept : ExtTreeSet String) (m : Manager W) (name : String)

/-- The units kept by the shutdown transaction: what `shutdown.target` pulls in and what ignores
isolation; none when the target cannot be isolated. -/
def shutdownKeep : ExtTreeSet String :=
  match (m.enqueueIsolate 0 "shutdown.target").1 with
  | .error _ => ∅
  | .ok () =>
    let resolved := (m.loadUnit "shutdown.target").2.resolveStartOrder "shutdown.target"
    match resolved.1 with
    | .error _ => ∅
    | .ok order => (resolved.2.loadUnits order).isolateKeep order

namespace Loop

variable (l : Loop W)

omit [Kernel W] in
/-- `Manager::is_idle` of `src/manager.rs:2640`. -/
def isIdle : Bool :=
  l.manager.jobQueue.isEmpty l.manager.jobRegistry &&
    l.manager.sharedQueue.isEmpty l.manager.jobRegistry && l.unitLoadRequests.isEmpty &&
    l.manager.jobRegistry.isEmpty && l.manager.allSettled

omit [Kernel W] in
/-- Return the pending result once the manager is idle. -/
def takePending : Loop W :=
  if l.isIdle then
    { l with returned := l.pendingShutdown.map LoopResult.shutdown, pendingShutdown := none }
  else l

/-- `Manager::queue_shutdown_transaction` of `src/manager.rs:733`. -/
def queueShutdownTransaction (kind : Shutdown) : Loop W :=
  takePending { l with
    manager := l.manager.beginShutdownTransaction
    pendingShutdown := some kind
    kept := l.manager.shutdownKeep }

/-- `Manager::requested_lifecycle_result` of `src/manager.rs:707`. -/
def requestedLifecycleResult : Loop W :=
  if l.pendingShutdown.isSome then l.takePending
  else if l.reexecuteRequested then
    { l with reexecuteRequested := false, returned := some .reexecute }
  else if l.exitRequested then { l with exitRequested := false, returned := some .exit }
  else match l.shutdownAction with
    | some kind => { l with shutdownAction := none }.queueShutdownTransaction kind
    | none => l

/-- One event; nothing happens once the loop has returned. -/
def step (l : Loop W) (e : LoopEvent) : Loop W :=
  if l.returned.isSome then l
  else match e with
    | .handle e => { l with manager := l.manager.step e }
    | .requestShutdown kind => { l with shutdownAction := some kind }
    | .requestReexecute => { l with reexecuteRequested := true }
    | .requestExit => { l with exitRequested := true }
    | .requestUnitLoad name => { l with unitLoadRequests := l.unitLoadRequests ++ [name] }
    | .applyUnitLoadRequests =>
      { l with manager := l.manager.loadUnits l.unitLoadRequests, unitLoadRequests := [] }
    | .signal kind => l.queueShutdownTransaction kind
    | .check => l.requestedLifecycleResult

end Loop

/-- The kernel refuses what stopping the unit takes. -/
def stopRefused : Bool :=
  match m.units[name]?.map UnitRecord.loaded with
  | some (.mount _) => !(Kernel.unmount m.world name).1.isOk
  | some (.swap _) => !(Kernel.swapOff m.world name).1.isOk
  | some (.path _ _) => m.pathSources[name]?.any (fun source =>
      !(Kernel.removeInotify m.world source).1.isOk)
  | _ => false

def stopJob : Job := ⟨0, .stop, name⟩

def Leaving : Prop :=
  ∀ (name : String) (r : UnitRecord), m.units[name]? = some r → r.phase.up → name ∉ kept →
    stopJob name ∈ m.jobQueue.pending

/-- No unit is up but those that are kept. -/
def Cleared : Prop :=
  ∀ (name : String) (r : UnitRecord), m.units[name]? = some r → name ∉ kept →
    r.state ≠ .active ∧ r.state ≠ .activating ∧ r.state ≠ .deactivating

section

variable (m : Manager W)

omit [Kernel W] in
private theorem pending_enqueueAll (k : JobKind) (us : List String) :
    (m.enqueueAll k us).jobQueue.pending =
      m.jobQueue.pending ++ us.map (⟨0, k, ·⟩) := by
  have hfol : ∀ (us : List String) (q : JobQueue),
      (us.foldl (fun q name => q.enqueueInternal k name) q).pending =
        q.pending ++ us.map (⟨0, k, ·⟩) := by
    intro us
    induction us with
    | nil => simp
    | cons name us ih =>
      intro q
      rw [foldl_cons, ih, JobQueue.enqueueInternal]
      simp
  exact hfol us m.jobQueue

private theorem mem_unitsIn {states : List UnitState} {name : String}
    (hr : m.units[name]? = some r) (hst : r.state ∈ states) : name ∈ m.unitsIn states := by
  exact mem_filter.mpr ⟨(mem_unitNames m name).mpr ⟨r, hr⟩, by simpa [hr] using hst⟩

/-- Stops that are queued for all units that are up, up to some. -/
private theorem leaving_enqueueAll (kept : ExtTreeSet String) (k : String → Bool)
    (hke : ∀ name, k name = true → name ∈ kept) :
    Leaving kept (m.enqueueAll .stop
      ((m.unitsIn [.active, .activating, .failed]).filter (!k ·))) := by
  intro name r hr hup hname
  have hunt : name ∈ m.unitsIn [.active, .activating, .failed] := by
    apply mem_unitsIn m hr
    rcases hup with hup | hup <;> rw [phase_state] at hup <;> simp [hup]
  have hun : k name = false := by
    rw [← Bool.not_eq_true]
    exact fun h => hname (hke name h)
  rw [pending_enqueueAll]
  apply mem_append_right
  exact List.mem_map.mpr ⟨name, mem_filter.mpr ⟨hunt, by simp [hun]⟩, rfl⟩

private theorem enqueueIsolate_of_ok (id : Nat) (tgt : String)
    (h : (m.enqueueIsolate id tgt).1 = .ok ()) :
    ∃ order, ((m.loadUnit tgt).2.resolveStartOrder tgt).1 = .ok order ∧
      (m.enqueueIsolate id tgt).2 =
        ((m.loadUnit tgt).2.resolveStartOrder tgt).2.isolateTransaction id tgt order := by
  revert h
  simp only [enqueueIsolate]
  split
  · simp
  · simp
  split
  · simp
  split
  · simp
  · split
    · simp
    · next order hord => exact fun _ => ⟨order, hord, rfl⟩

private theorem leaving_beginShutdownTransaction :
    Leaving m.shutdownKeep m.beginShutdownTransaction := by
  simp only [shutdownKeep, beginShutdownTransaction]
  cases his : (m.enqueueIsolate 0 "shutdown.target").1 with
  | error error =>
    have h := leaving_enqueueAll (m.enqueueIsolate 0 "shutdown.target").2 ∅ (fun _ => false)
      (fun _ h => by cases h)
    simpa using h
  | ok done =>
    obtain ⟨order, hord, htr⟩ := enqueueIsolate_of_ok m 0 "shutdown.target" his
    simp only [hord, htr, isolateTransaction, ne_eq, not_true_eq_false, if_false]
    generalize ((m.loadUnit "shutdown.target").2.resolveStartOrder "shutdown.target").2.loadUnits
      order = loaded
    have hle := leaving_enqueueAll (loaded.setState "shutdown.target" .activating)
      (loaded.isolateKeep order) ((loaded.isolateKeep order).contains ·)
      (fun _ h => h)
    intro name r hr hup hname
    rw [pending_enqueueAll]
    exact mem_append_left _ (hle name r hr hup hname)

end

section

variable (kept : ExtTreeSet String) (l : Loop W) (m : Manager W) (name : String) (e : Event)
  (r r' : UnitRecord)

omit [Kernel W] in
private theorem down_finishAttempt (a : Except String Unit × Manager W)
    (hun : a.2.units = m.units) (hok : a.1.isOk = true) (r r' : UnitRecord)
    (hr : m.units[name]? = some r)
    (hr' : (finishAttempt a name .inactive).2.units[name]? = some r') : ¬r'.phase.up := by
  unfold finishAttempt at hr'
  split at hr'
  · next herr =>
    rw [herr] at hok
    cases hok
  rw [getElem?_setState a.2 .inactive (by rw [hun, hr])] at hr'
  cases hr'
  exact Phase.not_up_of_settled (.inl rfl)

private theorem down_stopOther (hr : m.units[name]? = some r) (h : m.stopRefused name = false)
    (hr' : (m.stopOther name r).2.units[name]? = some r') : ¬r'.phase.up := by
  have hset : ∀ m' : Manager W, m'.units = m.units →
      (m'.setState name .inactive).units[name]? = some r' → ¬r'.phase.up := by
    intro m' hun hset
    rw [getElem?_setState m' .inactive (by rw [hun, hr])] at hset
    cases hset
    exact Phase.not_up_of_settled (.inl rfl)
  simp only [stopRefused, hr, map_some] at h
  unfold stopOther at hr'
  split at hr'
  · split at hr'
    · refine hset _ ?_ hr'
      rfl
    · exact hset _ rfl hr'
  · next hld =>
    simp only [hld, Bool.not_eq_false'] at h
    exact down_finishAttempt m name _ rfl h r r' hr hr'
  · next hld =>
    simp only [hld, Bool.not_eq_false'] at h
    exact down_finishAttempt m name _ rfl h r r' hr hr'
  · next hld =>
    simp only [hld] at h
    split at hr'
    · next source hsc =>
      simp only [hsc, any_some, Bool.not_eq_false'] at h
      exact down_finishAttempt m name _ rfl h r r' hr hr'
    · exact hset _ rfl hr'
  · exact hset _ rfl hr'

private theorem down_runUnitJob (h : m.stopRefused name = false)
    (hr' : (m.runUnitJob .stop name).2.units[name]? = some r') : ¬r'.phase.up := by
  cases hr : m.units[name]? with
  | none =>
    simp only [runUnitJob, hr] at hr'
    cases hr'
  | some r =>
    cases hs : r.loaded.service? with
    | none =>
      simp only [runUnitJob, hr, hs] at hr'
      exact down_stopOther m name r r' hr h hr'
    | some s =>
      simp only [runUnitJob, hr, hs, runServiceJob] at hr'
      obtain ⟨r₁, hr₁, -, hph⟩ := waits_or_settled_stopService m
        ((effectiveNotifyAccess s).isSome && m.notify.isSome) r hr
        (by rw [LoadedUnit.isService, hs, isSome_some])
      cases hr₁.symm.trans hr'
      rcases hph with ⟨hst, -⟩ | ⟨hse, -⟩
      · exact Phase.not_up_of_deactivating hst
      · exact Phase.not_up_of_settled hse

private theorem down_dispatch (sc : Option (Nat → Job → Score))
    (hj : (m.popped sc).1 = some (stopJob name)) (h : m.stopRefused name = false)
    (r' : UnitRecord) (hr' : (m.dispatch sc).units[name]? = some r') : ¬r'.phase.up := by
  intro hup
  have hrf : (m.executing sc (stopJob name)).stopRefused name = false := by
    simpa [stopRefused] using h
  have hex : Rises (fun _ => False)
      ((m.executing sc (stopJob name)).executeJob (stopJob name)).2 (m.dispatch sc) :=
    Rises.of_tends (tends_dispatch_popped m sc _ hj)
  obtain hfls | ⟨r, hr, hup⟩ := hex name r' hr' hup
  · exact hfls
  · exact down_runUnitJob (m.executing sc (stopJob name)) name r hrf hr hup

/-- The event does not disturb a shutdown that keeps the given units: no other unit comes up,
unless its stop is still to be run, and no stop is refused. -/
def LeavesDown (kept : ExtTreeSet String) (m : Manager W) (e : Event) : Prop :=
  (∀ name, name ∉ kept → stopJob name ∉ m.jobQueue.pending → ¬m.raisedBy e name) ∧
    ∀ score name, e = .dispatch score → (m.popped score).1 = some (stopJob name) → name ∉ kept →
      m.stopRefused name = false

private theorem covers_all : m.Covers (fun _ => True) (fun _ => True) (fun _ => True) e := by
  cases e <;> simp [Covers]

private theorem leaving_step (hm : Leaving kept m) (h : LeavesDown kept m e) :
    Leaving kept (m.step e) := by
  intro name r' hr' hup hname
  have hwg : stopJob name ∈ m.jobQueue.pending := by
    by_contra hnot
    rcases rises_step m e name r' hr' hup with hra | ⟨r, hr, hup⟩
    · exact h.1 name hname hnot hra
    · exact hnot (hm name r hr hup hname)
  apply (queues_step m e (covers_all m e)).kept
  apply mem_before_of_mem m rfl hwg
  rintro sc rfl hpo
  exact down_dispatch m name sc hpo (h.2 sc name rfl hpo hname) r' hr' hup

private theorem leaving_loadUnits (us : List String) (hm : Leaving kept m) :
    Leaving kept (m.loadUnits us) := by
  intro name r' hr' hup hname
  have htn : Tends (.raising fun _ => False) m (m.loadUnits us) := tends_loadUnits m us
  obtain hfls | ⟨r, hr, hup⟩ := Rises.of_tends htn name r' hr' hup
  · exact absurd hfls id
  · exact htn.queues.kept _ (hm name r hr hup hname)

omit [Kernel W] in
private theorem cleared_of_isIdle (h : l.isIdle = true) (hm : Leaving l.kept l.manager) :
    Cleared l.kept l.manager := by
  simp only [Loop.isIdle, Bool.and_eq_true] at h
  obtain ⟨⟨⟨⟨hqu, -⟩, -⟩, -⟩, hse⟩ := h
  intro name r hr hname
  obtain ⟨hatv, hd⟩ := state_of_allSettled l.manager hse name r hr
  refine ⟨?_, hatv, hd⟩
  intro hav
  have hwg := hm name r hr (.inl hav) hname
  simp only [JobQueue.isEmpty, JobQueue.len, beq_iff_eq, countP_eq_zero] at hqu
  exact hqu (stopJob name) hwg (by simp [JobQueue.keeps, stopJob])

/-- No event brings a unit up once the shutdown is pending. -/
def Undisturbed (l : Loop W) : LoopEvent → Prop
  | .handle e => l.pendingShutdown.isSome = true → LeavesDown l.kept l.manager e
  | _ => True

structure Clears (l : Loop W) : Prop where
  pending : l.pendingShutdown.isSome = true → Leaving l.kept l.manager
  returned : ∀ kind, l.returned = some (.shutdown kind) → Cleared l.kept l.manager

omit [Kernel W] in
private theorem Clears.takePending {l : Loop W} (h : Clears l) : Clears l.takePending := by
  unfold Loop.takePending
  split
  · next hidl =>
    constructor
    · intro hnn
      cases hnn
    intro k hkn
    obtain ⟨p, hpn, -⟩ := map_eq_some_iff.mp hkn
    exact cleared_of_isIdle l hidl (h.pending (by rw [hpn, isSome_some]))
  · exact h

private theorem clears_queueShutdownTransaction (k : Shutdown) (h : l.returned = none) :
    Clears (l.queueShutdownTransaction k) := by
  apply Clears.takePending
  refine ⟨fun _ => leaving_beginShutdownTransaction l.manager, ?_⟩
  intro k' hrtr
  cases h.symm.trans hrtr

private theorem clears_step (e : LoopEvent) (hl : Clears l) (h : Undisturbed l e) :
    Clears (l.step e) := by
  unfold Loop.step
  split
  · exact hl
  rename_i hrn
  have hnn : l.returned = none := by simpa using hrn
  cases e with
  | handle e =>
    exact ⟨fun hpn => leaving_step l.kept l.manager e (hl.pending hpn) (h hpn),
      fun k hrtr => by cases hnn.symm.trans hrtr⟩
  | applyUnitLoadRequests =>
    exact ⟨fun hpn => leaving_loadUnits l.kept l.manager _ (hl.pending hpn),
      fun k hrtr => by cases hnn.symm.trans hrtr⟩
  | signal k => exact clears_queueShutdownTransaction l k hnn
  | check =>
    simp only [Loop.requestedLifecycleResult]
    split
    · exact hl.takePending
    rename_i hpn
    have hidl : l.pendingShutdown.isSome = true → Leaving l.kept l.manager := fun h => absurd h hpn
    split
    · exact ⟨hidl, fun k hrtr => by cases hrtr⟩
    split
    · exact ⟨hidl, fun k hrtr => by cases hrtr⟩
    split
    · next k _ =>
      exact clears_queueShutdownTransaction { l with shutdownAction := none } k hnn
    · exact hl
  | _ => exact ⟨hl.pending, hl.returned⟩

/-- When the loop returns for a shutdown that was not disturbed, no unit outside of those that
its transaction keeps is active, activating or deactivating. -/
theorem shutdown_clean (l : Loop W) (hpending : l.pendingShutdown = none)
    (hrunning : l.returned = none) (events : List LoopEvent)
    (hevents : AllSteps Loop.step Undisturbed l events) (kind : Shutdown)
    (hreturned : (run Loop.step l events).returned = some (.shutdown kind)) :
    Cleared (run Loop.step l events).kept (run Loop.step l events).manager := by
  have hl : Clears l := by
    constructor
    · intro h
      rw [hpending] at h
      cases h
    · intro kind h
      cases hrunning.symm.trans h
  exact (run_invariant clears_step l events hl hevents).returned kind hreturned

end

/-- Two services, the first of which runs, and a `shutdown.target`. -/
def serving : Loop Script :=
  { manager := run step (Manager.new { twoServices with
      units := fun name =>
        if name = "shutdown.target" then some (.target { allowIsolate := true })
        else twoServices.units name } {} none) (runNow .start) }

def rebooting (meanwhile : List LoopEvent) : List LoopEvent :=
  [.requestShutdown .reboot, .check, .handle (.dispatch none)] ++ meanwhile ++
    [.handle (.childExit ⟨10, cldExited, 0⟩), .handle (.dispatch none), .handle (.dispatch none),
      .handle .activateTargets, .handle .completeJobs, .check]

private theorem leavesDown_dispatch {W : Type} [Kernel W] {kept : ExtTreeSet String}
    {m : Manager W} (h : ∀ j, (m.popped sc).1 = some j →
      (bringsUp j.kind = true → j.unitName ∈ kept) ∧ m.stopRefused j.unitName = false) :
    LeavesDown kept m (.dispatch sc) := by
  constructor
  · rintro name hname - ⟨j, hj, rfl, hup⟩
    exact hname ((h j hj).1 hup)
  · rintro score' name ⟨⟩ hj -
    exact (h _ hj).2

/-- The manager after the first events of the reboot. -/
private def rebootingAt (n : Nat) : Manager Script :=
  (run Loop.step serving ((rebooting []).take n)).manager

theorem shutdown_clean_reboot :
    let l := run Loop.step serving (rebooting [])
    l.returned = some (.shutdown .reboot) ∧ Cleared l.kept l.manager := by
  have hrtr : (run Loop.step serving (rebooting [])).returned = some (.shutdown .reboot) := by
    decide
  have hstp : ((rebootingAt 2).popped none).1 = some (stopJob "a.service") := by decide
  have hor : (rebootingAt 3).ownerOf 10 = some "a.service" := by decide
  have hext : (rebootingAt 3).units["a.service"]?.all (fun r => r.controlPid == none &&
      r.loaded.service?.all (fun s =>
        !(rebootingAt 3).exitKeepsActive "a.service" r s ⟨10, cldExited, 0⟩)) = true := by decide
  have hstr : ((rebootingAt 4).popped none).1 = some ⟨0, .start, "shutdown.target"⟩ := by decide
  have hnn : ((rebootingAt 5).popped none).1 = none := by decide
  refine ⟨hrtr, shutdown_clean serving rfl rfl (rebooting []) ?_ .reboot hrtr⟩
  refine ⟨trivial, trivial, fun _ => leavesDown_dispatch ?_, fun _ => ⟨?_, fun _ _ h => nomatch h⟩,
    fun _ => leavesDown_dispatch ?_, fun _ => leavesDown_dispatch ?_,
    fun _ => ⟨fun _ _ _ => id, fun _ _ h => nomatch h⟩,
    fun _ => ⟨fun _ _ _ => id, fun _ _ h => nomatch h⟩, trivial, trivial⟩
  · intro j hj
    cases hstp.symm.trans hj
    exact ⟨by decide, by decide⟩
  · rintro name - - ⟨r, s, het, hs, hra⟩
    cases hor.symm.trans het.owner
    rw [show (rebootingAt 3).units["a.service"]? = some r from het.record] at hext
    simp only [all_some, hs, Bool.and_eq_true, beq_iff_eq, Bool.not_eq_true'] at hext
    rw [if_neg (by simp [hext.1])] at hra
    cases hext.2.symm.trans hra
  · intro j hj
    cases hstr.symm.trans hj
    exact ⟨fun _ => by decide, by decide⟩
  · intro j hj
    cases hnn.symm.trans hj

/-- A client starts the second service while the manager shuts down for a reboot. The manager
returns for the reboot with the service active. -/
theorem started_during_shutdown :
    let l := run Loop.step serving (rebooting
      [.handle (.submit .start "b.service" none), .handle .drainShared])
    l.returned = some (.shutdown .reboot) ∧ "b.service" ∉ l.kept ∧
      l.manager.stateOf "b.service" = some .active := by
  decide

end Rustd.Manager
