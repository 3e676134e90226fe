import Rustd.Manager.Notifications

/-!
# Isolation of notifications

What notifications of one unit do to the others. The manager's tables only change at the unit
itself. The registrations of the notification server are keyed by process, and a message may
name any process as its main process, so another unit may lose a registration; the condition
under which it does not is exact.
-/

namespace Rustd.Service

open UnitFile Std.ExtTreeMap

variable (n : NotifyState)

def NotifyState.foreignTo (unitName : String) (pid : Int) : Prop :=
  ∃ registration, n.registrations[pid]? = some registration ∧ registration.unitName ≠ unitName

def NotifyState.forget (mainPid : Option Int) : NotifyState :=
  match mainPid with
  | some pid => n.unregisterPid pid
  | none => n

def NotifyState.SameOthers (n' : NotifyState) (unitName : String) : Prop :=
  ∀ (pid : Int) (registration : Registration), registration.unitName ≠ unitName →
    (n'.registrations[pid]? = some registration ↔ n.registrations[pid]? = some registration)

namespace NotifyState

variable {n n' : NotifyState} {unitName : String}

theorem SameOthers.refl (n : NotifyState) (unitName : String) : n.SameOthers n unitName :=
  fun _ _ _ => Iff.rfl

theorem SameOthers.trans (h : n.SameOthers n' unitName)
    (h' : n'.SameOthers n'' unitName) : n.SameOthers n'' unitName :=
  fun pid reg hother => (h' pid reg hother).trans (h pid reg hother)

theorem SameOthers.symm (h : n.SameOthers n' unitName) : n'.SameOthers n unitName :=
  fun pid reg hother => (h pid reg hother).symm

private theorem not_foreignTo_of_sameOthers (pid : Int) (h : n.SameOthers n' unitName)
    (hpid : ¬ n'.foreignTo unitName pid) : ¬ n.foreignTo unitName pid := by
  rintro ⟨reg, hrg, hother⟩
  exact hpid ⟨reg, (h pid reg hother).mpr hrg, hother⟩

private theorem sameOthers_of_change (pid : Int) (hrest : ∀ v, v ≠ pid →
      n'.registrations[v]? = n.registrations[v]?)
    (hbf : ¬ n.foreignTo unitName pid) (haf : ¬ n'.foreignTo unitName pid) :
    n.SameOthers n' unitName := by
  intro v reg hother
  by_cases heq : v = pid
  · subst heq
    constructor
    · intro h
      exact absurd ⟨reg, h, hother⟩ haf
    · intro h
      exact absurd ⟨reg, h, hother⟩ hbf
  · rw [hrest v heq]

private theorem sameOthers_unregisterPid_iff (n : NotifyState) (unitName : String) (pid : Int) :
    n.SameOthers (n.unregisterPid pid) unitName ↔ ¬ n.foreignTo unitName pid := by
  have haf : ¬ (n.unregisterPid pid).foreignTo unitName pid := by
    simp [foreignTo, unregisterPid]
  constructor
  · intro h
    exact not_foreignTo_of_sameOthers pid h haf
  intro h
  refine sameOthers_of_change pid ?_ h haf
  intro v hne
  simp [unregisterPid, getElem?_erase, Ne.symm hne]

private theorem sameOthers_registerPid_iff (n : NotifyState) (unitName : String) (pid : Int)
    (ac : NotifyAccess) (hpid : 0 < pid) (hacs : ac ≠ .none) :
    n.SameOthers (n.registerPid pid unitName ac) unitName ↔ ¬ n.foreignTo unitName pid := by
  have hreg : (n.registerPid pid unitName ac).registrations =
      n.registrations.insert pid ⟨unitName, ac, pid⟩ := by
    simp [registerPid, Int.not_le.mpr hpid, hacs]
  have haf : ¬ (n.registerPid pid unitName ac).foreignTo unitName pid := by
    simp [foreignTo, hreg]
  constructor
  · intro h
    exact not_foreignTo_of_sameOthers pid h haf
  intro h
  refine sameOthers_of_change pid ?_ h haf
  intro v hne
  simp [hreg, getElem?_insert, Ne.symm hne]

/-- Moving a registration is no change for the other units when there is none to move, or
when it is the unit's own and the new process is not theirs. -/
theorem sameOthers_replacePid_iff (n : NotifyState) (unitName : String) (oldPid newPid : Int)
    (hne : oldPid ≠ newPid) (hpid : 0 < newPid) :
    n.SameOthers (n.replacePid oldPid newPid) unitName ↔
      ∀ reg, n.registrations[oldPid]? = some reg →
        reg.unitName = unitName ∧ ¬ n.foreignTo unitName newPid := by
  cases hold : n.registrations[oldPid]? with
  | none =>
    have hsa : n.replacePid oldPid newPid = n := by
      simp [replacePid, hold]
    simp [hsa, SameOthers.refl]
  | some reg =>
    have hreg : (n.replacePid oldPid newPid).registrations =
        (n.registrations.erase oldPid).insert newPid { reg with mainPid := newPid } := by
      simp [replacePid, hold, hne, Int.not_le.mpr hpid]
    have haf : ¬ (n.replacePid oldPid newPid).foreignTo unitName oldPid := by
      simp [foreignTo, hreg, hne.symm]
    simp only [Option.some.injEq, forall_eq']
    constructor
    · intro h
      have hown : reg.unitName = unitName := by
        by_contra hother
        exact not_foreignTo_of_sameOthers oldPid h haf ⟨reg, hold, hother⟩
      refine ⟨hown, not_foreignTo_of_sameOthers newPid h ?_⟩
      simp [foreignTo, hreg, hown]
    · rintro ⟨hown, hnew⟩
      -- The registration is first taken from the old process and then given to the new one.
      have he : n.SameOthers (n.unregisterPid oldPid) unitName := by
        rw [sameOthers_unregisterPid_iff]
        rintro ⟨v, hother, hfo⟩
        cases hold.symm.trans hother
        exact hfo hown
      refine he.trans (sameOthers_of_change newPid ?_ ?_ ?_)
      · intro v hn
        rw [hreg]
        simp [unregisterPid, getElem?_insert, Ne.symm hn]
      · rintro ⟨v, hother, hfo⟩
        exact hnew ⟨v, (he newPid v hfo).mp hother, hfo⟩
      · simp [foreignTo, hreg, hown]

end NotifyState
end Rustd.Service

namespace Rustd.Manager

open Base Service UnitFile List Option

section

variable (n : NotifyState) (unitName : String) (r : UnitRecord) (message : NotifyMessage)

def notifyEffect (givenUp : Bool) : NotifyState :=
  let n := if givenUp then n.forget (mainAfter r message) else n
  match pidChange r message with
  | some (some oldPid, newPid) => n.replacePid oldPid newPid
  | some (none, newPid) => match r.notifyAccess with
    | some access => n.registerPid newPid unitName access
    | none => n
  | none => n

/-- The processes whose registrations a message changes are not those of other units. -/
structure OwnPids (givenUp : Bool) : Prop where
  replaced : ∀ oldPid newPid, pidChange r message = some (some oldPid, newPid) →
    ∀ registration : Registration, n.registrations[oldPid]? = some registration →
      registration.unitName = unitName ∧ ¬ n.foreignTo unitName newPid
  registered : ∀ newPid, pidChange r message = some (none, newPid) →
    r.notifyAccess.isSome = true → ¬ n.foreignTo unitName newPid
  abandoned : givenUp = true → ∀ pid, mainAfter r message = some pid → ¬ n.foreignTo unitName pid

variable {oldPid op : Option Int} {newPid np pid : Int}

variable {r message} in
private theorem mainAfter_of_pidChange (h : pidChange r message = some (oldPid, newPid)) :
    mainAfter r message = some newPid ∧ 0 < newPid ∧ r.activePid = oldPid ∧
      oldPid ≠ some newPid := by
  unfold pidChange at h
  split at h
  · next pid hpid =>
    split at h
    · next hch =>
      cases h
      simp [mainAfter, hpid, hch]
    · cases h
  · cases h

private theorem notifyAccess_ne_none (r : UnitRecord) (ac : NotifyAccess)
    (h : r.notifyAccess = some ac) : ac ≠ .none := by
  obtain ⟨s, -, hs⟩ := bind_eq_some_iff.mp h
  unfold effectiveNotifyAccess at hs
  split at hs
  · cases hs
    split
    · simp
    · next hne => exact hne
  · cases hs

/-- A message that the manager does not give up the unit for. -/
private theorem sameOthers_notifyEffect_false :
    n.SameOthers (notifyEffect n unitName r message false) unitName ↔
      OwnPids n unitName r message false := by
  simp only [notifyEffect, Bool.false_eq_true, if_false]
  split
  · next oldPid newPid hch =>
    obtain ⟨-, hpid, -, hne⟩ := mainAfter_of_pidChange hch
    rw [NotifyState.sameOthers_replacePid_iff n unitName oldPid newPid (by simpa using hne) hpid]
    constructor
    · intro h
      exact ⟨by simpa [hch] using h, by simp [hch], by simp⟩
    · intro h
      exact h.replaced oldPid newPid hch
  · next newPid hch =>
    obtain ⟨-, hpid, -⟩ := mainAfter_of_pidChange hch
    split
    · next access hacs =>
      rw [NotifyState.sameOthers_registerPid_iff n unitName newPid access hpid
        (notifyAccess_ne_none r access hacs)]
      constructor
      · intro h
        exact ⟨by simp [hch], by simpa [hch, hacs] using h, by simp⟩
      · intro h
        exact h.registered newPid hch (by simp [hacs])
    · next hacs =>
      exact ⟨fun _ => ⟨by simp [hch], by simp [hacs], by simp⟩,
        fun _ => NotifyState.SameOthers.refl n unitName⟩
  · next hch =>
    exact ⟨fun _ => ⟨by simp [hch], by simp [hch], by simp⟩,
      fun _ => NotifyState.SameOthers.refl n unitName⟩

variable {n unitName r message} in
/-- A forgotten process of another unit does not come back to it by a later change. -/
private theorem not_sameOthers_of_foreign (hma : mainAfter r message = some pid)
    (hfo : n.foreignTo unitName pid) :
    ¬ n.SameOthers (notifyEffect (n.unregisterPid pid) unitName r message false) unitName := by
  intro h
  have hgon : ¬ (n.unregisterPid pid).foreignTo unitName pid := by
    simp [NotifyState.foreignTo, NotifyState.unregisterPid]
  have hown : (n.unregisterPid pid).SameOthers
      (notifyEffect (n.unregisterPid pid) unitName r message false) unitName → False := by
    intro hsa
    refine NotifyState.not_foreignTo_of_sameOthers pid h ?_ hfo
    rintro ⟨reg, hrg, hother⟩
    exact hgon ⟨reg, (hsa pid reg hother).mp hrg, hother⟩
  rw [sameOthers_notifyEffect_false] at hown
  apply hown
  refine ⟨?_, ?_, by simp⟩
  · intro oldPid newPid hch reg hold
    obtain ⟨haf, hpos, -, hne⟩ := mainAfter_of_pidChange hch
    cases hma.symm.trans haf
    refine ⟨?_, hgon⟩
    by_contra hother
    -- The moved registration is another unit's, which loses its old process.
    refine NotifyState.not_foreignTo_of_sameOthers oldPid h ?_ ⟨reg, ?_, hother⟩
    · have hne : oldPid ≠ pid := by simpa using hne
      simp [notifyEffect, hch, NotifyState.foreignTo, NotifyState.replacePid, hold, hne,
        Int.not_le.mpr hpos, hne.symm]
    · simp only [NotifyState.unregisterPid, Std.ExtTreeMap.getElem?_erase] at hold
      exact (ite_none_left_eq_some.mp hold).2
  · intro newPid hch _
    cases hma.symm.trans (mainAfter_of_pidChange hch).1
    exact hgon

variable {n unitName r message} in
/-- A message names the process that was unregistered before it, or none. -/
private theorem pidChange_of_unregistered (hma : mainAfter r message = some pid)
    (hch : pidChange r message = some (oldPid, newPid)) : newPid = pid ∧ oldPid ≠ some pid := by
  obtain ⟨haf, -, -, hne⟩ := mainAfter_of_pidChange hch
  cases hma.symm.trans haf
  exact ⟨rfl, hne⟩

variable {n unitName r message} in
/-- Unregistering a process that is no other unit's leaves the same processes to check. -/
private theorem ownPids_unregisterPid_iff (hma : mainAfter r message = some pid)
    (hfo : ¬ n.foreignTo unitName pid) :
    OwnPids (n.unregisterPid pid) unitName r message false ↔ OwnPids n unitName r message true := by
  have hgon : ¬ (n.unregisterPid pid).foreignTo unitName pid := by
    simp [NotifyState.foreignTo, NotifyState.unregisterPid]
  have hold : ∀ oldPid newPid, pidChange r message = some (some oldPid, newPid) →
      (n.unregisterPid pid).registrations[oldPid]? = n.registrations[oldPid]? := by
    intro oldPid newPid hch
    have hne : pid ≠ oldPid := by
      simpa using Ne.symm (pidChange_of_unregistered hma hch).2
    simp [NotifyState.unregisterPid, Std.ExtTreeMap.getElem?_erase, hne]
  constructor
  · intro h
    refine ⟨?_, ?_, ?_⟩
    · intro oldPid newPid hch reg hrg
      rw [(pidChange_of_unregistered hma hch).1]
      have hrg := (hold oldPid newPid hch).trans hrg
      exact ⟨(h.replaced oldPid newPid hch reg hrg).1, hfo⟩
    · intro newPid hch _
      rw [(pidChange_of_unregistered hma hch).1]
      exact hfo
    intro _ v hother
    cases hma.symm.trans hother
    exact hfo
  · intro h
    refine ⟨?_, ?_, by simp⟩
    · intro oldPid newPid hch reg hrg
      rw [(pidChange_of_unregistered hma hch).1]
      have hrg := (hold oldPid newPid hch).symm.trans hrg
      exact ⟨(h.replaced oldPid newPid hch reg hrg).1, hgon⟩
    intro newPid hch _
    rw [(pidChange_of_unregistered hma hch).1]
    exact hgon

/-- The other units keep their registrations exactly when the processes a message changes the
registrations of are not theirs. -/
theorem sameOthers_notifyEffect_iff (givenUp : Bool) :
    n.SameOthers (notifyEffect n unitName r message givenUp) unitName ↔
      OwnPids n unitName r message givenUp := by
  cases givenUp with
  | false => exact sameOthers_notifyEffect_false n unitName r message
  | true =>
    cases hma : mainAfter r message with
    | none =>
      have hef : notifyEffect n unitName r message true =
          notifyEffect n unitName r message false := by
        simp [notifyEffect, hma, NotifyState.forget]
      rw [hef, sameOthers_notifyEffect_false]
      exact ⟨fun h => ⟨h.replaced, h.registered, by simp [hma]⟩,
        fun h => ⟨h.replaced, h.registered, by simp⟩⟩
    | some pid =>
      have hef : notifyEffect n unitName r message true =
          notifyEffect (n.unregisterPid pid) unitName r message false := by
        simp [notifyEffect, hma, NotifyState.forget]
      rw [hef]
      by_cases hfo : n.foreignTo unitName pid
      · exact ⟨fun h => absurd h (not_sameOthers_of_foreign hma hfo),
          fun h => absurd hfo (h.abandoned rfl pid hma)⟩
      have hsa := (NotifyState.sameOthers_unregisterPid_iff n unitName pid).mpr hfo
      rw [← ownPids_unregisterPid_iff hma hfo, ← sameOthers_notifyEffect_false]
      exact ⟨hsa.symm.trans, hsa.trans⟩

end

section

variable {W : Type} (m : Manager W) (name : String)

@[simp] theorem notify_ask {α : Type} (f : W → α × W) : (m.ask f).2.notify = m.notify := rfl

@[simp] theorem notify_update (f : UnitRecord → UnitRecord) :
    (m.update name f).notify = m.notify := by
  unfold update
  split <;> rfl

@[simp] theorem notify_apply {α : Type} (a : α) (f : UnitRecord → W → α × UnitRecord × W) :
    (m.apply name a f).2.notify = m.notify := by
  unfold Manager.apply
  split <;> rfl

private theorem notify_unregisterMain : (m.unregisterMain name).notify =
    m.notify.map (·.forget (m.units[name]?.bind UnitRecord.activePid)) := by
  unfold unregisterMain
  cases m.units[name]?.bind UnitRecord.activePid with
  | none => simp [NotifyState.forget]
  | some pid => rfl

variable [Kernel W]

@[simp] theorem notify_cancelStartTimeout : (m.cancelStartTimeout name).notify = m.notify := by
  unfold cancelStartTimeout
  split <;> rfl

@[simp] theorem notify_cancelStopTimeout : (m.cancelStopTimeout name).notify = m.notify := by
  unfold cancelStopTimeout
  split <;> rfl

@[simp] theorem notify_signalTimeoutOperation (op : KillOperation) :
    (m.signalTimeoutOperation name op).2.notify = m.notify := by
  unfold signalTimeoutOperation
  split
  · rfl
  · split <;> rfl

private theorem notify_finalizeTimeoutWithoutExit (res : ServiceResult) :
    (m.finalizeTimeoutWithoutExit name res).notify = (m.unregisterMain name).notify := by
  simp only [finalizeTimeoutWithoutExit, notify_apply]
  simp [notify_unregisterMain]

private theorem notify_armServiceStopTimeout (t : Nat) : (m.armServiceStopTimeout name t).notify =
      if m.armMisses name t then (m.unregisterMain name).notify else m.notify := by
  cases hamd : ((m.cancelStopTimeout name).ask (Kernel.addTimer · (timerNs t))).1 with
  | ok s => simp [armServiceStopTimeout, armMisses, hamd]
  | error _ =>
    simp only [armServiceStopTimeout, armMisses, finalKillMisses, hamd, applyFinalKill, beq_iff_eq]
    split
    · simp [notify_finalizeTimeoutWithoutExit, notify_unregisterMain]
    · simp

def announcedStopGivesUp (announced : Bool) : Bool :=
  announced && match m.units[name]?.bind m.stopTimeoutForRecord with
    | some timeout => m.armMisses name timeout
    | none => false

private theorem notify_armAnnouncedStop (a : Bool) : (m.armAnnouncedStop name a).notify =
      if m.announcedStopGivesUp name a then (m.unregisterMain name).notify
      else m.notify := by
  cases a with
  | false => simp [armAnnouncedStop, announcedStopGivesUp]
  | true =>
    cases hti : m.units[name]?.bind m.stopTimeoutForRecord with
    | none => simp [armAnnouncedStop, announcedStopGivesUp, hti]
    | some t =>
      simp [armAnnouncedStop, announcedStopGivesUp, hti, notify_armServiceStopTimeout]

private theorem notify_completeReady (re : Bool) (now rt : Option Int) :
    (m.completeReady name re now rt).2.notify = m.notify := by
  simp only [completeReady]
  split
  · rfl
  · split <;> simp

private theorem notify_applyPidChange (c : Option (Option Int × Int)) :
    (m.applyPidChange name c).notify = m.notify.map (fun n =>
      match c with
      | some (some op, np) => n.replacePid op np
      | some (none, np) => match m.units[name]?.bind UnitRecord.notifyAccess with
        | some a => n.registerPid np name a
        | none => n
      | none => n) := by
  unfold applyPidChange
  split
  · next op np =>
    simp only [applyNotifyPidChange, notify_ask]
    cases op with
    | some op => rfl
    | none =>
      cases m.units[name]?.bind UnitRecord.notifyAccess with
      | none => simp
      | some a => rfl
  · simp

def stopTimerState (message : NotifyMessage) (now realtime : Option Int) : Manager W :=
  (m.update name (noteMessage · message now realtime)).cancelStartTimeout name

private theorem notify_settleMessage (r : UnitRecord) (message : NotifyMessage)
    (now realtime : Option Int)
    (hr : m.units[name]? = some r) :
    (m.settleMessage name r message now realtime).notify = m.notify.map (fun n =>
      if (m.stopTimerState name message now realtime).announcedStopGivesUp name
        (announcesStop r message) then n.forget (mainAfter r message) else n) := by
  simp only [settleMessage, notify_armAnnouncedStop]
  cases han : announcesStop r message with
  | false => simp [announcedStopGivesUp, notify_completeReady, cancelStartWhen, apply_ite]
  | true =>
    have hrd : readyRequested r message = false := by
      simp [readyRequested, han]
    have hca : (((m.update name (noteMessage · message now realtime)).completeReady
        name false now realtime).2.cancelStartWhen name (((m.update name
          (noteMessage · message now realtime)).completeReady name false now realtime).1 ||
            true)) = m.stopTimerState name message now realtime := by
      simp [completeReady, cancelStartWhen, stopTimerState]
    have hma : (m.stopTimerState name message now realtime).units[name]?.bind
        UnitRecord.activePid = mainAfter r message := by
      have hph := congrArg Phase.main (noteMessage_phase r message now realtime)
      rw [stopTimerState, units_cancelStartTimeout, getElem?_update, if_pos rfl, hr]
      exact hph
    have hnf : (m.stopTimerState name message now realtime).notify = m.notify := by
      simp [stopTimerState]
    rw [hrd, hca, notify_unregisterMain, hma, hnf]
    cases (m.stopTimerState name message now realtime).announcedStopGivesUp name true <;> simp

def messageGivesUp (r : UnitRecord) (message : NotifyMessage) : Bool :=
  let now := m.ask Kernel.monotonic
  let realtime := now.2.ask Kernel.realtime
  (realtime.2.stopTimerState name message now.1 realtime.1).announcedStopGivesUp name
    (announcesStop r message)

private theorem notify_applyNotifyEvent (ev : NotifyEvent) (r : UnitRecord)
    (hr : m.units[ev.unitName]? = some r) : (m.applyNotifyEvent ev).notify = m.notify.map (fun n =>
      notifyEffect n ev.unitName r ev.message (m.messageGivesUp ev.unitName r ev.message)) := by
  simp only [applyNotifyEvent, hr, messageGivesUp, applyMessage]
  have hr' : ((m.ask Kernel.monotonic).2.ask Kernel.realtime).2.units[ev.unitName]? = some r := hr
  generalize (m.ask Kernel.monotonic).1 = now
  generalize ((m.ask Kernel.monotonic).2.ask Kernel.realtime).1 = realtime
  have hnf : ((m.ask Kernel.monotonic).2.ask Kernel.realtime).2.notify = m.notify := rfl
  generalize ((m.ask Kernel.monotonic).2.ask Kernel.realtime).2 = m' at hr' hnf ⊢
  have hse : Tends (.moves fun _ _ _ => True) m'
      (m'.settleMessage ev.unitName r ev.message now realtime) :=
    tends_settleMessage m' ev.unitName r ev.message now realtime hr' (fun _ _ => trivial)
      (fun _ => trivial) (fun _ => ⟨trivial, fun _ => trivial⟩)
  obtain ⟨r', hr'', hal⟩ := hse.loaded ev.unitName r hr'
  have hacs : r'.notifyAccess = r.notifyAccess := by
    rw [UnitRecord.notifyAccess, hal.loaded, UnitRecord.notifyAccess]
  rw [notify_applyPidChange, notify_settleMessage m' _ r _ _ _ hr', hr'', hnf,
    Option.map_map, bind_some, hacs]
  rfl

end

section

variable {W : Type} [Kernel W] (unitName : String) (m : Manager W) (datagram : Int × NotifyMessage)

/-- One turn of the loop of `apply_notify_events`, for a datagram of the given unit. -/
def applyDatagram : Manager W :=
  m.applyNotifyEvent ⟨unitName, datagram.1, datagram.2⟩

private theorem applyNotifyEvents_eq_run (m : Manager W) (n : NotifyState) (unitName : String)
    (datagrams : List (Int × NotifyMessage)) (hn : m.notify = some n)
    (hpn : n.pending = datagrams.map (fun d => ⟨unitName, d.1, d.2⟩)) :
    m.applyNotifyEvents =
      run (applyDatagram unitName) (m.onNotify (·.drainEvents.2)) datagrams := by
  simp only [applyNotifyEvents, hn, map_some, getD_some, hpn, foldl_map]
  rfl

/-- The other units are as before, and so are the registrations by which their datagrams are
attributed to them. -/
structure Isolated (unitName : String) (m m' : Manager W) : Prop where
  spares : Spares unitName m m'
  server : m'.notify.isSome = m.notify.isSome
  registrations : ∀ n n', m.notify = some n → m'.notify = some n' → n.SameOthers n' unitName
  attributed : ∀ (w : W) n n' (pid : Int) (registration : Registration), m.notify = some n →
    m'.notify = some n' → n.registrations[pid]? = some registration →
      registration.unitName ≠ unitName → authorizedUnit w n' pid = some registration.unitName

/-- The message names no process of another unit. -/
def KeepsOthers : Prop :=
  ∀ r n, m.units[unitName]? = some r → m.notify = some n →
    OwnPids n unitName r datagram.2 (m.messageGivesUp unitName r datagram.2)

variable {unitName : String} {m m' m'' : Manager W}

private theorem Isolated.of_sameOthers (hspr : Spares unitName m m')
    (h : m'.notify.isSome = m.notify.isSome)
    (hsa : ∀ n n', m.notify = some n → m'.notify = some n' → n.SameOthers n' unitName) :
    Isolated unitName m m' := by
  refine ⟨hspr, h, hsa, ?_⟩
  intro w n n' pid reg hn hn' hrg hother
  exact authorizedUnit_of_registered w n' pid reg ((hsa n n' hn hn' pid reg hother).mpr hrg)

theorem Isolated.refl (m : Manager W) : Isolated unitName m m := by
  refine .of_sameOthers (Spares.refl m) rfl ?_
  intro n n' hn hn'
  cases hn.symm.trans hn'
  exact NotifyState.SameOthers.refl n unitName

private theorem Isolated.symm_trans (h : Isolated unitName m m') (h' : Isolated unitName m m'') :
    Isolated unitName m' m'' := by
  refine .of_sameOthers (h.spares.symm.trans h'.spares) (h'.server.trans h.server.symm) ?_
  intro n' n'' hn' hn''
  have hsome : m.notify.isSome = true := by rw [← h.server, hn', isSome_some]
  obtain ⟨n, hn⟩ := isSome_iff_exists.mp hsome
  exact (h.registrations n n' hn hn').symm.trans (h'.registrations n n'' hn hn'')

private theorem isolated_applyDatagram_iff (datagram : Int × NotifyMessage)
    (h : Isolated unitName m m') :
    Isolated unitName m (applyDatagram unitName m' datagram) ↔
      KeepsOthers unitName m' datagram := by
  have hspr := h.spares.trans (Spares.applyNotifyEvent m' ⟨unitName, datagram.1, datagram.2⟩)
  cases hr : m'.units[unitName]? with
  | none =>
    have hnf : (applyDatagram unitName m' datagram).notify = m'.notify := by
      simp [applyDatagram, applyNotifyEvent, hr]
    constructor
    · intro _ r n hr'
      cases hr.symm.trans hr'
    intro _
    refine .of_sameOthers hspr (by rw [hnf, h.server]) ?_
    intro n n' hn hn'
    exact h.registrations n n' hn (hnf.symm.trans hn')
  | some r =>
    have hnf := notify_applyNotifyEvent m' ⟨unitName, datagram.1, datagram.2⟩ r hr
    constructor
    · intro hnx r' n' hr' hn'
      cases hr.symm.trans hr'
      have hsome : m.notify.isSome = true := by rw [← h.server, hn', isSome_some]
      obtain ⟨n, hn⟩ := isSome_iff_exists.mp hsome
      rw [hn', map_some] at hnf
      rw [← sameOthers_notifyEffect_iff]
      exact (h.registrations n n' hn hn').symm.trans (hnx.registrations n _ hn hnf)
    · intro hke
      refine .of_sameOthers hspr ?_ ?_
      · rw [applyDatagram, hnf, isSome_map, h.server]
      intro n n'' hn hn''
      rw [applyDatagram, hnf] at hn''
      obtain ⟨n', hn', rfl⟩ := map_eq_some_iff.mp hn''
      exact (h.registrations n n' hn hn').trans
        ((sameOthers_notifyEffect_iff ..).mpr (hke r n' hr hn'))

/-- A batch of datagrams of one unit leaves the others alone, after each of its datagrams,
exactly when no datagram touches a registration of another unit. -/
theorem isolated_run_iff (unitName : String) (m : Manager W)
    (datagrams : List (Int × NotifyMessage)) :
    (∀ d, d <+: datagrams → Isolated unitName m (run (applyDatagram unitName) m d)) ↔
      AllSteps (applyDatagram unitName) (KeepsOthers unitName) m datagrams :=
  forall_run_iff_allSteps (I := fun _ => True) (P := Isolated unitName m) (D := fun _ => True)
    (fun _ _ _ _ _ _ => trivial) (fun _ datagram _ _ h => isolated_applyDatagram_iff datagram h) m
    datagrams (fun _ _ => trivial) trivial (Isolated.refl m)

/-- `apply_notify_events` leaves the other units alone where every pending datagram is of one unit
and keeps to it. -/
theorem isolated_applyNotifyEvents (m : Manager W) (n : NotifyState) (unitName : String)
    (ds : List (Int × NotifyMessage)) (hn : m.notify = some n)
    (hpn : n.pending = ds.map (fun d => ⟨unitName, d.1, d.2⟩))
    (hste : AllSteps (applyDatagram unitName) (KeepsOthers unitName)
      (m.onNotify (·.drainEvents.2)) ds) : Isolated unitName m m.applyNotifyEvents := by
  have hdr : Isolated unitName (m.onNotify (·.drainEvents.2)) m := by
    refine .of_sameOthers (Spares.onNotify m _).symm (by simp [onNotify]) ?_
    intro n₁ n₂ hn₁ hn₂
    simp only [onNotify, hn₂, map_some, Option.some.injEq] at hn₁
    rw [← hn₁]
    exact NotifyState.SameOthers.refl n₂ unitName
  rw [applyNotifyEvents_eq_run m n unitName ds hn hpn]
  exact hdr.symm_trans ((isolated_run_iff unitName _ ds).mpr hste ds (prefix_refl ds))

/-- Batches of datagrams of one unit that touch no registration of another one leave the
others alone, and so any two of them agree on the others. -/
theorem notifications_isolated_iff (unitName : String) (m : Manager W)
    (datagrams datagrams' : List (Int × NotifyMessage)) :
    ((∀ done, done <+: datagrams → Isolated unitName m (run (applyDatagram unitName) m done)) ↔
        AllSteps (applyDatagram unitName) (KeepsOthers unitName) m datagrams) ∧
      (AllSteps (applyDatagram unitName) (KeepsOthers unitName) m datagrams →
        AllSteps (applyDatagram unitName) (KeepsOthers unitName) m datagrams' →
          Isolated unitName (run (applyDatagram unitName) m datagrams)
            (run (applyDatagram unitName) m datagrams')) := by
  refine ⟨isolated_run_iff unitName m datagrams, ?_⟩
  intro hste hste'
  have h := (isolated_run_iff unitName m datagrams).mpr hste datagrams (prefix_refl _)
  have h' := (isolated_run_iff unitName m datagrams').mpr hste' datagrams' (prefix_refl _)
  exact h.symm_trans h'

def twoRunning : Manager Script :=
  { world := {}
    units := ((∅ : Std.ExtTreeMap String UnitRecord).insert "a.service"
      { loaded := .service {} { serviceType := .notify }, state := .active, activePid := some 10 }
      ).insert "b.service"
      { loaded := .service {} { serviceType := .notify }, state := .active, activePid := some 20 }
    notify := some ((({} : NotifyState).registerPid 10 "a.service" .main).registerPid 20
      "b.service" .main) }

/-- `MAINPID=20` of the one service takes the datagrams of the other one's main process. -/
theorem mainPid_of_another_unit_not_isolated :
    let m := twoRunning
    let m' := applyDatagram "a.service" m (10, { mainPid := some 20 })
    m.notify.bind (fun n => authorizedUnit m.world n 20) = some "b.service" ∧
      m'.notify.bind (fun n => authorizedUnit m'.world n 20) = some "a.service" ∧
        ¬ Isolated "a.service" m m' := by
  refine ⟨by decide, by decide, ?_⟩
  intro h
  have hke := (isolated_applyDatagram_iff (10, { mainPid := some 20 })
    (Isolated.refl twoRunning)).mp h
  have hpi := hke _ _ (by rfl) (by rfl)
  have hnew := (hpi.replaced 10 20 (by decide) ⟨"a.service", .main, 10⟩ (by decide)).2
  exact hnew ⟨⟨"b.service", .main, 20⟩, by decide, by decide⟩

end
end Rustd.Manager
