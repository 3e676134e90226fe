import Rustd.Manager.State

/-!
# Handoff of the manager state to a new manager image

Embedding of `src/reexec_state.rs`: what of a manager may be saved before it executes itself
again, and how a fresh manager takes it over. The state file holds the value that was written to
it, so that reading it back gives the same value.
-/

namespace Rustd.Manager

open Jobs Service UnitFile List Option Std.ExtTreeMap
open DynamicUsers (DynamicUser dynamicUidMin dynamicUidMax lockName)

/-- `REEXEC_STATE_VERSION` of `src/reexec_state.rs:17`. -/
def reexecStateVersion : Nat := 2

/-- The saved part of a unit record. -/
structure ReexecUnitState where
  name : String
  state : UnitState
  activePid : Option Int
  controlPid : Option Int
  stopRequested : Bool
  restartCount : Nat
  lastStartNs : Int
  startLimitWindowNs : Int
  startLimitCount : Nat
  dynamicUid : Option Nat
  statusText : Option String
  statusErrno : Option Int
  watchdogTimestampNs : Option Int
  watchdogTimestampRealtimeNs : Option Int
  execMainStartRealtimeNs : Option Int
  execMainStartMonotonicNs : Option Int
  execMainExitRealtimeNs : Option Int
  execMainExitMonotonicNs : Option Int
  watchdogTriggered : Bool
  serviceResult : ServiceResult
  execMainCode : Int
  execMainStatus : Int
  invocationId : Option Nat
  deriving DecidableEq

/-- `ReexecState` of `src/reexec_state.rs:20`. -/
structure ReexecState where
  version : Nat
  scope : String
  units : List ReexecUnitState
  deriving DecidableEq

/-- `scope_name` of `src/reexec_state.rs:325`. -/
def scopeName (config : Config) : String := if config.systemScope then "system" else "user"

/-- `unit_kind` of `src/reexec_state.rs:359`. -/
def unitKind : LoadedUnit → String
  | .service .. => "service"
  | .socket .. => "socket"
  | .automount .. => "automount"
  | .timer .. => "timer"
  | .path .. => "path"
  | .mount .. => "mount"
  | .swap .. => "swap"
  | .target .. => "target"
  | .slice .. => "slice"
  | .scope .. => "scope"

inductive Unsupported where
  | eventSource
  | cgroupSource
  deriving DecidableEq

/-- The test that saving and restoring make for units that are up or have failed. -/
def unsupported (state : UnitState) (loaded : LoadedUnit) : Option Unsupported :=
  if state = .active ∨ state = .failed then
    match loaded with
    | .socket .. | .path .. | .timer .. | .automount .. => some .eventSource
    | .service _ s =>
      if s.serviceType = .forking ∨ s.exitType = .cgroup then some .cgroupSource else none
    | _ => none
  else none

variable (name : String) (r : UnitRecord)

/-- Why a unit keeps the manager from being saved, other than its restart history. -/
def blocksHandoff : Option String :=
  if r.state = .activating ∨ r.state = .deactivating then
    some s!"unit '{name}' is transitional during reexec handoff"
  else if r.idleGateFd.isSome then some s!"unit '{name}' still owns an idle execution gate"
  else match unsupported r.state r.loaded with
    | some .eventSource =>
      some s!"active {unitKind r.loaded} requires event-source adoption that is not yet supported by the reexec handoff: {name}"
    | some .cgroupSource =>
      some s!"service '{name}' requires cgroup-source adoption that is not yet supported by the reexec handoff"
    | none =>
      if r.controlPid.isSome then
        some s!"unit '{name}' has a live control process during reexec handoff"
      else none

/-- An inactive unit that was restarted since its failures were last forgotten. -/
def hasRestartHistory : Bool := r.state == .inactive && 0 < r.restartCount

/-- Why a unit keeps the manager from being saved. -/
def handoffRefusal : Option String :=
  (blocksHandoff name r).or
    (if hasRestartHistory r then
      some s!"inactive unit '{name}' has restart history; refusing to lose a possible pending restart timer"
    else none)

/-- `ReexecUnitState` of `src/reexec_state.rs:27`. -/
def reexecUnitState : ReexecUnitState :=
  { name
    state := r.state
    activePid := r.activePid
    controlPid := r.controlPid
    stopRequested := r.stopRequested
    restartCount := r.restartCount
    lastStartNs := r.lastStartNs
    startLimitWindowNs := r.startLimitWindowNs
    startLimitCount := r.startLimitCount
    dynamicUid := r.dynamicUser.map DynamicUser.uid
    statusText := r.statusText
    statusErrno := r.statusErrno
    watchdogTimestampNs := r.watchdogTimestampNs
    watchdogTimestampRealtimeNs := r.watchdogTimestampRealtimeNs
    execMainStartRealtimeNs := r.execMainStartRealtimeNs
    execMainStartMonotonicNs := r.execMainStartMonotonicNs
    execMainExitRealtimeNs := r.execMainExitRealtimeNs
    execMainExitMonotonicNs := r.execMainExitMonotonicNs
    watchdogTriggered := r.watchdogTriggered
    serviceResult := r.serviceResult
    execMainCode := r.execMainCode
    execMainStatus := r.execMainStatus
    invocationId := r.invocationId }

/-- Part of `write_state`, `src/reexec_state.rs:269`. -/
structure StateFile where
  regular : Bool
  uid : Nat
  mode : Nat
  state : ReexecState
  deriving DecidableEq

structure LockMetadata where
  regular : Bool
  mode : Nat
  deriving DecidableEq

/-- Outcome of `kill(pid, 0)`. -/
inductive Probe where
  | delivered
  | notPermitted
  | failed
  deriving DecidableEq

/-- What saving and restoring find in the system: the user they run as, failures of file
operations, processes and dynamic-user locks. -/
structure HandoffSystem where
  euid : Nat := 0
  writeError : Option String := none
  removeError : Option String := none
  probe : Int → Probe := fun _ => .delivered
  locks : String → Option LockMetadata := fun _ => none

/-- The permission bits `0o077` of a mode are clear. -/
def ownerOnly (mode : Nat) : Bool := mode &&& 0o077 == 0

variable (system : HandoffSystem)

/-- `pid_is_alive` of `src/reexec_state.rs:332`. -/
def pidIsAlive (pid : Int) : Bool :=
  0 < pid && system.probe pid != .failed

/-- `DynamicUser::adopt`. -/
def adoptUser (service : String) (uid : Nat) : Except String DynamicUser :=
  if uid < dynamicUidMin ∨ dynamicUidMax < uid then
    .error s!"dynamic UID {uid} is outside the allocation range"
  else match system.locks (lockName uid service) with
    | none => .error "lock file cannot be inspected"
    | some metadata =>
      if !metadata.regular then
        .error s!"dynamic-user lock is not a regular file: {lockName uid service}"
      else if !ownerOnly metadata.mode then
        .error s!"dynamic-user lock is group/world accessible: {lockName uid service}"
      else .ok ⟨uid, service⟩

/-- The file is written with owner-only permissions. -/
def writeState (state : ReexecState) : Except String StateFile :=
  match system.writeError with
  | some error => .error error
  | none => .ok ⟨true, system.euid, 0o600, state⟩

/-- `read_state` of `src/reexec_state.rs:302`. -/
def readState (file : StateFile) : Except String ReexecState :=
  if !file.regular then .error "reexec state is not a regular file"
  else if file.uid ≠ system.euid then .error "reexec state has unexpected owner"
  else if !ownerOnly file.mode then .error "reexec state is group/world accessible"
  else if file.state.version ≠ reexecStateVersion then
    .error s!"unsupported reexec state version {file.state.version} (expected {reexecStateVersion})"
  else .ok file.state

/-- The record of a unit after its saved state was taken over. -/
def takeOver (saved : ReexecUnitState) (user : Option DynamicUser) : UnitRecord :=
  { r with
    state := saved.state
    activePid := saved.activePid
    controlPid := saved.controlPid
    stopRequested := saved.stopRequested
    restartCount := saved.restartCount
    lastStartNs := saved.lastStartNs
    startLimitWindowNs := saved.startLimitWindowNs
    startLimitCount := saved.startLimitCount
    dynamicUser := user
    statusText := saved.statusText
    statusErrno := saved.statusErrno
    watchdogTimestampNs := saved.watchdogTimestampNs
    watchdogTimestampRealtimeNs := saved.watchdogTimestampRealtimeNs
    execMainStartRealtimeNs := saved.execMainStartRealtimeNs
    execMainStartMonotonicNs := saved.execMainStartMonotonicNs
    execMainExitRealtimeNs := saved.execMainExitRealtimeNs
    execMainExitMonotonicNs := saved.execMainExitMonotonicNs
    watchdogTriggered := saved.watchdogTriggered
    serviceResult := saved.serviceResult
    execMainCode := saved.execMainCode
    execMainStatus := saved.execMainStatus
    invocationId := saved.invocationId }

/-- The dynamic user a saved unit had. -/
def adoptSaved (saved : ReexecUnitState) : Except String (Option DynamicUser) :=
  match saved.dynamicUid with
  | none => .ok none
  | some uid => (adoptUser system saved.name uid).map some

variable {W : Type} [Kernel W] (system : HandoffSystem) (m : Manager W)

/-- What the units of the manager leave to a new image, or why they do not. -/
def handoffState : Except String ReexecState :=
  if !m.jobRegistry.isEmpty || !m.jobQueue.isEmpty m.jobRegistry then
    .error "manager has live jobs; refusing reexec state handoff"
  else match m.unitNames.findSome? (fun name => m.units[name]?.bind (handoffRefusal name)) with
    | some error => .error error
    | none => .ok
      { version := reexecStateVersion
        scope := scopeName m.config
        units := (m.unitNames.filterMap (fun name =>
          m.units[name]?.map (reexecUnitState name))).insertionSort
            (fun a b => a.name ≤ b.name) }

/-- `save_manager_state` of `src/reexec_state.rs:74`. -/
def saveManagerState : Except String StateFile :=
  m.handoffState.bind (writeState system)

/-- Take over one unit. -/
def restoreUnit (saved : ReexecUnitState) : Except String (Manager W) :=
  match (m.loadUnit saved.name).1 with
  | .error error => .error error
  | .ok () =>
    let m := (m.loadUnit saved.name).2
    match m.units[saved.name]? with
    | none => .error s!"restored unit '{saved.name}' disappeared"
    | some r =>
      match ([saved.activePid, saved.controlPid].filterMap id).find?
          (!pidIsAlive system ·) with
      | some pid => .error s!"unit '{saved.name}' references dead pid {pid} in reexec state"
      | none =>
        match unsupported saved.state r.loaded with
        | some .eventSource =>
          .error s!"reexec state contains unsupported active {unitKind r.loaded}: {saved.name}"
        | some .cgroupSource =>
          .error s!"reexec state contains service requiring unsupported cgroup adoption: {saved.name}"
        | none =>
          (adoptSaved system saved).map (fun user =>
            { m with units := m.units.insert saved.name (takeOver r saved user) })

/-- Register the main processes that were taken over. -/
def registerRestored : Manager W :=
  m.onNotify (fun n => m.unitNames.foldl (fun n name =>
    match m.units[name]? with
    | none => n
    | some r =>
      match r.activePid, r.notifyAccess with
      | some pid, some access => n.registerPid pid name access
      | _, _ => n) n)

/-- `restore_manager_state` of `src/reexec_state.rs:167`. -/
def restoreManagerState (file : StateFile) : Except String (Manager W) :=
  (readState system file).bind (fun state =>
    if state.scope ≠ scopeName m.config then
      .error s!"reexec state scope '{state.scope}' does not match manager scope '{scopeName m.config}'"
    else if !m.units.isEmpty || !m.jobRegistry.isEmpty then
      .error "reexec restore requires a fresh manager registry"
    else
      (state.units.foldlM (restoreUnit system) m).bind (fun m =>
        match system.removeError with
        | some error => .error error
        | none => .ok m.registerRestored))

section

/-- The order in which the table is walked does not show in what is saved: units are sorted by
name. -/
theorem savedUnits_eq (m : Manager W) :
    (m.unitNames.filterMap (fun name => m.units[name]?.map (reexecUnitState name))).insertionSort
        (fun a b => a.name ≤ b.name) =
      m.units.toList.map (fun p => reexecUnitState p.1 p.2) := by
  have hfn : ∀ p ∈ m.units.toList, m.units[p.1]? = some p.2 := fun p hp =>
    mem_toList_iff_getElem?_eq_some.mp hp
  have hke : m.units.keys.filterMap (fun name => m.units[name]?.map (reexecUnitState name)) =
      m.units.toList.map (fun p => reexecUnitState p.1 p.2) := by
    rw [← map_fst_toList_eq_keys, filterMap_map, ← filterMap_eq_map]
    apply filterMap_congr
    intro p hp
    simp only [Function.comp, hfn p hp, map_some]
  have hpe := (perm_insertionSort (fun a b : ReexecUnitState => a.name ≤ b.name)
    (m.unitNames.filterMap (fun name => m.units[name]?.map (reexecUnitState name)))).trans
      ((perm_insertionSort _ m.units.keys).filterMap _)
  rw [hke] at hpe
  have han : ∀ a b : ReexecUnitState,
      a ∈ (m.unitNames.filterMap (fun name =>
        m.units[name]?.map (reexecUnitState name))).insertionSort (fun a b => a.name ≤ b.name) →
      b ∈ m.units.toList.map (fun p => reexecUnitState p.1 p.2) →
      a.name ≤ b.name → b.name ≤ a.name → a = b := by
    intro a b ha hb hab hba
    obtain ⟨p, hp, rfl⟩ := List.mem_map.mp (hpe.subset ha)
    obtain ⟨q, hq, rfl⟩ := List.mem_map.mp hb
    have hname : p.1 = q.1 := String.le_antisymm hab hba
    have hrecord : p.2 = q.2 := some.inj ((hfn p hp).symm.trans (hname ▸ hfn q hq))
    rw [hname, hrecord]
  refine List.Perm.eq_of_pairwise han ?_ ?_ hpe
  · have hto : Std.Total (fun a b : ReexecUnitState => a.name ≤ b.name) :=
      ⟨fun a b => String.le_total a.name b.name⟩
    have htr : IsTrans ReexecUnitState (fun a b => a.name ≤ b.name) :=
      ⟨fun _ _ _ hab hbc => String.le_trans hab hbc⟩
    exact pairwise_insertionSort _ _
  · refine pairwise_map.mpr (ordered_keys_toList.imp ?_)
    intro p q h
    have hlt : p.1 < q.1 := compareOfLessAndEq_eq_lt.mp h
    exact String.not_lt.mp (String.lt_asymm hlt)

theorem handoffState_eq_ok_iff (m : Manager W) (st : ReexecState) :
    m.handoffState = .ok st ↔ m.jobRegistry.isEmpty = true ∧
      m.jobQueue.isEmpty m.jobRegistry = true ∧
      (∀ name r, m.units[name]? = some r → handoffRefusal name r = none) ∧
      st = ⟨reexecStateVersion, scopeName m.config,
        m.units.toList.map (fun p => reexecUnitState p.1 p.2)⟩ := by
  have hnn : m.unitNames.findSome? (fun name => m.units[name]?.bind (handoffRefusal name)) =
      none ↔ ∀ name r, m.units[name]? = some r → handoffRefusal name r = none := by
    rw [findSome?_eq_none_iff]
    constructor
    · intro h name r hr
      simpa [hr] using h name ((mem_unitNames m name).mpr ⟨r, hr⟩)
    intro h name hname
    obtain ⟨r, hr⟩ := (mem_unitNames m name).mp hname
    rw [hr, bind_some, h name r hr]
  unfold handoffState
  rw [savedUnits_eq]
  cases hrgs : m.jobRegistry.isEmpty with
  | false => simp
  | true =>
    cases hqu : m.jobQueue.isEmpty m.jobRegistry with
    | false => simp
    | true =>
      cases hrf : m.unitNames.findSome? (fun name => m.units[name]?.bind (handoffRefusal name)) with
      | some e =>
        have hsome : ¬∀ name r, m.units[name]? = some r → handoffRefusal name r = none := by
          rw [← hnn, hrf]
          simp
        simp [hsome]
      | none =>
        simp only [Bool.not_true, Bool.or_self, Bool.false_eq_true, if_false, Except.ok.injEq,
          true_and]
        exact ⟨fun h => ⟨fun name r hr => hnn.mp hrf name r hr, h.symm⟩, fun h => h.2.symm⟩

end

section

/-- The unit files are as they were loaded. -/
def SameUnitFiles : W → List (String × UnitRecord) → Prop
  | _, [] => True
  | w, (name, r) :: rest => (Kernel.loadUnit w name).1 = .ok r.loaded ∧
      SameUnitFiles (Kernel.loadUnit w name).2 rest

/-- The lock of a dynamic user is still there. -/
def LockPresent (system : HandoffSystem) (service : String) (uid : Nat) : Prop :=
  dynamicUidMin ≤ uid ∧ uid ≤ dynamicUidMax ∧ ∃ metadata,
    system.locks (lockName uid service) = some metadata ∧ metadata.regular = true ∧
      ownerOnly metadata.mode = true

structure Restorable (system : HandoffSystem) (name : String) (r : UnitRecord) : Prop where
  accepted : handoffRefusal name r = none
  alive : ∀ pid, r.activePid = some pid → pidIsAlive system pid = true
  locked : ∀ user, r.dynamicUser = some user → LockPresent system name user.uid

def restored (name : String) (r : UnitRecord) : UnitRecord :=
  { r with dynamicUser := r.dynamicUser.map (⟨·.uid, name⟩) }

private theorem reexecUnitState_restored (name : String) (r : UnitRecord) :
    reexecUnitState name (restored name r) = reexecUnitState name r := by
  simp only [reexecUnitState, restored, Option.map_map, Function.comp_def]

private theorem handoffRefusal_restored (name : String) (r : UnitRecord) :
    handoffRefusal name (restored name r) = handoffRefusal name r := rfl

variable {name : String} {r : UnitRecord} {system : HandoffSystem}

private theorem of_handoffRefusal_none (h : handoffRefusal name r = none) :
    r.idleGateFd = none ∧ r.controlPid = none ∧ unsupported r.state r.loaded = none := by
  have hbk : blocksHandoff name r = none := (or_eq_none_iff.mp h).1
  unfold blocksHandoff at hbk
  split at hbk
  · cases hbk
  split at hbk
  · cases hbk
  next hga =>
  split at hbk
  · cases hbk
  · cases hbk
  rename_i hsu
  split at hbk
  · cases hbk
  · next hco =>
    exact ⟨by simpa using hga, by simpa using hco, hsu⟩

private theorem adoptUser_of_lockPresent {uid : Nat}
    (h : LockPresent system s uid) : adoptUser system s uid = .ok ⟨uid, s⟩ := by
  obtain ⟨hmin, hmax, me, hlo, hr, hmd⟩ := h
  have hra : ¬(uid < dynamicUidMin ∨ dynamicUidMax < uid) := by omega
  simp only [adoptUser, if_neg hra, hlo, hr, hmd, Bool.not_true, Bool.false_eq_true, if_false]

private theorem adoptSaved_eq (h : Restorable system name r) :
    adoptSaved system (reexecUnitState name r) = .ok (restored name r).dynamicUser := by
  cases husr : r.dynamicUser with
  | none => simp [adoptSaved, reexecUnitState, restored, husr]
  | some us =>
    simp only [adoptSaved, reexecUnitState, restored, husr, map_some,
      adoptUser_of_lockPresent (h.locked us husr), Except.map]

private theorem restoreUnit_eq {m : Manager W} (h : Restorable system name r)
    (hfh : m.units[name]? = none) (hfil : (Kernel.loadUnit m.world name).1 = .ok r.loaded) :
    restoreUnit system m (reexecUnitState name r) = .ok
      { m with
        world := (Kernel.loadUnit m.world name).2
        units := m.units.insert name (restored name r) } := by
  obtain ⟨hga, hco, hs⟩ := of_handoffRefusal_none h.accepted
  have hlo : m.loadUnit name = (.ok (),
      { m with
        world := (Kernel.loadUnit m.world name).2
        units := m.units.insert name { loaded := r.loaded } }) := by
    have hct : m.units.contains name = false := by
      rw [← isSome_getElem?_eq_contains, hfh, isSome_none]
    simp only [loadUnit, hct, Bool.false_eq_true, if_false, ask, hfil]
  have hal : ([r.activePid, r.controlPid].filterMap id).find?
      (!pidIsAlive system ·) = none := by
    rw [hco]
    cases hav : r.activePid with
    | none => rfl
    | some pid => simp [h.alive pid hav]
  have hin : (m.units.insert name { loaded := r.loaded }).insert name
      (restored name r) = m.units.insert name (restored name r) := by
    apply Std.ExtTreeMap.ext_getElem?
    intro k
    simp only [Std.ExtTreeMap.getElem?_insert]
    split <;> rfl
  have htk : takeOver { loaded := r.loaded } (reexecUnitState name r)
      (restored name r).dynamicUser = restored name r := by
    simp only [takeOver, reexecUnitState, restored]
    rw [hga]
  have hname : (reexecUnitState name r).name = name := rfl
  simp only [restoreUnit, hname, hlo, getElem?_insert_self]
  rw [show (reexecUnitState name r).activePid = r.activePid from rfl,
    show (reexecUnitState name r).controlPid = r.controlPid from rfl,
    show (reexecUnitState name r).state = r.state from rfl, hal, hs, adoptSaved_eq h]
  simp only [Except.map, htk, hin]

private theorem restoreUnits_eq (l : List (String × UnitRecord)) (m : Manager W)
    (hr : ∀ p ∈ l, Restorable system p.1 p.2) (hfh : ∀ p ∈ l, m.units[p.1]? = none)
    (hnp : (l.map Prod.fst).Nodup) (hfi : SameUnitFiles m.world l) :
    ∃ m', (l.map (fun p => reexecUnitState p.1 p.2)).foldlM (restoreUnit system) m = .ok m' ∧
      (∀ p ∈ l, m'.units[p.1]? = some (restored p.1 p.2)) ∧
      (∀ name, name ∉ l.map Prod.fst → m'.units[name]? = m.units[name]?) ∧
      m'.config = m.config ∧ m'.jobRegistry = m.jobRegistry ∧ m'.jobQueue = m.jobQueue := by
  induction l generalizing m with
  | nil => exact ⟨m, rfl, by simp, by simp, rfl, rfl, rfl⟩
  | cons p l ih =>
    obtain ⟨name, r⟩ := p
    obtain ⟨hother, hnp⟩ := nodup_cons.mp hnp
    have hsp := restoreUnit_eq (hr (name, r) mem_cons_self) (hfh (name, r) mem_cons_self) hfi.1
    have hkp : ∀ v, v ≠ name →
        (m.units.insert name (restored name r))[v]? = m.units[v]? := by
      intro v hne
      rw [Std.ExtTreeMap.getElem?_insert, if_neg (by simpa using hne.symm)]
    obtain ⟨m', hm', hin, hout, hc, hrgs, hqu⟩ := ih
      { m with
        world := (Kernel.loadUnit m.world name).2
        units := m.units.insert name (restored name r) }
      (fun p hp => hr p (mem_cons_of_mem _ hp))
      (fun p hp => by
        have hne : p.1 ≠ name := fun heq => hother (heq ▸ List.mem_map.mpr ⟨p, hp, rfl⟩)
        rw [hkp p.1 hne]
        exact hfh p (mem_cons_of_mem _ hp))
      hnp hfi.2
    refine ⟨m', ?_, ?_, ?_, hc, hrgs, hqu⟩
    · rw [map_cons, foldlM_cons, hsp]
      exact hm'
    · intro p hp
      rcases mem_cons.mp hp with rfl | hp
      · rw [hout name hother, getElem?_insert_self]
      · exact hin p hp
    intro v hnot
    obtain ⟨hne, hnot⟩ := not_or.mp (fun h => hnot (mem_cons.mpr h))
    rw [hout v hnot]
    exact hkp v hne

end

end Rustd.Manager
