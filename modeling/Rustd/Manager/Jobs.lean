import Rustd.Manager.Services

/-!
# Jobs

Embedding of `run_job` for every unit type, of restarts and isolation with the dependency resolver
of `src/deps.rs`, and of the jobs' completion.
-/

namespace Rustd.Manager

open Base Service UnitFile Jobs List Option Std.ExtTreeMap

variable {W : Type}

def setState (m : Manager W) (name : String) (state : UnitState) : Manager W :=
  m.update name (fun r => { r with state := state })

variable (m : Manager W) (name : String) (state st : UnitState)

theorem getElem?_setState {name : String} (hr : m.units[name]? = some r) :
    (m.setState name st).units[name]? = some { r with state := st } := by
  rw [setState, getElem?_update, if_pos rfl, hr]
  rfl

theorem getElem?_setState_of_ne {name other : String} (h : other ≠ name) :
    (m.setState name st).units[other]? = m.units[other]? := by
  rw [setState, getElem?_update, if_neg (Ne.symm h)]

@[simp] theorem world_setState : (m.setState name st).world = m.world := by
  cases h : m.units[name]? <;> simp [setState, update, h]

@[simp] theorem pathSources_setState : (m.setState name st).pathSources = m.pathSources := by
  cases h : m.units[name]? <;> simp [setState, update, h]

def triggeredUnit (name explicitUnit suffix fallback : String) : String :=
  if explicitUnit ≠ "" then explicitUnit
  else match stripSuffix name suffix with
    | some stem => stem ++ ".service"
    | none => name ++ fallback

/-- `duration.as_nanos() as i64`. -/
def truncateI64 (nanos : Nat) : Int :=
  let low : Nat := nanos % 2 ^ 64
  if low < 2 ^ 63 then (low : Int) else (low : Int) - 2 ^ 64

/-- The delays a timer unit arms. -/
def triggerDelays (t : TimerSection) : List Nat :=
  ([t.onBootSec, t.onActiveSec, t.onUnitActiveSec, t.onUnitInactiveSec].filterMap id).filterMap
    (fun delay => if truncateI64 delay ≤ 0 then none else some (truncateI64 delay).toNat)

variable [Kernel W]

/-- Arm the timers of a timer unit up to the first that fails. -/
def armTriggers (name target : String) : List Nat → W → Except String Unit × W
  | [], w => (.ok (), w)
  | delay :: rest, w =>
    let armed := Kernel.addTrigger w name target delay
    match armed.1 with
    | .error error => (.error error, armed.2)
    | .ok _ => armTriggers name target rest armed.2

def finishAttempt (attempt : Except String Unit × Manager W) (name : String) (state : UnitState) :
    Except String Unit × Manager W :=
  match attempt.1 with
  | .error error => (.error error, attempt.2)
  | .ok () => (.ok (), attempt.2.setState name state)

/-- `activate_socket` on an inactive or failed unit. -/
def startSocket (m : Manager W) (name : String) (r : UnitRecord) : Except String Unit × Manager W :=
  if r.state = .inactive ∨ r.state = .failed then
    let opened := m.ask (Kernel.openSocket · name)
    let held := opened.2.socketRecords.getD name {}
    match opened.1 with
    | .error error =>
      (.error error, { opened.2 with socketRecords := opened.2.socketRecords.insert name held })
    | .ok (listenFds, sourceIds) =>
      let m := { opened.2 with
        socketRecords := opened.2.socketRecords.insert name ⟨listenFds, sourceIds⟩ }
      (.ok (), m.setState name .active)
  else (.ok (), m)

/-- `activate_path`. -/
def startPath (m : Manager W) (name : String) (p : PathSection) : Except String Unit × Manager W :=
  if p.watches = [] then (.error "path unit has no Path*= watches", m)
  else
    let watched := m.ask (Kernel.watchPaths · name)
    match watched.1 with
    | .error error => (.error error, watched.2)
    | .ok (source, conditionMet) =>
      let m := { watched.2 with pathSources := watched.2.pathSources.insert name source }
      let m := if conditionMet then
          match m.sharedQueue.enqueue m.jobRegistry .start
              (triggeredUnit name p.unit ".path" ".service") with
          | some (_, queue, registry) => { m with sharedQueue := queue, jobRegistry := registry }
          | none => m
        else m
      (.ok (), m.setState name .active)

/-- A start job of a unit that is no service. -/
def startOther (m : Manager W) (name : String) (r : UnitRecord) : Except String Unit × Manager W :=
  match r.loaded with
  | .service _ _ => (.ok (), m)
  | .socket _ _ => m.startSocket name r
  | .target _ => (.ok (), m.setState name .activating)
  | .timer _ t => finishAttempt
      (m.ask (armTriggers name (triggeredUnit name t.unit ".timer" "") (triggerDelays t))) name
        .active
  | .mount _ => finishAttempt (m.ask (Kernel.mount · name)) name .active
  | .swap _ => finishAttempt (m.ask (Kernel.swapOn · name)) name .active
  | .path _ p => m.startPath name p
  | .automount _ => (.error s!"automount unit '{name}' cannot start without an autofs mount", m)
  | .slice _ | .scope _ => (.ok (), m.setState name .active)

/-- A stop job of a unit that is no service. -/
def stopOther (m : Manager W) (name : String) (r : UnitRecord) : Except String Unit × Manager W :=
  match r.loaded with
  | .socket _ _ =>
    if m.socketRecords.contains name then
      let m := m.tell (Kernel.closeSocket · name)
      let m := { m with socketRecords := m.socketRecords.insert name {} }
      (.ok (), m.setState name .inactive)
    else (.ok (), m.setState name .inactive)
  | .mount _ => finishAttempt (m.ask (Kernel.unmount · name)) name .inactive
  | .swap _ => finishAttempt (m.ask (Kernel.swapOff · name)) name .inactive
  | .path _ _ => match m.pathSources[name]? with
    | some source =>
      let m := { m with pathSources := m.pathSources.erase name }
      finishAttempt (m.ask (Kernel.removeInotify · source)) name .inactive
    | none => (.ok (), m.setState name .inactive)
  | _ => (.ok (), m.setState name .inactive)

/-- A start, stop or reload job. -/
def runUnitJob (m : Manager W) (kind : JobKind) (name : String) : Except String Unit × Manager W :=
  match m.units[name]? with
  | none => (.error s!"unit '{name}' not in registry", m)
  | some r => match r.loaded.service? with
    | some s => m.runServiceJob kind name r s
    | none => match kind with
      | .start => m.startOther name r
      | .stop => m.stopOther name r
      | .reload => (.error s!"unit '{name}' does not support reload", m)
      | .nop | .restart | .isolate => (.ok (), m)

/-- Stop a running service and start it again once its processes are gone. -/
def restartRunning (m : Manager W) (name : String) (state : UnitState) :
    Except String Unit × Manager W :=
  let marked := { m with restartPending := m.restartPending.insert name }
  let stopped := if state ≠ .deactivating then marked.runUnitJob .stop name else (.ok (), marked)
  match stopped.1 with
  | .error error => (.error error, stopped.2)
  | .ok () =>
    if stopped.2.units[name]?.any UnitRecord.tracked then (.ok (), stopped.2)
    else
      let m := { stopped.2 with restartPending := stopped.2.restartPending.erase name }
      m.runUnitJob .start name

/-- `Manager::restart_unit` of `src/manager.rs:2504`. -/
def restartUnit (m : Manager W) (name : String) : Except String Unit × Manager W :=
  let loaded := m.loadUnit name
  match loaded.1 with
  | .error error => (.error error, loaded.2)
  | .ok () =>
    if (loaded.2.serviceOf name).isNone then
      let stopped := loaded.2.runUnitJob .stop name
      match stopped.1 with
      | .error error => (.error error, stopped.2)
      | .ok () => stopped.2.runUnitJob .start name
    else
      match (loaded.2.stateOf name).getD .inactive with
      | .inactive | .failed | .maintenance => loaded.2.runUnitJob .start name
      | state => loaded.2.restartRunning name state

/-- `Manager::run_job` of `src/manager.rs:1823`. -/
def runJob (m : Manager W) (kind : JobKind) (name : String) : Except String Unit × Manager W :=
  match kind with
  | .nop => (.ok (), m)
  | .restart => m.restartUnit name
  | .isolate => (.error "isolate jobs require transaction context", m)
  | .start | .stop | .reload => m.runUnitJob kind name

/-- State of the dependency resolver. The edges it breaks are only logged. -/
structure Resolver (W : Type) where
  world : W
  known : Std.ExtTreeMap String LoadedUnit
  extra : Std.ExtTreeMap String LoadedUnit := ∅
  visited : Std.ExtTreeSet String := ∅
  onStack : Std.ExtTreeSet String := ∅
  order : List String := []

namespace Resolver

omit [Kernel W] in
/-- `Resolver::is_loaded` of `src/deps.rs:123`. -/
def isLoaded (s : Resolver W) (name : String) : Bool :=
  s.known.contains name || s.extra.contains name

/-- Have a dependency loaded, if it can be. -/
def ensureLoaded (s : Resolver W) (name : String) : Resolver W :=
  if s.isLoaded name then s
  else
    let loaded := Kernel.loadUnit s.world name
    match loaded.1 with
    | .ok unit => { s with world := loaded.2, extra := s.extra.insert name unit }
    | .error _ => { s with world := loaded.2 }

/-- The `[Unit]` section of a known unit. -/
def sectionFor (s : Resolver W) (name : String) : UnitSection :=
  ((s.known[name]?.or s.extra[name]?).map LoadedUnit.unitSection).getD {}

/-- Part of `Resolver::resolve`, `src/deps.rs:78`. -/
def visitRequires (visit : String → Resolver W → Except String Unit × Resolver W) :
    List String → Resolver W → Except String Unit × Resolver W
  | [], s => (.ok (), s)
  | dep :: rest, s =>
    let s := s.ensureLoaded dep
    if !s.isLoaded dep then (.error s!"required dependency '{dep}' could not be loaded", s)
    else
      let visited := visit dep s
      match visited.1 with
      | .error error => (.error error, visited.2)
      | .ok () => visitRequires visit rest visited.2

/-- Part of `Resolver::resolve`, `src/deps.rs:78`. -/
def visitWants (visit : String → Resolver W → Except String Unit × Resolver W) :
    List String → Resolver W → Except String Unit × Resolver W
  | [], s => (.ok (), s)
  | dep :: rest, s =>
    let s := s.ensureLoaded dep
    if !s.isLoaded dep then visitWants visit rest s
    else
      let visited := visit dep s
      match visited.1 with
      | .error error => (.error error, visited.2)
      | .ok () => visitWants visit rest visited.2

/-- Depth-first search with the nested calls there is room for. -/
def resolve : Nat → String → Resolver W → Except String Unit × Resolver W
  | 0, _, s => (.error "stack overflow", s)
  | depth + 1, name, s =>
    if s.visited.contains name || s.onStack.contains name then (.ok (), s)
    else
      let unit := s.sectionFor name
      let required := visitRequires (resolve depth) unit.requires
        { s with onStack := s.onStack.insert name }
      match required.1 with
      | .error error => (.error error, required.2)
      | .ok () =>
        let wanted := visitWants (resolve depth) unit.wants required.2
        match wanted.1 with
        | .error error => (.error error, wanted.2)
        | .ok () => (.ok (), { wanted.2 with
            onStack := wanted.2.onStack.erase name
            visited := wanted.2.visited.insert name
            order := wanted.2.order ++ [name] })

end Resolver

/-- `resolve_start_order` of `src/deps.rs:40`. -/
def resolveStartOrder (m : Manager W) (target : String) :
    Except String (List String) × Manager W :=
  let resolved := Resolver.resolve (Kernel.stackDepth m.world) target
    { world := m.world, known := m.units.map (fun _ r => r.loaded) }
  (resolved.1.map (fun _ => resolved.2.order), { m with world := resolved.2.world })

/-- Load the units of a transaction that can be loaded. -/
def loadUnits (m : Manager W) (names : List String) : Manager W :=
  names.foldl (fun m name => (m.loadUnit name).2) m

def unitsIn (m : Manager W) (states : List UnitState) : List String :=
  m.unitNames.filter (fun name => m.units[name]?.any (states.contains ·.state))

def enqueueAll (m : Manager W) (kind : JobKind) (names : List String) : Manager W :=
  { m with jobQueue := names.foldl (fun queue name => queue.enqueueInternal kind name) m.jobQueue }

/-- The units that stay in an isolation. -/
def isolateKeep (m : Manager W) (order : List String) : Std.ExtTreeSet String :=
  let ignored := m.units.toList.filterMap (fun (name, r) =>
    if r.loaded.unitSection.ignoreOnIsolate then some name else none)
  Std.ExtTreeSet.ofList (order ++ ignored)

/-- Queue the stops and starts of an isolation. -/
def isolateTransaction (m : Manager W) (id : Nat) (target : String) (order : List String) :
    Manager W :=
  let m := m.loadUnits order
  let keep := m.isolateKeep order
  let m := if id ≠ 0 then { m with isolateJobs := m.isolateJobs.insert id keep } else m
  let m := m.setState target .activating
  let stopped :=
    (m.unitsIn [.active, .activating, .failed]).filter (!keep.contains ·)
  (m.enqueueAll .stop stopped).enqueueAll .start order

/-- `Manager::enqueue_isolate` of `src/manager.rs:2544`. -/
def enqueueIsolate (m : Manager W) (id : Nat) (target : String) : Except String Unit × Manager W :=
  let loaded := m.loadUnit target
  match loaded.1, loaded.2.units[target]? with
  | .error error, _ => (.error error, loaded.2)
  | .ok (), none => (.error s!"unit '{target}' not in registry", loaded.2)
  | .ok (), some r =>
    if !r.loaded.isTarget then (.error s!"unit '{target}' is not a target", loaded.2)
    else if !r.loaded.unitSection.allowIsolate then
      (.error s!"unit '{target}' does not permit isolation", loaded.2)
    else
      let resolved := loaded.2.resolveStartOrder target
      match resolved.1 with
      | .error error => (.error error, resolved.2)
      | .ok order => (.ok (), resolved.2.isolateTransaction id target order)

/-- `Manager::begin_shutdown_transaction` of `src/manager.rs:742`. -/
def beginShutdownTransaction (m : Manager W) : Manager W :=
  let isolated := m.enqueueIsolate 0 "shutdown.target"
  match isolated.1 with
  | .ok () => isolated.2
  | .error _ => isolated.2.enqueueAll .stop (isolated.2.unitsIn [.active, .activating, .failed])

/-- Append an exported start job, while job ids last. -/
def enqueueExported (m : Manager W) (name : String) : Manager W :=
  match m.jobQueue.enqueue m.jobRegistry .start name with
  | some (_, queue, registry) => { m with jobQueue := queue, jobRegistry := registry }
  | none => m

/-- `Manager::enqueue_start` of `src/manager.rs:423`. -/
def enqueueStart (m : Manager W) (target : String) : Except String Unit × Manager W :=
  let loaded := m.loadUnit target
  match loaded.1 with
  | .error error => (.error error, loaded.2)
  | .ok () =>
    let resolved := loaded.2.resolveStartOrder target
    match resolved.1 with
    | .error error => (.error error, resolved.2)
    | .ok order =>
      (.ok (), order.foldl (fun m name => (m.loadUnit name).2.enqueueExported name) resolved.2)

/-- Result of a job right after it ran. -/
def immediateJobResult (m : Manager W) (kind : JobKind) (name : String) : Option JobResult :=
  match kind, m.stateOf name with
  | .nop, _ => some .done
  | _, none => none
  | .start, some .active | .start, some .inactive => some .done
  | .restart, some .active | .restart, some .inactive => some .done
  | .stop, some .inactive => some .done
  | .start, some .failed | .start, some .maintenance => some .failed
  | .stop, some .failed | .stop, some .maintenance => some .failed
  | .restart, some .failed | .restart, some .maintenance => some .failed
  | .isolate, some .failed | .isolate, some .maintenance => some .failed
  | .reload, some _ => some .done
  | _, some _ => none

/-- Result of a running job whose unit may have settled. A unit that is gone counts as failed. -/
def settledJobResult (m : Manager W) (kind : JobKind) (name : String) : Option JobResult :=
  match kind, (m.stateOf name).getD .failed with
  | .nop, _ | .reload, _ => some .done
  | .start, .active => some .done
  | .restart, .active | .restart, .inactive => some .done
  | .stop, .inactive => some .done
  | .start, .inactive | .start, .failed | .start, .maintenance => some .failed
  | .stop, .failed | .stop, .maintenance => some .failed
  | .restart, .failed | .restart, .maintenance => some .failed
  | _, _ => none

/-- Result of a running isolation. -/
def isolateJobResult (m : Manager W) (job : JobInfo) : Option JobResult :=
  match m.isolateJobs[job.id]? with
  | none => none
  | some keep =>
    let target := (m.stateOf job.unitName).getD .failed
    if target = .failed ∨ target = .maintenance then some .failed
    else if keep.toList.any (fun name => name != job.unitName &&
        (m.stateOf name == some .failed || m.stateOf name == some .maintenance)) then
      some .dependency
    else if target = .active ∧ (m.unitsIn [.active, .activating, .deactivating]).all
        (keep.contains ·) then
      some .done
    else none

def finishJob (m : Manager W) (id : Nat) (result : JobResult) : Manager W :=
  { m with
    jobRegistry := (m.jobRegistry.finish id result).1
    isolateJobs := m.isolateJobs.erase id }

/-- Run the job itself. -/
def executeJob (m : Manager W) (job : Job) : Except String Unit × Manager W :=
  if job.kind = .isolate then m.enqueueIsolate job.id job.unitName
  else m.runJob job.kind job.unitName

/-- Record what a job that ran came to. -/
def recordJob (m : Manager W) (job : Job) (result : Except String Unit) : Manager W :=
  if job.id = 0 then m
  else match result with
    | .error _ => m.finishJob job.id .failed
    | .ok () => match m.immediateJobResult job.kind job.unitName with
      | some result => m.finishJob job.id result
      | none => m

/-- One turn of the loop of `run_ready_jobs`. -/
def runReadyJob (m : Manager W) (job : Job) : Manager W :=
  if job.id ≠ 0 ∧ m.jobRegistry.isLive job.id = false then m
  else
    let marked := if job.id ≠ 0 then
      { m with jobRegistry := (m.jobRegistry.markRunning job.id).1 } else m
    let ran := marked.executeJob job
    ran.2.recordJob job ran.1

/-- Let the gated services go once nothing is queued. -/
def releaseIdleServicesAfterDispatch (m : Manager W) : Manager W :=
  if m.jobQueue.isEmpty m.jobRegistry && m.sharedQueue.isEmpty m.jobRegistry then
    m.unitNames.foldl (fun m name =>
      (m.apply name () (fun r w => ((), releaseIdleGate r w))).2) m
  else m

/-- `Manager::run_ready_jobs` of `src/manager.rs:972`. -/
def runReadyJobs (m : Manager W) (ready : List Job) : Manager W :=
  (ready.foldl runReadyJob m).releaseIdleServicesAfterDispatch

/-- Finish the running jobs whose units have settled. -/
def completeRunningJobs (m : Manager W) : Manager W :=
  let completed := (m.jobRegistry.list.filter (·.state == .running)).filterMap
    (fun info => (if info.kind = .isolate then m.isolateJobResult info
      else m.settledJobResult info.kind info.unitName).map (fun result => (info.id, result)))
  let m := completed.foldl (fun m (id, result) => m.finishJob id result) m
  { m with isolateJobs := m.isolateJobs.filter (fun id _ => m.jobRegistry.isLive id) }

/-- The new state of an activating target, given the states of the other units. -/
def targetState (stateOf : String → Option UnitState) : List String → Option UnitState
  | [] => some .active
  | dep :: rest => match stateOf dep with
    | none | some .active | some .inactive => targetState stateOf rest
    | some .failed | some .maintenance => some .failed
    | some .activating | some .deactivating => none

/-- Activate a target once what it requires is settled. -/
def tryActivateTarget (m : Manager W) (name : String) : Manager W :=
  match m.units[name]? with
  | none => m
  | some r =>
    if !r.loaded.isTarget then m
    else match targetState (fun dep => if dep = name then none else m.stateOf dep)
        r.loaded.unitSection.requires with
      | some state => m.setState name state
      | none => m

/-- Part of `Manager::run_inner`, `src/manager.rs:508`. -/
def activateTargets (m : Manager W) : Manager W :=
  ((m.unitsIn [.activating]).filter (fun name =>
    m.units[name]?.any (·.loaded.isTarget))).foldl tryActivateTarget m

def bringsUp : JobKind → Bool
  | .start | .restart | .isolate => true
  | .stop | .reload | .nop => false

section

variable {P : Permits} (m : Manager W) (u : String)

omit [Kernel W] in
private theorem tends_setState (st : UnitState)
    (h : ∀ r, m.units[u]? = some r → r.loaded.service? = none)
    (hrise : st = .active ∨ st = .activating → P.rise u) : Tends P m (m.setState u st) :=
  Tends.update u _ fun r hr => Alters.of_other (h r hr) rfl (fun hup => .inl (hrise hup)) rfl

omit [Kernel W] in
private theorem tends_finishAttempt (a : Except String Unit × Manager W) (st : UnitState)
    (hlg : a.2.ledger = m.ledger) (h : ∀ r, m.units[u]? = some r → r.loaded.service? = none)
    (hrise : st = .active ∨ st = .activating → P.rise u) : Tends P m (finishAttempt a u st).2 := by
  unfold finishAttempt
  split
  · exact Tends.of_ledger hlg
  · refine (tends_setState a.2 u st ?_ hrise).after_ledger hlg
    rwa [units_of_ledger hlg]

theorem tends_loadUnit : Tends P m (m.loadUnit u).2 := by
  simp only [loadUnit]
  split
  · exact Tends.refl m
  rename_i hab
  have hnn : m.units[u]? = none := by simpa using hab
  split
  · exact Tends.of_ledger rfl
  rename_i unit _
  refine ⟨?_, ?_, Queues.of_queues rfl, fun _ _ _ hsc => .inl hsc⟩
  · intro other r hr
    have hne : u ≠ other := by
      rintro rfl
      cases hnn.symm.trans hr
    refine ⟨r, ?_, Alters.refl r⟩
    simp [Std.ExtTreeMap.getElem?_insert, hne, hr]
  · intro other r' hother hr'
    by_cases heq : u = other
    · subst heq
      simp only [units_ask, getElem?_insert_self, some.injEq] at hr'
      exact ⟨unit, hr' ▸ Alters.refl _⟩
    · simp [Std.ExtTreeMap.getElem?_insert, heq, hother] at hr'

def Triggers (m : Manager W) (name target : String) : Prop :=
  ∃ r unit p, m.units[name]? = some r ∧ r.loaded = .path unit p ∧
    target = triggeredUnit name p.unit ".path" ".service"

omit [Kernel W] in
theorem Triggers.of_tends {m m' : Manager W} {u target : String}
    (hm : m.units[u]?.isSome = true) (h : Tends P m m')
    (htrg : m'.Triggers u target) : m.Triggers u target := by
  obtain ⟨r', unit, p, hr', hpth, hta⟩ := htrg
  obtain ⟨r, hr⟩ := isSome_iff_exists.mp hm
  exact ⟨r, unit, p, hr, h.loaded_eq hr hr' ▸ hpth, hta⟩

private theorem tends_startPath (p : PathSection)
    (h : ∀ r, m.units[u]? = some r → r.loaded.service? = none) (hrise : P.rise u)
    (hjb : ∀ j : Job, j.kind = .start →
      j.unitName = triggeredUnit u p.unit ".path" ".service" → P.job j) :
    Tends P m (m.startPath u p).2 := by
  simp only [startPath]
  split
  · exact Tends.refl m
  split
  · exact Tends.of_ledger rfl
  refine Tends.trans ?_ (tends_setState _ u .active ?_ (fun _ => hrise))
  · split
    · split
      · next j queue registry hqu =>
        simp only [JobQueue.enqueue, JobQueue.enqueueOwned, JobRegistry.allocate,
          map_eq_some_iff] at hqu
        obtain ⟨⟨j', r'⟩, halc, heq⟩ := hqu
        split at halc
        · cases halc
          cases heq
          exact Tends.of_queues rfl (Queues.pushShared ⟨_, .start, _⟩ (hjb _ rfl rfl) rfl rfl
            rfl (fun _ h => h)) (fun _ _ h => .inl h)
        · cases halc
      · exact Tends.of_ledger rfl
    · exact Tends.of_ledger rfl
  · split
    · split <;> exact h
    · exact h

variable (r : UnitRecord) (j job : Job) (result res : Except String Unit)

private theorem tends_startOther (hr : m.units[u]? = some r) (hs : r.loaded.service? = none)
    (hrise : P.rise u) (hjb : ∀ j : Job, j.kind = .start → m.Triggers u j.unitName → P.job j) :
    Tends P m (m.startOther u r).2 := by
  have h : ∀ r, m.units[u]? = some r → r.loaded.service? = none := by
    intro r' hr'
    cases hr.symm.trans hr'
    exact hs
  unfold startOther
  split
  · exact Tends.refl m
  · simp only [startSocket]
    split
    · split
      · exact Tends.of_ledger rfl
      · refine Tends.after_ledger (tends_setState _ u _ ?_ (fun _ => hrise)) ?_
        · exact h
        · rfl
    · exact Tends.refl m
  · exact tends_setState m u _ h (fun _ => hrise)
  · exact tends_finishAttempt m u _ _ rfl h (fun _ => hrise)
  · exact tends_finishAttempt m u _ _ rfl h (fun _ => hrise)
  · exact tends_finishAttempt m u _ _ rfl h (fun _ => hrise)
  · next unit p hld =>
    apply tends_startPath m u p h hrise
    intro j hkn hname
    exact hjb j hkn ⟨r, unit, p, hr, hld, hname⟩
  · exact Tends.refl m
  · exact tends_setState m u _ h (fun _ => hrise)
  · exact tends_setState m u _ h (fun _ => hrise)

private theorem tends_stopOther (h : ∀ r, m.units[u]? = some r → r.loaded.service? = none) :
    Tends P m (m.stopOther u r).2 := by
  have hdw : UnitState.inactive = .active ∨ UnitState.inactive = .activating → P.rise u := by
    rintro (h | h) <;> cases h
  unfold stopOther
  split
  · split
    · refine Tends.after_ledger (tends_setState _ u _ ?_ hdw) ?_
      · exact h
      · rfl
    · exact tends_setState m u _ h hdw
  · exact tends_finishAttempt m u _ _ rfl h hdw
  · exact tends_finishAttempt m u _ _ rfl h hdw
  · split
    · exact tends_finishAttempt m u _ _ rfl h hdw
    · exact tends_setState m u _ h hdw
  · exact tends_setState m u _ h hdw

def JobMoves (kind : JobKind) (unitName : String) (name : String) (l : Label) (_ : Phase) : Prop :=
  name = unitName ∧ match kind with
    | .start => l = .start
    | .stop => l = .stop ∨ l = .abandon
    | .restart => l = .start ∨ l = .stop ∨ l = .abandon
    | .reload | .isolate | .nop => False

theorem JobMoves.label {un u : String}
    (h : JobMoves k un u l p) : l = .start ∨ l = .stop ∨ l = .abandon := by
  obtain ⟨-, h⟩ := h
  cases k with
  | start => exact .inl h
  | stop => exact .inr h
  | restart => exact h
  | reload | isolate | nop => exact absurd h id

theorem tends_runUnitJob (k : JobKind)
    (hmoves : ∀ other l p, JobMoves k u other l p → P.move other l p)
    (hrise : k = .start → P.rise u)
    (hjb : k = .start → ∀ j : Job, j.kind = .start → m.Triggers u j.unitName → P.job j) :
    Tends P m (m.runUnitJob k u).2 := by
  unfold runUnitJob
  split
  · exact Tends.refl m
  rename_i r hr
  split
  · next s hs =>
    apply tends_runServiceJob m u k r s hr hs
    · rintro rfl p
      exact hmoves _ _ _ ⟨rfl, rfl⟩
    · rintro rfl p
      exact ⟨hmoves _ _ _ ⟨rfl, .inl rfl⟩, hmoves _ _ _ ⟨rfl, .inr rfl⟩⟩
  · next hs =>
    split
    · exact tends_startOther m u r hr hs (hrise rfl) (hjb rfl)
    · apply tends_stopOther m u r
      intro r' hr'
      cases hr.symm.trans hr'
      exact hs
    · exact Tends.refl m
    · exact Tends.refl m
    · exact Tends.refl m
    · exact Tends.refl m

private theorem isSome_of_loadUnit (h : (m.loadUnit u).1 = .ok ()) :
    (m.loadUnit u).2.units[u]?.isSome = true := by
  revert h
  simp only [loadUnit]
  split
  · next hct =>
    intro _
    rwa [isSome_getElem?_eq_contains]
  split
  · intro h
    cases h
  · simp

section

variable (hmoves : ∀ other l p, JobMoves .restart u other l p → P.move other l p)
  (hrise : P.rise u)

include hmoves hrise

/-- The steps of a restart move what the restart may move. -/
private theorem tends_restartJob (k : JobKind)
    (hjb : k = .start → ∀ j : Job, j.kind = .start → m.Triggers u j.unitName → P.job j) :
    Tends P m (m.runUnitJob k u).2 :=
  tends_runUnitJob m u k (fun _ _ _ h => hmoves _ _ _ ⟨h.1, h.label⟩) (fun _ => hrise) hjb

variable (hu : P.unit u) (hl : P.lost u)

include hu hl

private theorem tends_restartRunning (st : UnitState) (hm : m.units[u]?.isSome = true)
    (hjb : ∀ j : Job, j.kind = .start → m.Triggers u j.unitName → P.job j) :
    Tends P m (m.restartRunning u st).2 := by
  have hmarked : Tends P m { m with restartPending := m.restartPending.insert u } :=
    Tends.of_queues rfl (Queues.mark hu) (fun _ _ h => .inl h)
  simp only [restartRunning]
  generalize hmr' : { m with restartPending := m.restartPending.insert u } = marked at hmarked ⊢
  have hspp : Tends P m (if st ≠ .deactivating then marked.runUnitJob .stop u
      else (.ok (), marked)).2 := by
    apply hmarked.trans
    split
    · exact tends_restartJob marked u hmoves hrise .stop (fun h => by cases h)
    · exact Tends.refl _
  generalize (if st ≠ .deactivating then marked.runUnitJob .stop u
    else (.ok (), marked)) = stopped at hspp ⊢
  split
  · exact hspp
  split
  · exact hspp
  have her : Tends P stopped.2
      { stopped.2 with restartPending := stopped.2.restartPending.erase u } :=
    Tends.of_queues rfl (Queues.unmark fun _ => hl) (fun _ _ h => .inl h)
  apply (hspp.trans her).trans
  apply tends_restartJob _ u hmoves hrise .start
  intro _ j hkn htrg
  exact hjb j hkn (Triggers.of_tends hm hspp htrg)

private theorem tends_restartUnit
    (hjb : ∀ j : Job, j.kind = .start → (m.loadUnit u).2.Triggers u j.unitName → P.job j) :
    Tends P m (m.restartUnit u).2 := by
  simp only [restartUnit]
  apply (tends_loadUnit m u).trans
  split
  · exact Tends.refl _
  rename_i hld
  have hm := isSome_of_loadUnit m u hld
  generalize (m.loadUnit u).2 = loaded at hjb hm ⊢
  split
  · have hspp : Tends P loaded (loaded.runUnitJob .stop u).2 :=
      tends_restartJob loaded u hmoves hrise .stop (fun h => by cases h)
    apply hspp.trans
    split
    · exact Tends.refl _
    apply tends_restartJob _ u hmoves hrise .start
    intro _ j hkn htrg
    exact hjb j hkn (Triggers.of_tends hm hspp htrg)
  · split
    · exact tends_restartJob loaded u hmoves hrise .start (fun _ => hjb)
    · exact tends_restartJob loaded u hmoves hrise .start (fun _ => hjb)
    · exact tends_restartJob loaded u hmoves hrise .start (fun _ => hjb)
    · exact tends_restartRunning loaded u hmoves hrise hu hl _ hm hjb

end

theorem tends_loadUnits (us : List String) : Tends P m (m.loadUnits us) :=
  Tends.foldl _ us (fun m u _ => tends_loadUnit m u) m

def startOrder (target : String) : List String :=
  (((m.loadUnit target).2.resolveStartOrder target).1.toOption).getD []

omit [Kernel W] in
private theorem queues_enqueueAll {job : Job → Prop} {unit lost : String → Prop} (k : JobKind)
    (us : List String) (h : ∀ other ∈ us, job ⟨0, k, other⟩) :
    Queues job unit lost m (m.enqueueAll k us) := by
  induction us generalizing m with
  | nil => exact Queues.refl m
  | cons u us ih =>
    have hpu : Queues job unit lost m
        { m with jobQueue := m.jobQueue.enqueueInternal k u } :=
      Queues.push ⟨0, k, u⟩ (h u mem_cons_self) rfl rfl rfl rfl
    exact hpu.trans (ih { m with jobQueue := m.jobQueue.enqueueInternal k u }
      (fun other hother => h other (mem_cons_of_mem _ hother)))

omit [Kernel W] in
private theorem tends_enqueueAll (k : JobKind) (us : List String)
    (h : ∀ other ∈ us, P.job ⟨0, k, other⟩) : Tends P m (m.enqueueAll k us) :=
  Tends.of_queues rfl (queues_enqueueAll m k us h) (fun _ _ h => .inl h)

private theorem tends_enqueueIsolate (id : Nat) (hrise : P.rise u)
    (hstp : ∀ other, P.job ⟨0, .stop, other⟩)
    (hstr : ∀ other ∈ m.startOrder u, P.job ⟨0, .start, other⟩) :
    Tends P m (m.enqueueIsolate id u).2 := by
  simp only [enqueueIsolate]
  apply (tends_loadUnit m u).trans
  split
  · exact Tends.refl _
  · exact Tends.refl _
  rename_i r _ hr
  split
  · exact Tends.refl _
  rename_i hta
  have hs : r.loaded.service? = none := by
    cases hld : r.loaded <;> simp_all [LoadedUnit.isTarget, LoadedUnit.service?]
  split
  · exact Tends.refl _
  split
  · exact Tends.of_ledger rfl
  next order hord =>
  simp only [startOrder, hord, Except.toOption, getD_some] at hstr
  have hre : Tends P (m.loadUnit u).2
      ((m.loadUnit u).2.resolveStartOrder u).2 := Tends.of_ledger rfl
  have hr' : ((m.loadUnit u).2.resolveStartOrder u).2.units[u]? = some r := hr
  apply hre.trans
  generalize ((m.loadUnit u).2.resolveStartOrder u).2 = resolved at hr' ⊢
  simp only [isolateTransaction]
  have hld : Tends P resolved (resolved.loadUnits order) := tends_loadUnits resolved order
  apply hld.trans
  have h : ∀ r, (resolved.loadUnits order).units[u]? = some r →
      r.loaded.service? = none := by
    intro r₁ hr₁
    rw [hld.loaded_eq hr' hr₁, hs]
  generalize resolved.loadUnits order = loaded at h ⊢
  generalize hnt : (if id ≠ 0 then
    { loaded with isolateJobs := loaded.isolateJobs.insert id (loaded.isolateKeep order) }
    else loaded) = noted
  have hlg : noted.ledger = loaded.ledger := by
    rw [← hnt]
    split <;> rfl
  have hset : Tends P noted (noted.setState u .activating) :=
    tends_setState noted u _ (by rwa [units_of_ledger hlg]) (fun _ => hrise)
  exact ((hset.after_ledger hlg).trans
    (tends_enqueueAll _ .stop _ fun other _ => hstp other)).trans
      (tends_enqueueAll _ .start order hstr)

theorem tends_beginShutdownTransaction (hrise : P.rise "shutdown.target")
    (hstp : ∀ other, P.job ⟨0, .stop, other⟩)
    (hstr : ∀ other ∈ m.startOrder "shutdown.target", P.job ⟨0, .start, other⟩) :
    Tends P m m.beginShutdownTransaction := by
  simp only [beginShutdownTransaction]
  apply (tends_enqueueIsolate m "shutdown.target" 0 hrise hstp hstr).trans
  split
  · exact Tends.refl _
  · exact tends_enqueueAll _ .stop _ (fun other _ => hstp other)

theorem tends_enqueueStart (h : ∀ id, ∀ other ∈ m.startOrder u, P.job ⟨id, .start, other⟩) :
    Tends P m (m.enqueueStart u).2 := by
  simp only [enqueueStart]
  apply (tends_loadUnit m u).trans
  split
  · exact Tends.refl _
  split
  · exact Tends.of_ledger rfl
  next order hord =>
  simp only [startOrder, hord, Except.toOption, getD_some] at h
  have hre : Tends P (m.loadUnit u).2
      ((m.loadUnit u).2.resolveStartOrder u).2 := Tends.of_ledger rfl
  apply hre.trans
  apply Tends.foldl
  intro m other hother
  apply (tends_loadUnit m other).trans
  generalize (m.loadUnit other).2 = loaded
  simp only [enqueueExported, JobQueue.enqueue, JobQueue.enqueueOwned, JobRegistry.allocate]
  split
  · next halc =>
    split at halc
    · cases halc
      exact Tends.of_queues rfl
        (Queues.push ⟨_, .start, other⟩ (h _ other hother) rfl rfl rfl rfl)
        (fun _ _ h => .inl h)
    · cases halc
  · exact Tends.refl loaded

def JobQueues (j j' : Job) : Prop :=
  match j.kind with
  | .start | .restart =>
    j'.kind = .start ∧ (m.loadUnit j.unitName).2.Triggers j.unitName j'.unitName
  | .isolate => j'.kind = .stop ∨ j'.kind = .start ∧ j'.unitName ∈ m.startOrder j.unitName
  | _ => False

variable {m} in
theorem JobQueues.kind {j j' : Job} (h : m.JobQueues j j') :
    j'.kind = .start ∨ j'.kind = .stop := by
  unfold JobQueues at h
  split at h
  · exact .inl h.1
  · exact .inl h.1
  · exact h.symm.imp_left And.left
  · exact absurd h id

theorem loadUnit_congr {m m' : Manager W} (u : String) (hun : m'.units = m.units)
    (hwo : m'.world = m.world) : (m'.loadUnit u).1 = (m.loadUnit u).1 ∧
      (m'.loadUnit u).2.units = (m.loadUnit u).2.units ∧
        (m'.loadUnit u).2.world = (m.loadUnit u).2.world := by
  simp only [loadUnit, ask, hun, hwo]
  split
  · exact ⟨rfl, hun, hwo⟩
  split
  · exact ⟨rfl, rfl, rfl⟩
  · exact ⟨rfl, rfl, rfl⟩

private theorem jobQueues_congr {m m' : Manager W} (j' : Job) (hun : m'.units = m.units)
    (hwo : m'.world = m.world) : m'.JobQueues j j' ↔ m.JobQueues j j' := by
  obtain ⟨-, hun', hwo'⟩ := loadUnit_congr j.unitName hun hwo
  simp only [JobQueues, Triggers, startOrder, resolveStartOrder, hun', hwo']

structure Admits (P : Permits) (m : Manager W) (j : Job) : Prop where
  moves : ∀ other l p, JobMoves j.kind j.unitName other l p → P.move other l p
  rise : bringsUp j.kind = true → P.rise j.unitName
  unit : j.kind = .restart → P.unit j.unitName ∧ P.lost j.unitName
  jobs : ∀ j', m.JobQueues j j' → P.job j'

theorem Admits.congr {m m' : Manager W} {j : Job} (h : Admits P m j) (hun : m'.units = m.units)
    (hwo : m'.world = m.world) : Admits P m' j :=
  ⟨h.moves, h.rise, h.unit, fun j' hj' => h.jobs j' ((jobQueues_congr j j' hun hwo).mp hj')⟩

private theorem tends_executeJob (h : Admits P m j) : Tends P m (m.executeJob j).2 := by
  obtain ⟨hmoves, hrise, hu, hjb⟩ := h
  unfold executeJob
  split
  · next hkn =>
    refine tends_enqueueIsolate m _ _ (hrise (by rw [hkn]; rfl)) ?_ ?_
    · intro other
      exact hjb _ (by simp [JobQueues, hkn])
    · intro other hother
      exact hjb _ (by simp [JobQueues, hkn, hother])
  · next hisolate =>
    cases hkn : j.kind with
    | nop => exact Tends.refl m
    | restart =>
      rw [hkn] at hmoves
      apply tends_restartUnit m j.unitName hmoves (hrise (by rw [hkn]; rfl)) (hu hkn).1 (hu hkn).2
      intro j' hstr htrg
      exact hjb j' (by simpa [JobQueues, hkn] using ⟨hstr, htrg⟩)
    | isolate => exact absurd hkn hisolate
    | start =>
      rw [hkn] at hmoves
      apply tends_runUnitJob m j.unitName .start hmoves (fun _ => hrise (by rw [hkn]; rfl))
      intro _ j' hstr htrg
      refine hjb j' ?_
      have hld : m.loadUnit j.unitName = (.ok (), m) := by
        obtain ⟨r, -, -, hr, -⟩ := htrg
        exact loadUnit_of_some hr
      simpa [JobQueues, hkn, hld] using ⟨hstr, htrg⟩
    | stop | reload =>
      rw [hkn] at hmoves
      exact tends_runUnitJob m j.unitName _ hmoves (fun h => by cases h) (fun h => by cases h)

omit [Kernel W] in
@[simp] theorem ledger_recordJob : (m.recordJob job res).ledger = m.ledger := by
  unfold recordJob
  split
  · rfl
  split
  · rfl
  · split <;> rfl

omit [Kernel W] in
@[simp] theorem units_recordJob : (m.recordJob job res).units = m.units :=
  units_of_ledger (ledger_recordJob m job res)

theorem tends_runReadyJob (h : Admits P m j) : Tends P m (m.runReadyJob j) := by
  simp only [runReadyJob]
  split
  · exact Tends.refl m
  generalize hmarked : (if j.id ≠ 0 then
    { m with jobRegistry := (m.jobRegistry.markRunning j.id).1 } else m) = marked
  have hlg : marked.ledger = m.ledger ∧ marked.world = m.world := by
    rw [← hmarked]
    split <;> exact ⟨rfl, rfl⟩
  apply (Tends.of_ledger hlg.1).trans
  exact (tends_executeJob marked j (h.congr (units_of_ledger hlg.1) hlg.2)).trans
    (Tends.of_ledger (ledger_recordJob _ _ _))

theorem tends_releaseIdleServicesAfterDispatch : Tends P m m.releaseIdleServicesAfterDispatch := by
  unfold releaseIdleServicesAfterDispatch
  split
  · apply Tends.foldl
    intro m u _
    exact Tends.apply u _ _ fun r _ => alters_releaseIdleGate r _
  · exact Tends.refl m

theorem tends_completeRunningJobs : Tends P m m.completeRunningJobs := by
  have hfi : ∀ c : List (Nat × JobResult),
      Tends P m (c.foldl (fun m job => m.finishJob job.1 job.2) m) := by
    intro c
    apply Tends.foldl
    intro m job _
    exact Tends.of_ledger rfl
  exact (hfi _).trans (Tends.of_ledger rfl)

theorem tends_activateTargets (hrise : ∀ u ∈ m.unitsIn [.activating], P.rise u) :
    Tends P m m.activateTargets := by
  unfold activateTargets
  apply Tends.foldl
  intro m u hname
  unfold tryActivateTarget
  split
  · exact Tends.refl m
  rename_i r hr
  split
  · exact Tends.refl m
  rename_i hta
  split
  · refine tends_setState m u _ ?_ (fun _ => hrise u (mem_of_mem_filter hname))
    intro r' hr'
    cases hr.symm.trans hr'
    cases hld : r.loaded <;> simp_all [LoadedUnit.isTarget, LoadedUnit.service?]
  · exact Tends.refl m

end
end Rustd.Manager
