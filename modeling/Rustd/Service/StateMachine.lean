import Rustd.Service.KillContext

/-!
# Service state machine

Embedding of the activation, deactivation, reload and exit handling of `src/service.rs`. Each
function takes the record and the world and returns them with its result; `name` is
`record.loaded.name()`, `notify` says whether a notification socket is passed and `inCgroup`
whether the unit's `cgroup.procs` path exists.
-/

namespace Rustd.Service

open UnitFile
open DynamicUsers (DynamicUser)

variable {W : Type} [Kernel W]

/-- How a command ended. -/
structure CommandOutcome where
  exitCode : Option Int
  signal : Option Int
  ignored : Bool
  deriving DecidableEq

namespace CommandOutcome

variable (o : CommandOutcome)

/-- `CommandOutcome::is_success` of `src/service.rs:245`. -/
def isSuccess : Bool := o.ignored || o.exitCode == some 0

/-- `CommandOutcome::condition_skips` of `src/service.rs:250`. -/
def conditionSkips : Bool :=
  !o.ignored && o.exitCode.any (fun code => 1 ≤ code && code ≤ 254)

end CommandOutcome

/-- Error of a mandatory command. -/
def commandFailed (phase : String) (command : ExecCommand) (o : CommandOutcome) : String :=
  let executable := if command.path = "" then "<empty>" else command.path
  match o.exitCode, o.signal with
  | some code, _ => s!"{phase} command '{executable}' exited with status {code}"
  | none, some signal => s!"{phase} command '{executable}' was killed by signal {signal}"
  | none, none => s!"{phase} command '{executable}' did not exit normally"

/-- Run one command to its end (`run_command`, 1532-1554). -/
def runCommand (phase : String) (c : LaunchContext) (command : ExecCommand) (w : W) :
    Except String CommandOutcome × W :=
  let ran := Kernel.runCommand w ⟨c, command, false, phase⟩
  (ran.1.map (fun status => ⟨status.1, status.2, command.ignoreFailure⟩), ran.2)

/-- Run commands in turn up to the first that fails (`run_command_list`, 1502-1530). -/
def runCommandList (phase : String) (c : LaunchContext) :
    List ExecCommand → W → Except String Unit × W
  | [], w => (.ok (), w)
  | command :: rest, w =>
    let ran := runCommand phase c command w
    match ran.1 with
    | .error error => (.error error, ran.2)
    | .ok outcome =>
      if outcome.isSuccess then runCommandList phase c rest ran.2
      else (.error (commandFailed phase command outcome), ran.2)

variable (name : String) (s : ServiceSection) (r : UnitRecord) (exit : ChildExit)
  (listenFds : List Int) (result : ServiceResult) (notify inCgroup : Bool) (w : W)

def UnitRecord.context (name : String) (listenFds : List Int) (notify inCgroup : Bool) :
    LaunchContext :=
  ⟨name, listenFds, notify, r.dynamicUser, inCgroup, r.invocationId⟩

def dropUser (user : Option DynamicUser) (w : W) : W :=
  match user with
  | some user => Kernel.dropUser w user
  | none => w

/-- `record.dynamic_user = None`. -/
def releaseUser : UnitRecord × W :=
  ({ r with dynamicUser := none }, dropUser r.dynamicUser w)

/-- Let a gated child go on. -/
def releaseIdleGate : UnitRecord × W :=
  match r.idleGateFd with
  | some fd => ({ r with idleGateFd := none }, Kernel.closeFd w fd)
  | none => (r, w)

/-- `ExecStopPost=`; a failure fails the unit. -/
def runStopPost : UnitRecord × W :=
  let ran := runCommandList "ExecStopPost" (r.context name [] notify inCgroup) s.execStopPost w
  match ran.1 with
  | .ok () => (r, ran.2)
  | .error _ => ({ r with state := .failed }, ran.2)

/-- `ExecStartPost=`. -/
def runStartPost : Except String Unit × W :=
  runCommandList "ExecStartPost" (r.context name listenFds notify inCgroup) s.execStartPost w

/-- `remove_pid_file` of `src/service.rs:1020`. -/
def removePidFile (s : ServiceSection) (w : W) : W :=
  if s.pidFile = "" then w else Kernel.removePidFile w s.pidFile

/-- Part of `activate_with_notify_in_cgroup`, `src/service.rs:289`. -/
def teardown : UnitRecord × W :=
  let post := runStopPost name s r notify inCgroup w
  releaseUser post.1 (removePidFile s post.2)

/-- `SIGTERM` to the main process, if one is tracked. -/
def terminateMain : W :=
  match r.activePid with
  | some pid => (Kernel.kill w pid sigterm).2
  | none => w

/-- Part of `activate_with_notify_in_cgroup`, `src/service.rs:289`. -/
def activationFailed (error : String) (r : UnitRecord) (w : W) :
    Except String Unit × UnitRecord × W :=
  (.error error, { r with state := .failed }, w)

/-- Verdict of `ExecCondition=`. -/
inductive ConditionVerdict where
  | pass
  | skip
  | fail (error : String)
  deriving DecidableEq

/-- The `ExecCondition=` loop. -/
def runConditions (c : LaunchContext) : List ExecCommand → W → ConditionVerdict × W
  | [], w => (.pass, w)
  | command :: rest, w =>
    let ran := runCommand "ExecCondition" c command w
    match ran.1 with
    | .error error => (.fail error, ran.2)
    | .ok outcome =>
      if outcome.conditionSkips then (.skip, ran.2)
      else if outcome.isSuccess then runConditions c rest ran.2
      else (.fail (commandFailed "ExecCondition" command outcome), ran.2)

/-- The oneshot commands, then `ExecStartPost=`. -/
def runOneshot (name : String) (s : ServiceSection) (listenFds : List Int)
    (notify inCgroup : Bool) (r : UnitRecord) :
    List ExecCommand → W → Except String Unit × UnitRecord × W
  | [], w =>
    let post := runStartPost name s r listenFds notify inCgroup w
    match post.1 with
    | .error error => activationFailed error r post.2
    | .ok () =>
      if s.remainAfterExit then (.ok (), { r with state := .active }, post.2)
      else
        let released := releaseUser r post.2
        (.ok (), { released.1 with state := .inactive }, released.2)
  | command :: rest, w =>
    let ran := runCommand "ExecStart" (r.context name listenFds notify inCgroup) command w
    match ran.1 with
    | .error error => activationFailed error r ran.2
    | .ok outcome =>
      if outcome.isSuccess then runOneshot name s listenFds notify inCgroup r rest ran.2
      else
        let post := runStopPost name s { r with state := .failed } notify inCgroup ran.2
        (.error (commandFailed "ExecStart" command outcome), post.1, post.2)

/-- Types that are ready only after the main command was spawned. -/
def defersReadiness : Bool :=
  [ServiceType.forking, .notify, .notifyReload, .dbus].contains s.serviceType

/-- The record after the main command was spawned. -/
def recordSpawned (child : SpawnedProcess) (r : UnitRecord) : UnitRecord :=
  { r with
    controlPid := if s.serviceType = .forking then some child.pid else none
    activePid := if s.serviceType = .forking then none else some child.pid
    idleGateFd := child.idleGateFd
    state := if defersReadiness s then .activating else .active }

/-- Part of `activate_with_notify_in_cgroup`, `src/service.rs:289`. -/
def spawnMain (r : UnitRecord) (command : ExecCommand) (w : W) :
    Except String Unit × UnitRecord × W :=
  let spawned := Kernel.spawnCommand w
    ⟨r.context name listenFds notify inCgroup, command, s.serviceType == .idle, "ExecStart"⟩
  match spawned.1 with
  | .error error =>
    let post := runStopPost name s { r with state := .failed } notify inCgroup spawned.2
    let released := releaseUser post.1 post.2
    (.error error, released.1, released.2)
  | .ok child =>
    let r := recordSpawned s child r
    if defersReadiness s then (.ok (), r, spawned.2)
    else
      let post := runStartPost name s r listenFds notify inCgroup spawned.2
      match post.1 with
      | .ok () => (.ok (), r, post.2)
      | .error error =>
        let gate := releaseIdleGate r (terminateMain r post.2)
        activationFailed error gate.1 gate.2

/-- `allocate_dynamic_user` of `src/service.rs:1185`. -/
def allocateDynamicUser : Except String (Option DynamicUser) × W :=
  if !s.dynamicUser then (.ok none, w)
  else
    let allocated := Kernel.allocateUser w name
    match allocated.1 with
    | .ok user => (.ok (some user), allocated.2)
    | .error error =>
      (.error s!"dynamic-user allocation failed for '{name}': {error}", allocated.2)

/-- Activation once the dynamic user is there. -/
def activateAs (r : UnitRecord) (command : ExecCommand) (user : Option DynamicUser) (w : W) :
    Except String Unit × UnitRecord × W :=
  let prepared := Kernel.prepareDirectories w name user
  match prepared.1 with
  | .error error =>
    activationFailed s!"failed to prepare service directories for '{name}': {error}" r
      (dropUser user prepared.2)
  | .ok () =>
    let c : LaunchContext := ⟨name, [], notify, user, inCgroup, r.invocationId⟩
    let verdict := runConditions c s.execCondition prepared.2
    match verdict.1 with
    | .fail error => activationFailed error r (dropUser user verdict.2)
    | .skip => (.ok (), { r with state := .inactive }, dropUser user verdict.2)
    | .pass =>
      let pre := runCommandList "ExecStartPre" c s.execStartPre verdict.2
      match pre.1 with
      | .error error => activationFailed error r (dropUser user pre.2)
      | .ok () =>
        let w := dropUser r.dynamicUser pre.2
        let r := { r with dynamicUser := user, state := .activating }
        if s.serviceType = .oneshot then
          runOneshot name s listenFds notify inCgroup r s.execStart w
        else spawnMain name s listenFds notify inCgroup r command w

/-- The record a new start begins with. -/
def beginStart : UnitRecord :=
  { r with
    serviceResult := .success
    stopRequested := false
    execMainCode := 0
    execMainStatus := 0
    activePid := none
    controlPid := none }

/-- Activation of a service unit whose conditions pass. -/
def activateService (r : UnitRecord) (w : W) : Except String Unit × UnitRecord × W :=
  match s.execStart with
  | [] => activationFailed s!"unit '{name}' has no ExecStart=" r w
  | command :: more =>
    if s.serviceType ≠ .oneshot ∧ more ≠ [] then
      activationFailed s!"unit '{name}' has multiple ExecStart= commands but is not Type=oneshot" r w
    else if s.serviceType = .dbus ∧ s.busName = "" then
      activationFailed s!"unit '{name}' has Type=dbus but no BusName=" r w
    else
      let allocated := allocateDynamicUser name s w
      match allocated.1 with
      | .error error => activationFailed error r allocated.2
      | .ok user => activateAs name s listenFds notify inCgroup r command user allocated.2

/-- `activate` of `src/service.rs:267`. -/
def activate (name : String) (r : UnitRecord) (listenFds : List Int) (notify inCgroup : Bool)
    (w : W) : Except String Unit × UnitRecord × W :=
  let gate := releaseIdleGate r w
  match gate.1.loaded.service? with
  | none => (.error s!"activate called on non-service unit '{name}'", gate.1, gate.2)
  | some s =>
    if !allConditionsPass (Kernel.answers gate.2) gate.1.loaded.unitSection then
      (.ok (), { gate.1 with state := .inactive }, gate.2)
    else activateService name s listenFds notify inCgroup (beginStart gate.1) gate.2

/-- Begin to stop a service: `ExecStop=`, then a signal to the tracked processes, or the end of
the service when there are none. -/
def deactivate (operation : KillOperation) (w : W) : UnitRecord × W :=
  match r.loaded.service? with
  | none => ({ r with state := .inactive }, w)
  | some s =>
    let r := { r with stopRequested := true }
    -- A failing `ExecStop=` command is only logged.
    let w := (runCommandList "ExecStop" (r.context name [] notify inCgroup) s.execStop w).2
    if r.tracked then
      let w := (signalPrimary (.fromService s) r.activePid r.controlPid operation w).2
      let gate := releaseIdleGate r w
      ({ gate.1 with state := .deactivating }, gate.2)
    else
      let post := runStopPost name s { r with state := .inactive } notify inCgroup w
      releaseUser post.1 post.2

/-- `ExecReload=` of an active service. -/
def reload (name : String) (r : UnitRecord) (notify inCgroup : Bool) (w : W) :
    Except String Unit × W :=
  match r.loaded.service? with
  | none => (.error s!"reload called on non-service unit '{name}'", w)
  | some s =>
    if r.state ≠ .active then (.error s!"unit '{name}' is not active", w)
    else if s.execReload = [] then (.error s!"unit '{name}' has no ExecReload=", w)
    else runCommandList "ExecReload" (r.context name [] notify inCgroup) s.execReload w

/-- Part of `complete_notify_start_with_notify_in_cgroup`, `src/service.rs:604`. -/
def completeStart : Except String Bool × UnitRecord × W :=
  let post := runStartPost name s r listenFds notify inCgroup w
  match post.1 with
  | .error error =>
    (.error error, { r with state := .failed, serviceResult := .exitCode },
      terminateMain r post.2)
  | .ok () => (.ok true, { r with state := .active, serviceResult := .success }, post.2)

/-- `READY=1`. -/
def completeNotifyStart : Except String Bool × UnitRecord × W :=
  match r.loaded.service? with
  | none => (.ok false, r, w)
  | some s =>
    if (s.serviceType = .notify ∨ s.serviceType = .notifyReload) ∧ r.state = .activating then
      completeStart name s r listenFds notify inCgroup w
    else (.ok false, r, w)

/-- `BusName=` has an owner. -/
def completeDbusStart : Except String Bool × UnitRecord × W :=
  match r.loaded.service? with
  | none => (.ok false, r, w)
  | some s =>
    if s.serviceType = .dbus ∧ r.state = .activating then
      completeStart name s r listenFds notify inCgroup w
    else (.ok false, r, w)

/-- `fail_forking_start` of `src/service.rs:798`. -/
def failForkingStart : UnitRecord × W :=
  teardown name s { r with state := .failed, serviceResult := result } notify inCgroup w

/-- The unit is active with the adopted main process. -/
def finishForkingStart (mainPid : Option Int) (notify inCgroup : Bool) (w : W) :
    Except String Unit × UnitRecord × W :=
  let r := { r with activePid := mainPid }
  let post := runStartPost name s r [] notify inCgroup w
  match post.1 with
  | .error error =>
    let failed := failForkingStart name s r .exitCode notify inCgroup (terminateMain r post.2)
    (.error error, failed.1, failed.2)
  | .ok () => (.ok (), { r with state := .active, serviceResult := .success }, post.2)

/-- Adoption of the `PIDFile=` process, shared by the starter's exit and the retries; the result
for a file that is not there yet is the caller's. -/
def adoptPidFile (absent : Bool) (notify inCgroup : Bool) (w : W) :
    Except String Bool × UnitRecord × W :=
  let file := Kernel.readPidFile w name s.pidFile
  match file.1 with
  | .ready pid =>
    let started := finishForkingStart name s r (some pid) notify inCgroup file.2
    (started.1.map (fun _ => true), started.2)
  | .notReady => (.ok absent, r, file.2)
  | .invalid error =>
    let failed := failForkingStart name s r .protocol notify inCgroup file.2
    (.error error, failed.1, failed.2)

/-- Exit of the forking starter. -/
def onForkingControlExit : Except String Bool × UnitRecord × W :=
  match r.loaded.service? with
  | none => (.ok false, r, w)
  | some s =>
    if r.controlPid ≠ some exit.pid ∨ s.serviceType ≠ .forking then (.ok false, r, w)
    else
      let r := { r with controlPid := none }
      if !isSuccess exit s then
        let failed := failForkingStart name s r (serviceResultFromExit exit) notify inCgroup w
        (.ok true, failed.1, failed.2)
      else if s.pidFile = "" then
        let guessed := if s.guessMainPid && inCgroup then Kernel.guessMainPid w name else (none, w)
        let started := finishForkingStart name s r guessed.1 notify inCgroup guessed.2
        (started.1.map (fun _ => true), started.2)
      else adoptPidFile name s r true notify inCgroup w

/-- Retry of a pending `PIDFile=` adoption. -/
def retryForkingPidFile : Except String Bool × UnitRecord × W :=
  match r.loaded.service? with
  | none => (.ok false, r, w)
  | some s =>
    if forkingPidFilePending r then adoptPidFile name s r false notify inCgroup w
    else (.ok false, r, w)

/-- A forking service without main process ends with its cgroup. -/
def onForkingCgroupEmpty : Bool × UnitRecord × W :=
  match r.loaded.service? with
  | none => (false, r, w)
  | some s =>
    if s.serviceType ≠ .forking ∨ r.state ≠ .active ∨ r.tracked then (false, r, w)
    else (true, teardown name s { r with state := .inactive, serviceResult := .success }
      notify inCgroup w)

/-- Result of the run a main-process exit ends. -/
def resultAfterExit (success : Bool) : ServiceResult :=
  if r.serviceResult = .resources then .resources
  else if r.serviceResult = .timeout then .timeout
  else if r.watchdogTriggered then .watchdog
  else if r.stopRequested || success then .success
  else serviceResultFromExit exit

/-- State a main-process exit leads to when nothing keeps the unit active. -/
def stateAfterExit (s : ServiceSection) (success : Bool) : UnitState :=
  match r.state with
  | .activating =>
    if s.serviceType = .oneshot ∧ s.remainAfterExit ∧ success then .active
    else if success then .inactive
    else .failed
  | .active => if success then .inactive else .failed
  | .deactivating => if r.stopRequested then .inactive else .failed
  | .failed => .failed
  | .inactive | .maintenance => .inactive

/-- The record once its main process is gone. -/
def mainExited (s : ServiceSection) (exit : ChildExit) : UnitRecord :=
  { r with
    activePid := none
    execMainCode := exit.code
    execMainStatus := exit.status
    serviceResult := resultAfterExit r exit (isSuccess exit s) }

/-- State a main-process exit leads to; a direct restart keeps the unit active. -/
def stateAfterMainExit (s : ServiceSection) (exit : ChildExit) : UnitState :=
  if s.restartMode = .direct ∧ r.stopRequested = false ∧
      restartRequested s exit (resultAfterExit r exit (isSuccess exit s)) then .active
  else stateAfterExit r s (isSuccess exit s)

/-- Descendants keep an `ExitType=cgroup` service alive. -/
def cgroupKeeps : Bool × W :=
  if s.exitType = .cgroup ∧ r.stopRequested = false ∧ inCgroup then Kernel.treePopulated w name
  else (false, w)

/-- `on_child_exit` of `src/service.rs:1040`. -/
def onChildExit : Bool × UnitRecord × W :=
  match r.loaded.service? with
  | none => (false, r, w)
  | some s =>
    if r.activePid ≠ some exit.pid then (false, r, w)
    else
      let gate := releaseIdleGate r w
      let exited := mainExited gate.1 s exit
      let kept := cgroupKeeps name s r inCgroup gate.2
      if kept.1 then (true, { exited with state := .active }, kept.2)
      else
        let state := stateAfterMainExit r s exit
        let done := teardown name s { exited with state := state } notify inCgroup kept.2
        (true, { done.1 with stopRequested := false }, done.2)

/-- An `ExitType=cgroup` service ends with its cgroup. -/
def onServiceCgroupEmpty : Bool × UnitRecord × W :=
  match r.loaded.service? with
  | none => (false, r, w)
  | some s =>
    if s.exitType ≠ .cgroup ∨ r.tracked ∨ ¬(r.state = .active ∨ r.state = .activating) then
      (false, r, w)
    else
      let populated := if inCgroup then Kernel.treePopulated w name else (false, w)
      if populated.1 then (false, r, populated.2)
      else
        let state := if r.stopRequested ∨ r.serviceResult = .success then .inactive else .failed
        let done := teardown name s { r with state := state } notify inCgroup populated.2
        (true, { done.1 with stopRequested := false }, done.2)

/-- End of a timed out service no process of which will exit. -/
def finishTimeoutFailure : UnitRecord × W :=
  match r.loaded.service? with
  | none => ({ r with state := .failed, serviceResult := result, stopRequested := false }, w)
  | some s =>
    let gate := releaseIdleGate r w
    let failed := { gate.1 with
      activePid := none
      controlPid := none
      state := .failed
      serviceResult := result }
    let done := teardown name s failed notify inCgroup gate.2
    ({ done.1 with stopRequested := false }, done.2)

/-- A timed out service without tracked processes ends with its cgroup. -/
def onTimeoutCgroupEmpty : Bool × UnitRecord × W :=
  if r.state ≠ .deactivating ∨ r.tracked ∨
      ¬(r.serviceResult = .timeout ∨ r.serviceResult = .watchdog) then (false, r, w)
  else (true, finishTimeoutFailure name r r.serviceResult notify inCgroup w)

end Rustd.Service
