import Rustd.DynamicUsers
import Rustd.UnitFile

/-!
# What the manager asks of its surroundings

System calls, the file system, the cgroup tree, the event loop and the clocks, as functions of
an abstract world. An answer comes with the next world, so a world may change between any two
calls and nothing is assumed of the answers. Calls whose result the source drops only return
the next world.
-/

namespace Rustd.Service

open UnitFile
open DynamicUsers (DynamicUser)

/-- Surroundings of the commands of a service. -/
structure LaunchContext where
  unitName : String
  listenFds : List Int
  notify : Bool
  user : Option DynamicUser
  inCgroup : Bool
  invocationId : Option Nat
  deriving DecidableEq

/-- What a service process is started with. The phase is the command list that the command is from;
it is not handed to the system, but a log may keep it. -/
structure Launch where
  context : LaunchContext
  command : ExecCommand
  idle : Bool
  phase : String
  deriving DecidableEq

/-- A started process and the write side of its idle gate. -/
structure SpawnedProcess where
  pid : Int
  idleGateFd : Option Int
  deriving DecidableEq

/-- `PIDFile=` as read: a process, a file that is absent, empty or stale, or an error. -/
inductive PidFile where
  | ready (pid : Int)
  | notReady
  | invalid (error : String)
  deriving DecidableEq

/-- Whether a unit cgroup holds processes; `src/cgroup.rs`. -/
inductive Populated where
  | yes
  | no
  | notFound
  | unreadable
  deriving DecidableEq

/-- The surroundings of the manager. -/
class Kernel (W : Type) where
  /-- Load a unit file and apply the manager's unit defaults. -/
  loadUnit : W → String → Except String LoadedUnit × W
  /-- What the live system answers to a `Condition*=` or `Assert*=` check. -/
  answers : W → ConditionKind → String → Bool
  /-- Position of a unit in the iteration order of the unit table. -/
  unitRank : W → String → Nat
  /-- Position of a process in the iteration order of the registration table. -/
  pidRank : W → Int → Nat
  /-- Nested calls the dependency resolver has room for. -/
  stackDepth : W → Nat
  /-- Spawn a command and wait for it: its exit status, or the signal that ended it. -/
  runCommand : W → Launch → Except String (Option Int × Option Int) × W
  /-- Spawn a command that keeps running. -/
  spawnCommand : W → Launch → Except String SpawnedProcess × W
  /-- `kill(2)`: true when the signal was sent. -/
  kill : W → Int → Int → Bool × W
  /-- `/proc/<pid>/stat`. -/
  parentPid : W → Int → Option Int
  closeFd : W → Int → W
  allocateUser : W → String → Except String DynamicUser × W
  dropUser : W → DynamicUser → W
  prepareDirectories : W → String → Option DynamicUser → Except String Unit × W
  randomId : W → Except String Nat × W
  /-- Read a unit's `PIDFile=` of a given path. -/
  readPidFile : W → String → String → PidFile × W
  removePidFile : W → String → W
  /-- `unit_procs_path(name).exists()`. -/
  procsExist : W → String → Bool × W
  /-- `create_unit_cgroup`; then whether `cgroup.procs` is there. -/
  createCgroup : W → String → Except String Bool × W
  applyResourceControl : W → String → Except String Unit × W
  /-- `cgroup_tree_populated`. -/
  treePopulated : W → String → Bool × W
  guessMainPid : W → String → Option Int × W
  /-- Signal the members of a unit cgroup except some; how many were signalled. -/
  signalUnit : W → String → Int → List Int → Except String Nat × W
  attachPid : W → String → Int → Except String Unit × W
  isUnitPopulated : W → String → Populated × W
  removeCgroup : W → String → W
  monotonic : W → Option Int × W
  realtime : W → Option Int × W
  /-- `Instant::now`. -/
  instant : W → Int × W
  /-- Arm a one-shot timer that fires after some nanoseconds. -/
  addTimer : W → Nat → Except String Nat × W
  removeTimer : W → Nat → W
  /-- Open and register the listeners of a socket unit: descriptors and event sources. -/
  openSocket : W → String → Except String (List Int × List Nat) × W
  closeSocket : W → String → W
  setIoEnabled : W → Nat → Bool → W
  /-- Arm a timer of a timer unit for the unit it triggers. -/
  addTrigger : W → String → String → Nat → Except String Nat × W
  /-- Watch the paths of a path unit: the event source, and whether a condition already holds. -/
  watchPaths : W → String → Except String (Nat × Bool) × W
  removeInotify : W → Nat → Except String Unit × W
  mount : W → String → Except String Unit × W
  unmount : W → String → Except String Unit × W
  swapOn : W → String → Except String Unit × W
  swapOff : W → String → Except String Unit × W
  /-- The floating-point curve of `RestartSteps=`: initial and maximal delay, step, steps. -/
  restartCurve : Nat → Nat → Nat → Nat → Nat

structure Script where
  units : String → Option LoadedUnit := fun _ => none
  spawned : String → Option Int := fun _ => none
  pidFile : PidFile := .notReady
  populated : Bool := false
  members : Nat := 0
  killable : Int → Bool := fun _ => true
  clock : Int := 0
  timer : Option Nat := some 1
  /-- Commands that end with exit status 1. -/
  failing : List String := []

instance : Kernel Script where
  loadUnit w name := (match w.units name with
    | some loaded => .ok loaded
    | none => .error "unit not found", w)
  answers _ _ _ := true
  unitRank _ _ := 0
  pidRank _ _ := 0
  stackDepth _ := 8
  runCommand w launch :=
    (.ok (some (if w.failing.contains launch.command.path then 1 else 0), none), w)
  spawnCommand w launch := (match w.spawned launch.context.unitName with
    | some pid => .ok ⟨pid, none⟩
    | none => .error "spawn failed", w)
  kill w pid _ := (w.killable pid, w)
  parentPid _ _ := none
  closeFd w _ := w
  allocateUser w name := (.ok ⟨61184, name⟩, w)
  dropUser w _ := w
  prepareDirectories w _ _ := (.ok (), w)
  randomId w := (.ok 0, w)
  readPidFile w _ _ := (w.pidFile, w)
  removePidFile w _ := w
  procsExist w _ := (true, w)
  createCgroup w _ := (.ok true, w)
  applyResourceControl w _ := (.ok (), w)
  treePopulated w _ := (w.populated, w)
  guessMainPid w _ := (none, w)
  signalUnit w _ _ _ := (.ok w.members, w)
  attachPid w _ _ := (.ok (), w)
  isUnitPopulated w _ := (if w.populated then .yes else .no, w)
  removeCgroup w _ := w
  monotonic w := (some w.clock, w)
  realtime w := (some w.clock, w)
  instant w := (w.clock, w)
  addTimer w _ := match w.timer with
    | some source => (.ok source, { w with timer := some (source + 1) })
    | none => (.error "timer limit reached", w)
  removeTimer w _ := w
  openSocket w _ := (.ok ([], []), w)
  closeSocket w _ := w
  setIoEnabled w _ _ := w
  addTrigger w _ _ _ := (.ok 0, w)
  watchPaths w _ := (.ok (0, false), w)
  removeInotify w _ := (.ok (), w)
  mount w _ := (.ok (), w)
  unmount w _ := (.ok (), w)
  swapOn w _ := (.ok (), w)
  swapOff w _ := (.ok (), w)
  restartCurve initial _ _ _ := initial

end Rustd.Service
