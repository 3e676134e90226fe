import Rustd.Service.Kernel

/-!
# Observed surroundings

Any surroundings, with a record of the signals that were sent and of the event sources that timer
and path units have in the event loop. Sources are numbered as in `src/event/loop_.rs`: each
registration takes the next number, and removing an inotify source drops it even when the call
fails.
-/

namespace Rustd.Service

open UnitFile

inductive Signal where
  | process (pid signal : Int)
  | group (name : String) (signal : Int) (excluded : List Int)
  deriving DecidableEq

structure Observed (W : Type) where
  world : W
  signals : List Signal := []
  nextSource : Nat := 1
  sources : List (Nat × String) := []

namespace Observed

variable {W : Type} {α : Type} (w : Observed W) (name : String)

def pass (out : α × W) : α × Observed W :=
  (out.1, { w with world := out.2 })

def register (out : Except String Nat × W) : Except String Nat × Observed W :=
  (out.1.map (fun _ => w.nextSource), { w with world := out.2, nextSource := w.nextSource + 1 })

def own (source : Nat) (out : Except String α × Observed W) : Except String α × Observed W :=
  match out.1 with
  | .ok a => (.ok a, { out.2 with sources := out.2.sources ++ [(source, name)] })
  | .error error => (.error error, out.2)

def sourcesOf : List Nat :=
  (w.sources.filter (·.2 = name)).map Prod.fst

variable [Kernel W]

instance : Kernel (Observed W) where
  loadUnit w name := w.pass (Kernel.loadUnit w.world name)
  answers w := Kernel.answers w.world
  unitRank w := Kernel.unitRank w.world
  pidRank w := Kernel.pidRank w.world
  stackDepth w := Kernel.stackDepth w.world
  runCommand w launch := w.pass (Kernel.runCommand w.world launch)
  spawnCommand w launch := w.pass (Kernel.spawnCommand w.world launch)
  kill w pid signal :=
    let out := w.pass (Kernel.kill w.world pid signal)
    (out.1, { out.2 with signals := out.2.signals ++ [.process pid signal] })
  parentPid w := Kernel.parentPid w.world
  closeFd w fd := { w with world := Kernel.closeFd w.world fd }
  allocateUser w name := w.pass (Kernel.allocateUser w.world name)
  dropUser w user := { w with world := Kernel.dropUser w.world user }
  prepareDirectories w name user := w.pass (Kernel.prepareDirectories w.world name user)
  randomId w := w.pass (Kernel.randomId w.world)
  readPidFile w name path := w.pass (Kernel.readPidFile w.world name path)
  removePidFile w path := { w with world := Kernel.removePidFile w.world path }
  procsExist w name := w.pass (Kernel.procsExist w.world name)
  createCgroup w name := w.pass (Kernel.createCgroup w.world name)
  applyResourceControl w name := w.pass (Kernel.applyResourceControl w.world name)
  treePopulated w name := w.pass (Kernel.treePopulated w.world name)
  guessMainPid w name := w.pass (Kernel.guessMainPid w.world name)
  signalUnit w name signal excluded :=
    let out := w.pass (Kernel.signalUnit w.world name signal excluded)
    (out.1, { out.2 with signals := out.2.signals ++ [.group name signal excluded] })
  attachPid w name pid := w.pass (Kernel.attachPid w.world name pid)
  isUnitPopulated w name := w.pass (Kernel.isUnitPopulated w.world name)
  removeCgroup w name := { w with world := Kernel.removeCgroup w.world name }
  monotonic w := w.pass (Kernel.monotonic w.world)
  realtime w := w.pass (Kernel.realtime w.world)
  instant w := w.pass (Kernel.instant w.world)
  addTimer w delay := w.register (Kernel.addTimer w.world delay)
  removeTimer w source := { w with world := Kernel.removeTimer w.world source }
  openSocket w name := w.pass (Kernel.openSocket w.world name)
  closeSocket w name := { w with world := Kernel.closeSocket w.world name }
  setIoEnabled w source enabled := { w with world := Kernel.setIoEnabled w.world source enabled }
  addTrigger w name target delay :=
    own name w.nextSource (w.register (Kernel.addTrigger w.world name target delay))
  watchPaths w name :=
    let out := Kernel.watchPaths w.world name
    own name w.nextSource (out.1.map (fun watched => (w.nextSource, watched.2)),
      { w with world := out.2, nextSource := w.nextSource + 1 })
  removeInotify w source :=
    let out := w.pass (Kernel.removeInotify w.world source)
    (out.1, { out.2 with sources := out.2.sources.filter (·.1 ≠ source) })
  mount w name := w.pass (Kernel.mount w.world name)
  unmount w name := w.pass (Kernel.unmount w.world name)
  swapOn w name := w.pass (Kernel.swapOn w.world name)
  swapOff w name := w.pass (Kernel.swapOff w.world name)
  restartCurve := Kernel.restartCurve W

end Observed
end Rustd.Service
