import Rustd.Jobs.Queue
import Rustd.Service.Notify
import Rustd.Service.StateMachine

/-!
# Manager state

The state of `Manager` that its handlers read and write, over the world they call into. Tables
keyed by unit name are maps; the order in which the source walks its hash tables is the world's.
-/

namespace Rustd.Manager

open Jobs Service UnitFile

/-- The manager settings the handlers read; `src/config.rs`. -/
structure Config where
  systemScope : Bool := true
  defaultTimeoutStartSec : Nat := 90
  defaultTimeoutStopSec : Nat := 90
  deriving DecidableEq

/-- Descriptors and event sources of a socket unit. -/
structure SocketRecord where
  listenFds : List Int := []
  sourceIds : List Nat := []
  deriving DecidableEq

/-- Which deadline a service timer stands for. -/
inductive TimeoutPhase where
  | start
  | stop
  | abort
  deriving DecidableEq

/-- A fired service timer. -/
structure TimeoutEvent where
  unitName : String
  phase : TimeoutPhase
  sourceId : Nat
  deriving DecidableEq

end Rustd.Manager

namespace Rustd

open Jobs Service Manager List Option

/-- Manager state. `restartTimers` are the armed timers of `schedule_restart`, which the source
leaves to the event loop. -/
structure Manager (W : Type) where
  world : W
  config : Manager.Config := {}
  units : Std.ExtTreeMap String UnitRecord := ∅
  socketRecords : Std.ExtTreeMap String SocketRecord := ∅
  pathSources : Std.ExtTreeMap String Nat := ∅
  jobQueue : JobQueue := .empty
  sharedQueue : JobQueue := .empty
  jobRegistry : JobRegistry := .default
  notify : Option NotifyState := some {}
  oomStopping : Std.ExtTreeSet String := ∅
  oomRecent : Std.ExtTreeMap String Int := ∅
  startTimeouts : Std.ExtTreeMap String Nat := ∅
  stopTimeouts : Std.ExtTreeMap String Nat := ∅
  restartPending : Std.ExtTreeSet String := ∅
  restartTimers : List (Nat × String) := []
  isolateJobs : Std.ExtTreeMap Nat (Std.ExtTreeSet String) := ∅

namespace Manager

open UnitFile

variable {W : Type} {α : Type} (m : Manager W) (name : String)

def update (f : UnitRecord → UnitRecord) : Manager W :=
  match m.units[name]? with
  | none => m
  | some r => { m with units := m.units.insert name (f r) }

def apply (absent : α) (f : UnitRecord → W → α × UnitRecord × W) : α × Manager W :=
  match m.units[name]? with
  | none => (absent, m)
  | some r =>
    let out := f r m.world
    (out.1, { m with units := m.units.insert name out.2.1, world := out.2.2 })

def ask (f : W → α × W) : α × Manager W :=
  ((f m.world).1, { m with world := (f m.world).2 })

def tell (f : W → W) : Manager W := { m with world := f m.world }

def onNotify (f : NotifyState → NotifyState) : Manager W :=
  { m with notify := m.notify.map f }

def stateOf : Option UnitState :=
  m.units[name]?.map UnitRecord.state

/-- The `[Service]` section of a loaded service. -/
def serviceOf : Option ServiceSection :=
  m.units[name]?.bind (·.loaded.service?)

/-- A notification socket is passed to the commands of the unit. -/
def notifyFor : Bool :=
  m.notify.isSome && (m.units[name]?.bind UnitRecord.notifyAccess).isSome

/-- Unit states, as handed to the dispatcher. -/
def states : Std.ExtTreeMap String UnitState := m.units.map (fun _ r => r.state)

/-- The `After=` map of the loaded units with `Before=` reversed into it. -/
def afters : Afters :=
  let after := m.units.map (fun _ r => r.loaded.unitSection.after)
  let entries := m.units.toList.flatMap
    (fun (name, r) => r.loaded.unitSection.before.map (fun later => (later, name)))
  let all := entries.foldl
    (fun (all : Afters) (later, name) => all.insert later (all.getD later [] ++ [name])) after
  all.map (fun _ dependencies => (dependencies.insertionSort (· ≤ ·)).dedup)

section

variable [Kernel W]

def unitNames (m : Manager W) : List String :=
  m.units.keys.insertionSort (fun a b => Kernel.unitRank m.world a ≤ Kernel.unitRank m.world b)

theorem mem_unitNames (m : Manager W) (name : String) :
    name ∈ m.unitNames ↔ ∃ r, m.units[name]? = some r := by
  rw [unitNames, mem_insertionSort, Std.ExtTreeMap.mem_keys,
    Std.ExtTreeMap.mem_iff_isSome_getElem?, isSome_iff_exists]

theorem nodup_unitNames (m : Manager W) : m.unitNames.Nodup :=
  (perm_insertionSort _ _).nodup_iff.mpr Std.ExtTreeMap.nodup_keys

/-- Load a unit unless it is loaded. -/
def loadUnit (m : Manager W) (name : String) : Except String Unit × Manager W :=
  if m.units.contains name then (.ok (), m)
  else
    let loaded := m.ask (Kernel.loadUnit · name)
    match loaded.1 with
    | .error error => (.error error, loaded.2)
    | .ok unit =>
      (.ok (), { loaded.2 with units := loaded.2.units.insert name { loaded := unit } })

theorem loadUnit_of_some {m : Manager W} {name : String}
    (hr : m.units[name]? = some r) : m.loadUnit name = (.ok (), m) := by
  have hct : m.units.contains name = true := by
    rw [← Std.ExtTreeMap.isSome_getElem?_eq_contains, hr, isSome_some]
  rw [loadUnit, if_pos hct]

end

/-- `Manager::new` of `src/manager.rs:206`. -/
def new (world : W) (config : Manager.Config) (notify : Option NotifyState) : Manager W :=
  { world, config, notify }

end Manager
end Rustd
