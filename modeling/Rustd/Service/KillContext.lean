import Rustd.Service.Record

/-!
# Service kill policy

Embedding of `src/kill_context.rs`: which signal an operation sends, to the tracked processes
and to the other members of the unit cgroup, and how many processes it reached.
-/

namespace Rustd.Service

open UnitFile

variable {W : Type} [Kernel W]

/-- Reason a service is signalled. -/
inductive KillOperation where
  | terminate
  | restart
  | kill
  | watchdog
  deriving DecidableEq

/-- Signals in effect for a service. -/
structure KillPolicy where
  mode : KillMode
  killSignal : Int
  restartKillSignal : Int
  finalKillSignal : Int
  watchdogSignal : Int
  sendSigkill : Bool
  sendSighup : Bool
  deriving DecidableEq

namespace KillPolicy

/-- Configured signals with their defaults. -/
def fromService (s : ServiceSection) : KillPolicy :=
  let killSignal := s.killSignal.getD sigterm
  { mode := s.killMode
    killSignal := killSignal
    restartKillSignal := s.restartKillSignal.getD killSignal
    finalKillSignal := s.finalKillSignal.getD sigkill
    watchdogSignal := s.watchdogSignal.getD sigabrt
    sendSigkill := s.sendSigkill.getD true
    sendSighup := s.sendSighup }

variable (policy : KillPolicy) (operation : KillOperation)

/-- The signal an operation sends, if any. -/
def signal : Option Int :=
  if policy.mode = .none then none
  else match operation with
    | .terminate => some policy.killSignal
    | .restart => some policy.restartKillSignal
    | .kill => if policy.sendSigkill then some policy.finalKillSignal else none
    | .watchdog => some policy.watchdogSignal

/-- `SIGHUP` follows the signal. -/
def sendHup : Bool :=
  policy.sendSighup && (operation == .terminate || operation == .restart)

/-- The operation signals the whole cgroup. -/
def signalGroup : Bool :=
  policy.mode == .controlGroup || (policy.mode == .mixed && operation == .kill)

end KillPolicy

/-- The signalling loop over the tracked processes. -/
def signalEach (policy : KillPolicy) (operation : KillOperation) (signal : Int) :
    List Int → Option Int → Nat → W → Nat × W
  | [], _, sent, w => (sent, w)
  | pid :: rest, seen, sent, w =>
    if pid ≤ 0 ∨ seen = some pid then signalEach policy operation signal rest seen sent w
    else
      let killed := Kernel.kill w pid signal
      let w := if policy.sendHup operation then (Kernel.kill killed.2 pid sighup).2 else killed.2
      signalEach policy operation signal rest (some pid) (if killed.1 then sent + 1 else sent) w

/-- Signal the tracked processes; how many were reached. -/
def signalPrimary (policy : KillPolicy) (mainPid controlPid : Option Int)
    (operation : KillOperation) (w : W) : Nat × W :=
  match policy.signal operation with
  | none => (0, w)
  | some signal =>
    signalEach policy operation signal ([mainPid, controlPid].filterMap id) none 0 w

/-- Signal the other members of the unit cgroup. -/
def signalCgroupMembers (name : String) (policy : KillPolicy) (mainPid controlPid : Option Int)
    (operation : KillOperation) (w : W) : Except String Nat × W :=
  match policy.signal operation with
  | none => (.ok 0, w)
  | some signal =>
    if !policy.signalGroup operation then (.ok 0, w)
    else
      let excluded := [mainPid, controlPid].filterMap id
      let first := Kernel.signalUnit w name signal excluded
      match first.1 with
      | .error error => (.error error, first.2)
      | .ok sent =>
        if policy.sendHup operation then
          let second := Kernel.signalUnit first.2 name sighup excluded
          match second.1 with
          | .error error => (.error error, second.2)
          | .ok more => (.ok (sent + more), second.2)
        else (.ok sent, first.2)

end Rustd.Service
