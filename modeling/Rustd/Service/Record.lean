import Rustd.Jobs.Registry
import Rustd.Service.Kernel

/-!
# Unit records

Embedding of `UnitRecord`, of the restart policy (`src/restart.rs`, `src/manager.rs:2700–2850`) and
of the exit classification.
-/

namespace Rustd.Service

open UnitFile
open DynamicUsers (DynamicUser)
open Jobs (saturatingSucc)

/-- Result of the most recent service run; the strings of `service_result`. -/
inductive ServiceResult where
  | success
  | resources
  | timeout
  | watchdog
  | coreDump
  | signal
  | exitCode
  | protocol
  | oomKill
  | startLimitHit
  | skipCondition
  deriving DecidableEq

/-- Runtime record of a managed unit. -/
structure UnitRecord where
  loaded : LoadedUnit
  state : UnitState := .inactive
  activePid : Option Int := none
  controlPid : Option Int := none
  stopRequested : Bool := false
  idleGateFd : Option Int := none
  restartCount : Nat := 0
  lastStartNs : Int := 0
  startLimitWindowNs : Int := 0
  startLimitCount : Nat := 0
  dynamicUser : Option DynamicUser := none
  statusText : Option String := none
  statusErrno : Option Int := none
  watchdogTimestampNs : Option Int := none
  watchdogTimestampRealtimeNs : Option Int := none
  execMainStartRealtimeNs : Option Int := none
  execMainStartMonotonicNs : Option Int := none
  execMainExitRealtimeNs : Option Int := none
  execMainExitMonotonicNs : Option Int := none
  watchdogTriggered : Bool := false
  serviceResult : ServiceResult := .success
  execMainCode : Int := 0
  execMainStatus : Int := 0
  invocationId : Option Nat := none
  deriving DecidableEq

variable (curve : Nat → Nat → Nat → Nat → Nat) (r : UnitRecord) (s : ServiceSection)

def UnitRecord.tracked : Bool := r.activePid.isSome || r.controlPid.isSome

/-- `ChildExit` of `src/event/child.rs:11`. -/
structure ChildExit where
  pid : Int
  code : Int
  status : Int
  deriving DecidableEq

def cldExited : Int := 1

def cldKilled : Int := 2

def cldDumped : Int := 3

def sighup : Int := 1

def sigint : Int := 2

def sigabrt : Int := 6

def sigkill : Int := 9

def sigpipe : Int := 13

def sigterm : Int := 15

/-- An exit status list names the exit. -/
def exitStatusSetMatches (words : List ExitStatusWord) (code status : Int) : Bool :=
  words.any (fun word =>
    if code = cldExited then word.asStatus == some status
    else if code = cldKilled ∨ code = cldDumped then word.asSignal == some status
    else false)

variable (exit : ChildExit)

/-- The exit counts as success for this service. -/
def isSuccess (s : ServiceSection) : Bool :=
  if s.execStart.head?.any ExecCommand.ignoreFailure then true
  else if exit.code = cldExited then
    exit.status == 0 || exitStatusSetMatches s.successExitStatus exit.code exit.status
  else if exit.code = cldKilled then
    (s.serviceType != .oneshot && [sighup, sigint, sigterm, sigpipe].contains exit.status) ||
      exitStatusSetMatches s.successExitStatus exit.code exit.status
  else false

/-- The result an unsuccessful exit leaves. -/
def serviceResultFromExit : ServiceResult :=
  if exit.code = cldDumped then .coreDump
  else if exit.code = cldKilled then .signal
  else .exitCode

/-- `Restart=` against a result. -/
def shouldRestartResult (policy : RestartPolicy) (result : ServiceResult) : Bool :=
  match policy with
  | .no => false
  | .always => true
  | .onSuccess => result == .success
  | .onFailure => result != .success && result != .skipCondition
  | .onAbnormal => result != .success && result != .exitCode && result != .skipCondition
  | .onAbort => result == .signal || result == .coreDump
  | .onWatchdog => result == .watchdog

/-- The configuration asks for a restart after this exit. -/
def restartRequested (result : ServiceResult) : Bool :=
  if exitStatusSetMatches s.restartPreventExitStatus exit.code exit.status then false
  else if exitStatusSetMatches s.restartForceExitStatus exit.code exit.status then
    !(s.serviceType == .oneshot && result == .success)
  else shouldRestartResult s.restart result

def i64Max : Int := 2 ^ 63 - 1

def saturatingSub (a b : Int) : Int := max (-(2 ^ 63)) (min i64Max (a - b))

/-- `i64::try_from` of nanoseconds, or the largest `i64`. -/
def nanosI64 (ns : Nat) : Int := min i64Max ns

def seconds (n : Nat) : Nat := n * 1000000000

/-- Delay before an automatic restart. -/
def restartDelayFor (nextRestart : Nat) : Nat :=
  let initial := s.restartSec.getD 100000000
  let steps := s.restartSteps.getD 0
  match s.restartMaxDelaySec with
  | none => initial
  | some maximum =>
    if nextRestart ≤ 1 ∨ steps = 0 ∨ initial = 0 ∨ maximum ≤ initial then initial
    else if steps < nextRestart then maximum
    else min maximum (curve initial maximum (nextRestart - 1) steps)

/-- Delay of the automatic restart this exit is granted, within the start rate limit. -/
def automaticRestartDelayAt (now : Int) : Option Nat × UnitRecord :=
  match r.loaded.service? with
  | none => (none, r)
  | some s =>
    if !restartRequested s exit r.serviceResult then (none, r)
    else
      let nextRestart := saturatingSucc r.restartCount
      let burst := r.loaded.unitSection.startLimitBurst.getD 5
      let interval := r.loaded.unitSection.startLimitIntervalSec.getD (seconds 10)
      let granted (r : UnitRecord) : Option Nat × UnitRecord :=
        (some (restartDelayFor curve s nextRestart), { r with restartCount := nextRestart })
      if 0 < burst ∧ interval ≠ 0 then
        let r := if r.startLimitWindowNs = 0 ∨
            nanosI64 interval ≤ saturatingSub now r.startLimitWindowNs then
          { r with startLimitWindowNs := now, startLimitCount := 0 } else r
        let nextStart := saturatingSucc r.startLimitCount
        if burst < nextStart then
          (none, { r with state := .failed, serviceResult := .startLimitHit })
        else granted { r with startLimitCount := nextStart }
      else granted r

/-- Clear failure state on request. -/
def resetFailedRecord : UnitRecord :=
  { r with
    state := if r.state = .failed ∨ r.state = .maintenance then .inactive else r.state
    restartCount := 0
    lastStartNs := 0
    startLimitWindowNs := 0
    startLimitCount := 0
    watchdogTriggered := false
    serviceResult := .success
    execMainCode := 0
    execMainStatus := 0 }

/-- `effective_notify_access` of `src/manager.rs:2700`. -/
def effectiveNotifyAccess : Option NotifyAccess :=
  if s.notifyAccess ≠ .none ∨ s.watchdogSec.isSome ∨ s.serviceType = .notify ∨
      s.serviceType = .notifyReload then
    some (if s.notifyAccess = .none then .main else s.notifyAccess)
  else none

def UnitRecord.notifyAccess : Option NotifyAccess :=
  r.loaded.service?.bind effectiveNotifyAccess

/-- Watchdog interval in nanoseconds. -/
def watchdogIntervalNs : Option Int :=
  r.loaded.service?.bind (·.watchdogSec.map nanosI64)

/-- The unit is waiting for its `PIDFile=`. -/
def forkingPidFilePending : Bool :=
  match r.loaded.service? with
  | none => false
  | some s => s.serviceType == .forking && s.pidFile != "" && r.state == .activating &&
      r.controlPid.isNone && r.activePid.isNone

/-- The cgroup of the unit must not be removed. -/
def unitCgroupMustRemainRealized : Bool :=
  [UnitState.activating, .deactivating, .failed, .maintenance].contains r.state || r.tracked

end Rustd.Service
