import Mathlib

/-!
# Unit configuration

The part of a loaded unit that the service state machine and the manager read:
`src/unit/mod.rs:31`, `src/unit/section_service.rs`, `src/unit/section_unit.rs` and
`src/unit/loader.rs:36`. Durations are nanoseconds. Settings the source keeps as strings and
only compares with fixed words are enumerations of those words.
-/

namespace Rustd

/-- Unit lifecycle state. -/
inductive UnitState where
  | inactive
  | activating
  | active
  | deactivating
  | failed
  | maintenance
  deriving DecidableEq

namespace UnitFile

/-- `Type=`. -/
inductive ServiceType where
  | simple
  | exec
  | forking
  | oneshot
  | dbus
  | notify
  | notifyReload
  | idle
  deriving DecidableEq

/-- `Restart=`. -/
inductive RestartPolicy where
  | no
  | onSuccess
  | onFailure
  | onAbnormal
  | onWatchdog
  | onAbort
  | always
  deriving DecidableEq

/-- `NotifyAccess=`. -/
inductive NotifyAccess where
  | none
  | main
  | exec
  | all
  deriving DecidableEq

/-- `KillMode=`. -/
inductive KillMode where
  | controlGroup
  | process
  | mixed
  | none
  deriving DecidableEq

/-- `ExitType=`: the source tests for `cgroup`. -/
inductive ExitType where
  | main
  | cgroup
  deriving DecidableEq

/-- `RestartMode=`: the source tests for `direct`. -/
inductive RestartMode where
  | normal
  | direct
  deriving DecidableEq

/-- `TimeoutStartFailureMode=` and `TimeoutStopFailureMode=`: the source tests for `abort`, and
for `kill` at the start deadline. -/
inductive FailureMode where
  | terminate
  | abort
  | kill
  deriving DecidableEq

/-- `OOMPolicy=` as configured; any other word is `unset`. -/
inductive OomSetting where
  | unset
  | continue
  | stop
  | kill
  deriving DecidableEq

/-- One `Exec*=` command with the one flag the state machine reads. -/
structure ExecCommand where
  path : String
  argv : List String := []
  ignoreFailure : Bool := false
  deriving DecidableEq

/-- One word of an exit status list, read as an exit status and as a signal. -/
structure ExitStatusWord where
  asStatus : Option Int
  asSignal : Option Int
  deriving DecidableEq

/-- `[Service]` settings. -/
structure ServiceSection where
  serviceType : ServiceType := .simple
  exitType : ExitType := .main
  restartMode : RestartMode := .normal
  remainAfterExit : Bool := false
  guessMainPid : Bool := true
  pidFile : String := ""
  busName : String := ""
  execCondition : List ExecCommand := []
  execStartPre : List ExecCommand := []
  execStart : List ExecCommand := []
  execStartPost : List ExecCommand := []
  execReload : List ExecCommand := []
  execStop : List ExecCommand := []
  execStopPost : List ExecCommand := []
  restart : RestartPolicy := .no
  restartSec : Option Nat := none
  restartMaxDelaySec : Option Nat := none
  restartSteps : Option Nat := none
  timeoutStartSec : Option Nat := none
  timeoutStopSec : Option Nat := none
  timeoutAbortSec : Option Nat := none
  timeoutStartFailureMode : FailureMode := .terminate
  timeoutStopFailureMode : FailureMode := .terminate
  watchdogSec : Option Nat := none
  killMode : KillMode := .controlGroup
  killSignal : Option Int := none
  restartKillSignal : Option Int := none
  finalKillSignal : Option Int := none
  watchdogSignal : Option Int := none
  sendSigkill : Option Bool := none
  sendSighup : Bool := false
  successExitStatus : List ExitStatusWord := []
  restartPreventExitStatus : List ExitStatusWord := []
  restartForceExitStatus : List ExitStatusWord := []
  notifyAccess : NotifyAccess := .none
  dynamicUser : Bool := false
  oomPolicy : OomSetting := .unset
  resourceControlConfigured : Bool := false
  deriving DecidableEq

/-- What a `Condition*=` or `Assert*=` setting checks. -/
inductive ConditionKind where
  | pathExists
  | pathExistsGlob
  | pathIsDirectory
  | pathIsSymbolicLink
  | pathIsMountPoint
  | pathIsReadWrite
  | pathIsEncrypted
  | directoryNotEmpty
  | virtualization
  | host
  | kernelCommandLine
  | kernelVersion
  | credential
  | environment
  | security
  | capability
  | acPower
  | needsUpdate
  | firstBoot
  | architecture
  | firmware
  | version
  | memory
  | cpus
  | cpuFeature
  | unknown (key : String)
  deriving DecidableEq

/-- One `Condition*=` or `Assert*=` setting. -/
structure Condition where
  kind : ConditionKind
  negate : Bool := false
  trigger : Bool := false
  value : String
  deriving DecidableEq

/-- `[Unit]` settings; `src/unit/section_unit.rs`. -/
structure UnitSection where
  requires : List String := []
  wants : List String := []
  after : List String := []
  before : List String := []
  startLimitBurst : Option Nat := none
  startLimitIntervalSec : Option Nat := none
  allowIsolate : Bool := false
  ignoreOnIsolate : Bool := false
  conditions : List Condition := []
  asserts : List Condition := []
  deriving DecidableEq

variable (answers : ConditionKind → String → Bool) (c : Condition) (unit : UnitSection)

/-- Check a setting, given the answers of the live system; an unknown key always holds. -/
def testCondition : Bool :=
  match c.kind with
  | .unknown _ => true
  | kind => answers kind c.value

/-- `evaluate` of `src/unit/condition.rs:164`. -/
def evaluate : Bool :=
  if c.negate then !testCondition answers c else testCondition answers c

/-- The loop over a list of settings: whether there was a trigger, and whether one passed. -/
def evaluateFrom (answers : ConditionKind → String → Bool) (hasTrigger triggerPassed : Bool) :
    List Condition → Bool
  | [] => !hasTrigger || triggerPassed
  | c :: rest =>
    let passed := evaluate answers c
    if c.trigger then evaluateFrom answers true (triggerPassed || passed) rest
    else if !passed then false
    else evaluateFrom answers hasTrigger triggerPassed rest

/-- `evaluate_list` of `src/unit/condition.rs:175`. -/
def evaluateList (conditions : List Condition) : Bool :=
  evaluateFrom answers false false conditions

/-- `all_conditions_pass` of `src/unit/loader.rs:1029`. -/
def allConditionsPass : Bool :=
  evaluateList answers unit.conditions

/-- `all_asserts_pass` of `src/unit/loader.rs:1035`. -/
def allAssertsPass : Bool :=
  evaluateList answers unit.asserts

/-- `[Timer]` settings: the triggered unit and the four delays the source arms. -/
structure TimerSection where
  unit : String := ""
  onBootSec : Option Nat := none
  onActiveSec : Option Nat := none
  onUnitActiveSec : Option Nat := none
  onUnitInactiveSec : Option Nat := none
  deriving DecidableEq

/-- `[Path]` settings: the triggered unit and the watched paths. -/
structure PathSection where
  unit : String := ""
  watches : List String := []
  deriving DecidableEq

/-- A parsed unit; the manager files it under its name. -/
inductive LoadedUnit where
  | service (unit : UnitSection) (specific : ServiceSection)
  | socket (unit : UnitSection) (service : String)
  | automount (unit : UnitSection)
  | timer (unit : UnitSection) (specific : TimerSection)
  | path (unit : UnitSection) (specific : PathSection)
  | mount (unit : UnitSection)
  | swap (unit : UnitSection)
  | target (unit : UnitSection)
  | slice (unit : UnitSection)
  | scope (unit : UnitSection)
  deriving DecidableEq

namespace LoadedUnit

/-- The `[Unit]` section, common to all unit types. -/
def unitSection : LoadedUnit → UnitSection
  | service unit _ | socket unit _ | automount unit | timer unit _ | path unit _ | mount unit
  | swap unit | target unit | slice unit | scope unit => unit

/-- The `[Service]` section of a service unit. -/
def service? : LoadedUnit → Option ServiceSection
  | service _ specific => some specific
  | _ => none

def isService (loaded : LoadedUnit) : Bool := loaded.service?.isSome

def isTarget : LoadedUnit → Bool
  | target _ => true
  | _ => false

end LoadedUnit
end UnitFile
end Rustd
