import Rustd.Service.Record

/-!
# Notification server

Embedding of `NotifyServer` in `src/notify.rs:83–320`: which unit a datagram belongs to, and
how the registrations it is looked up in change. A datagram is its sender and the message
parsed from it.
-/

namespace Rustd.Service

open UnitFile

/-- A parsed notification. -/
structure NotifyMessage where
  ready : Bool := false
  stopping : Bool := false
  watchdog : Bool := false
  status : Option String := none
  errno : Option Int := none
  mainPid : Option Int := none
  deriving DecidableEq

/-- A notification attributed to a unit. -/
structure NotifyEvent where
  unitName : String
  senderPid : Int
  message : NotifyMessage
  deriving DecidableEq

/-- The unit and the access a main process is registered with. -/
structure Registration where
  unitName : String
  access : NotifyAccess
  mainPid : Int
  deriving DecidableEq

/-- State shared by the server and its socket handler. -/
structure NotifyState where
  registrations : Std.ExtTreeMap Int Registration := ∅
  pending : List NotifyEvent := []
  deferred : List (Int × NotifyMessage) := []

/-- Datagrams kept for senders that are not registered yet. -/
def deferredNotifyLimit : Nat := 256

namespace NotifyState

variable (n : NotifyState) (pid : Int)

/-- Register the main process of a unit and release what it already sent. -/
def registerPid (unitName : String) (access : NotifyAccess) : NotifyState :=
  if pid ≤ 0 ∨ access = .none then n
  else
    { registrations := n.registrations.insert pid ⟨unitName, access, pid⟩
      pending := n.pending ++
        (n.deferred.filter (·.1 == pid)).map (fun d => ⟨unitName, d.1, d.2⟩)
      deferred := n.deferred.filter (·.1 != pid) }

/-- Move a registration to another main process. -/
def replacePid (oldPid newPid : Int) : NotifyState :=
  if oldPid = newPid ∨ newPid ≤ 0 then n
  else match n.registrations[oldPid]? with
    | none => n
    | some registration =>
      { n with
        registrations :=
          (n.registrations.erase oldPid).insert newPid { registration with mainPid := newPid } }

/-- `NotifyServer::unregister_pid` of `src/notify.rs:208`. -/
def unregisterPid : NotifyState :=
  { n with registrations := n.registrations.erase pid }

/-- Take the attributed events. -/
def drainEvents : List NotifyEvent × NotifyState :=
  (n.pending, { n with pending := [] })

end NotifyState

section

variable {W : Type} [Kernel W]

/-- The walk up the process tree, with the number of steps left. -/
def descends (w : W) (ancestor : Int) : Nat → Int → Bool
  | 0, _ => false
  | fuel + 1, pid =>
    if pid = ancestor then true
    else match Kernel.parentPid w pid with
      | none => false
      | some parent => if parent ≤ 0 ∨ parent = pid then false else descends w ancestor fuel parent

variable (n : NotifyState) (w : W)

/-- `is_descendant_of` of `src/notify.rs:290`. -/
def isDescendantOf (pid ancestor : Int) : Bool :=
  if pid ≤ 0 ∨ ancestor ≤ 0 then false else descends w ancestor 128 pid

def NotifyState.walk : List Registration :=
  ((n.registrations.toList).insertionSort (fun a b =>
    Kernel.pidRank w a.1 ≤ Kernel.pidRank w b.1)).map Prod.snd

/-- The unit a sender speaks for. -/
def authorizedUnit (n : NotifyState) (senderPid : Int) : Option String :=
  match n.registrations[senderPid]? with
  | some registration => some registration.unitName
  | none =>
    ((n.walk w).find? (fun registration =>
      (registration.access == .exec || registration.access == .all) &&
        isDescendantOf w senderPid registration.mainPid)).map Registration.unitName

/-- Part of `NotifyIoHandler::on_io`, `src/notify.rs:240`. -/
def NotifyState.receive (senderPid : Int) (message : NotifyMessage) : NotifyState :=
  match authorizedUnit w n senderPid with
  | some unitName => { n with pending := n.pending ++ [⟨unitName, senderPid, message⟩] }
  | none =>
    { n with
      deferred := (if n.deferred.length = deferredNotifyLimit then n.deferred.drop 1
        else n.deferred) ++ [(senderPid, message)] }

theorem authorizedUnit_of_registered (w : W) (n : NotifyState) (pid : Int)
    (reg : Registration) (h : n.registrations[pid]? = some reg) :
    authorizedUnit w n pid = some reg.unitName := by
  rw [authorizedUnit, h]

end
end Rustd.Service
