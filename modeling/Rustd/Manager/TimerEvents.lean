import Rustd.Manager.Stops

/-!
# Timer events

A service timer that fires pushes an event into a list that is drained later in the turn, so its
unit may have another timer by then, or none.
-/

namespace Rustd.Manager

open Base Service UnitFile Jobs

variable {W : Type} (m : Manager W) (event : TimeoutEvent)

def registeredTimer : Option Nat :=
  match event.phase with
  | .start => m.startTimeouts[event.unitName]?
  | .stop | .abort => m.stopTimeouts[event.unitName]?

def Registered : Prop :=
  m.registeredTimer event = some event.sourceId

structure Inert (m m' : Manager W) : Prop where
  units : m'.units = m.units
  startTimeouts : m'.startTimeouts = m.startTimeouts
  stopTimeouts : m'.stopTimeouts = m.stopTimeouts
  world : m'.world = m.world

private theorem takeTimeout_fst (m : Manager W) (event : TimeoutEvent) :
    (m.takeTimeout event).1 = true ↔ m.Registered event := by
  unfold takeTimeout Registered registeredTimer
  cases event.phase <;> exact beq_iff_eq

private theorem inert_takeTimeout_iff (m : Manager W) (event : TimeoutEvent) :
    Inert m (m.takeTimeout event).2 ↔ m.registeredTimer event = none := by
  have her : ∀ t : Std.ExtTreeMap String Nat,
      t.erase event.unitName = t ↔ t[event.unitName]? = none := by
    intro t
    constructor
    · intro h
      rw [← h]
      simp
    intro h
    ext1 name
    rw [Std.ExtTreeMap.getElem?_erase]
    split
    · next heq =>
      obtain rfl : event.unitName = name := by simpa using heq
      exact h.symm
    · rfl
  unfold takeTimeout registeredTimer
  cases event.phase with
  | start =>
    exact ⟨fun h => (her _).mp h.startTimeouts, fun h => ⟨rfl, (her _).mpr h, rfl, rfl⟩⟩
  | stop | abort =>
    exact ⟨fun h => (her _).mp h.stopTimeouts, fun h => ⟨rfl, rfl, (her _).mpr h, rfl⟩⟩

variable [Kernel W] (m : Manager W) (event : TimeoutEvent)

def withoutTimer : Manager W :=
  (m.takeTimeout event).2.tell (Kernel.removeTimer · event.sourceId)

/-- The deadline of an event passes. -/
def applyDeadline : Manager W :=
  match event.phase with
  | .start => m.applyStartDeadline event.unitName
  | .stop => m.applyStopDeadline event.unitName
  | .abort => m.applyAbortDeadline event.unitName

/-- A deadline is handled exactly if its timer is registered. -/
def TimeoutHandled : Event → Prop
  | .timeout event =>
    (m.Registered event → m.step (.timeout event) = (m.withoutTimer event).applyDeadline event) ∧
      (¬m.Registered event → Inert m (m.step (.timeout event)))
  | _ => True

/-- The timer was not replaced by a later one. -/
def Unreplaced : Event → Prop
  | .timeout event => m.registeredTimer event = none ∨ m.Registered event
  | _ => True

private theorem timeoutHandled_iff (m : Manager W) (e : Event) :
    m.TimeoutHandled e ↔ m.Unreplaced e := by
  cases e with
  | timeout event =>
    have htk : (m.takeTimeout event).1 = true ↔ m.Registered event := takeTimeout_fst m event
    simp only [TimeoutHandled, Unreplaced, step, applyServiceTimeoutEvent]
    cases htoo : (m.takeTimeout event).1 with
    | true =>
      have hrg := htk.mp htoo
      simp only [Bool.not_true, Bool.false_eq_true, if_false, hrg, not_true, or_true, iff_true]
      exact ⟨fun _ => rfl, fun h => absurd h id⟩
    | false =>
      have hst : ¬m.Registered event := fun h => by simp [htk.mpr h] at htoo
      simp only [Bool.not_false, if_true, hst, false_imp_iff, not_false_eq_true, true_imp_iff,
        true_and, or_false]
      exact inert_takeTimeout_iff m event
  | _ => exact Iff.rfl

/-- In a history of the manager every fired timer is handled as it should be exactly when none
was replaced after it fired. -/
theorem timeouts_handled_iff_unreplaced (m : Manager W) (events : List Event) :
    AllSteps step TimeoutHandled m events ↔ AllSteps step Unreplaced m events :=
  allSteps_congr timeoutHandled_iff m events

/-- The stop timer of a service fires, and before its event is handled an out-of-memory kill
makes the manager stop the service again, with a new timer. The old event then takes the
registration of the new timer, whose own event is ignored. -/
theorem replaced_timer_unregistered :
    let m := run step (Manager.new (oneService { execStart := [⟨"/bin/a", [], false⟩] }) {} none)
      (runNow .start ++ runNow .stop ++ [.oom "a.service"])
    let m' := m.step (.timeout ⟨"a.service", .stop, 1⟩)
    m.stopTimeouts["a.service"]? = some 2 ∧ m'.stopTimeouts["a.service"]? = none ∧
      m'.stateOf "a.service" = some .deactivating ∧
        (m'.step (.timeout ⟨"a.service", .stop, 2⟩)).units["a.service"]? =
          m'.units["a.service"]? := by
  decide

end Rustd.Manager
