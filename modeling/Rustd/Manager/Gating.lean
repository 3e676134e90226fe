import Rustd.Manager.Stops

/-!
# Conditions and assertions

`Condition*=` and `Assert*=` settings are to decide whether a unit may be started. The only place
that consults one of the two lists is the activation of services, `src/service.rs:304`.
-/

namespace Rustd.Manager

open Base Service UnitFile Jobs Option

/-- A start job of the unit fails whatever its lists say: an automount, or a path unit without
paths. -/
def neverStarts : LoadedUnit → Bool
  | .automount _ => true
  | .path _ p => p.watches = []
  | _ => false

section

variable {W : Type} [Kernel W] (m : Manager W) (name : String)

/-- The state of a unit after its start job and, for a target, the loop's next look at it. -/
def stateAfterStart : Option UnitState :=
  ((m.runJob .start name).2.tryActivateTarget name).stateOf name

/-- The start job of a unit is recorded as failed. -/
def StartFails : Prop :=
  (∃ error, (m.runJob .start name).1 = .error error) ∨
    (m.runJob .start name).2.immediateJobResult .start name = some .failed

variable (r : UnitRecord)

omit [Kernel W] in
private theorem tryActivateTarget_of_not_target (hr : m.units[name]? = some r)
    (h : r.loaded.isTarget = false) : m.tryActivateTarget name = m := by
  simp [tryActivateTarget, hr, h]

private theorem state_activate_of_conditions (fds : List Int) (nf cg : Bool) (w : W)
    (h : ∀ w : W, allConditionsPass (Kernel.answers w) r.loaded.unitSection = false)
    (hst : r.state ≠ .active) : (activate name r fds nf cg w).2.1.loaded = r.loaded ∧
      (activate name r fds nf cg w).2.1.state ≠ .active := by
  simp only [activate, releaseIdleGate_record, h]
  split
  · exact ⟨rfl, hst⟩
  · exact ⟨rfl, by simp⟩

private theorem state_startService_of_conditions (s : ServiceSection) (hr : m.units[name]? = some r)
    (hs : r.loaded.service? = some s)
    (hc : ∀ w : W, allConditionsPass (Kernel.answers w) r.loaded.unitSection = false)
    (hst : r.state ≠ .active) : m.stateAfterStart name ≠ some .active := by
  have hsta : Starts (fun r' => r'.loaded = r.loaded ∧ r'.state ≠ .active) name m
      (m.runJob .start name).2 := by
    simp only [runJob, runUnitJob, hr, hs, runServiceJob]
    apply starts_startService
    · constructor
      · exact fun _ h => ⟨h.1, by simp⟩
      · exact fun _ h => ⟨h.1, by simp⟩
      · exact fun _ _ _ h => h
      · exact fun _ _ h => h
      · exact fun _ _ _ h => h
    · rintro r' fds cg w ⟨hld, hst'⟩
      rw [← hld] at hc ⊢
      exact state_activate_of_conditions name r' fds _ cg w hc hst'
  obtain ⟨r', hr', hld, hst'⟩ := hsta.started r hr ⟨rfl, hst⟩
  have hta : r'.loaded.isTarget = false := by
    rw [hld]
    cases hkn : r.loaded <;> simp_all [LoadedUnit.isTarget, LoadedUnit.service?]
  rw [stateAfterStart, tryActivateTarget_of_not_target _ name r' hr' hta, stateOf, hr']
  simpa using hst'

private theorem runJob_start_of_neverStarts (hr : m.units[name]? = some r)
    (h : neverStarts r.loaded = true) :
    (∃ err, (m.runJob .start name).1 = .error err) ∧
      m.stateAfterStart name = some r.state := by
  have hjob : ∃ err, m.runJob .start name = (.error err, m) := by
    simp only [runJob, runUnitJob, hr]
    cases hld : r.loaded <;> simp_all [neverStarts, LoadedUnit.service?, startOther, startPath]
  have hta : r.loaded.isTarget = false := by
    cases hld : r.loaded <;> simp_all [neverStarts, LoadedUnit.isTarget]
  obtain ⟨err, hjob⟩ := hjob
  refine ⟨⟨err, by rw [hjob]⟩, ?_⟩
  rw [stateAfterStart, hjob, tryActivateTarget_of_not_target m name r hr hta, stateOf, hr, map_some]

end

/-- In surroundings where every condition and assertion has a fixed answer, a failing list keeps
the unit from becoming active through a start job, and a failing assertion fails the job. -/
def Gated (loaded : LoadedUnit) (answers : ConditionKind → String → Bool) : Prop :=
  ∀ (W : Type) [Kernel W], (∀ w : W, Kernel.answers w = answers) →
    ∀ (m : Manager W) (name : String) (r : UnitRecord), m.units[name]? = some r →
      r.loaded = loaded →
        (allConditionsPass answers loaded.unitSection = false ∨
            allAssertsPass answers loaded.unitSection = false →
          m.stateAfterStart name = some .active → r.state = .active) ∧
        (allAssertsPass answers loaded.unitSection = false → m.StartFails name)

/-- Surroundings with given answers, and those of `Script` to everything else. -/
def Answering (_ : ConditionKind → String → Bool) : Type := Script

instance (answers : ConditionKind → String → Bool) : Kernel (Answering answers) :=
  { (inferInstance : Kernel Script) with answers := fun _ => answers }

def alone (loaded : LoadedUnit) (state : UnitState) (answers : ConditionKind → String → Bool) :
    Manager (Answering answers) :=
  { world := ({ spawned := fun _ => some 10 } : Script)
    units :=
      (∅ : Std.ExtTreeMap String UnitRecord).insert "u" { loaded := loaded, state := state } }

section

variable (loaded ld : LoadedUnit) (answers : ConditionKind → String → Bool)

private theorem getElem?_alone (st : UnitState) : (alone ld st answers).units["u"]? =
    some { loaded := ld, state := st } := by
  simp [alone]

private theorem armTriggers_answering (name tgt : String) (d : List Nat) (w : Answering answers) :
    (armTriggers name tgt d w).1 = .ok () := by
  induction d with
  | nil => rfl
  | cons de d ih => exact ih

private theorem targetState_none (s : String → Option UnitState) (re : List String)
    (h : ∀ dep, s dep = none) : targetState s re = some .active := by
  induction re with
  | nil => rfl
  | cons dep l ih => rw [targetState, h, ih]

/-- On its own, a unit that is no service is set active, or activating if it is a target. -/
private theorem runJob_alone (hservice : ld.isService = false) (hsta : neverStarts ld = false) :
    ∃ m : Manager (Answering answers), m.units = (alone ld .inactive answers).units ∧
      (alone ld .inactive answers).runJob .start "u" =
        (.ok (), m.setState "u" (if ld.isTarget then .activating else .active)) := by
  have hnn : ld.service? = none := by
    simpa [LoadedUnit.isService] using hservice
  simp only [runJob, runUnitJob, getElem?_alone, hnn]
  cases ld with
  | service unit s => cases hnn
  | automount unit => cases hsta
  | socket unit service =>
    refine ⟨_, ?_, rfl⟩
    rfl
  | target unit => exact ⟨_, rfl, rfl⟩
  | timer unit t =>
    refine ⟨((alone (.timer unit t) .inactive answers).ask (armTriggers "u"
      (triggeredUnit "u" t.unit ".timer" "") (triggerDelays t))).2, rfl, ?_⟩
    simp only [startOther, finishAttempt, ask, armTriggers_answering]
    rfl
  | path unit p =>
    have hws : p.watches ≠ [] := by simpa [neverStarts] using hsta
    simp only [startOther, startPath, if_neg hws]
    refine ⟨_, ?_, rfl⟩
    rfl
  | mount | swap | slice | scope => exact ⟨_, rfl, rfl⟩

/-- On its own, a unit that is no service becomes active through its start job, which does not
fail, whatever its lists say. -/
theorem start_alone (hservice : ld.isService = false) (hsta : neverStarts ld = false) :
    (alone ld .inactive answers).stateAfterStart "u" = some .active ∧
      ¬(alone ld .inactive answers).StartFails "u" := by
  obtain ⟨m, hun, hjob⟩ := runJob_alone ld answers hservice hsta
  have hr : m.units["u"]? = some { loaded := ld, state := .inactive } := by
    rw [hun, getElem?_alone]
  simp only [stateAfterStart, StartFails, hjob]
  cases hta : ld.isTarget with
  | false =>
    have hset := getElem?_setState m .active hr
    simp only [Bool.false_eq_true, if_false, immediateJobResult, stateOf, hset,
      tryActivateTarget_of_not_target _ "u" _ hset hta]
    simp
  | true =>
    have hset := getElem?_setState m .activating hr
    have hnn : ∀ dep, (if dep = "u" then none
        else (m.setState "u" .activating).stateOf dep) = none := by
      intro dep
      split
      · rfl
      rename_i hne
      rw [stateOf, getElem?_setState_of_ne _ _ hne, hun]
      simp [alone, Ne.symm hne]
    have htr : (m.setState "u" .activating).tryActivateTarget "u" =
        (m.setState "u" .activating).setState "u" .active := by
      simp only [tryActivateTarget, hset, hta, Bool.not_true, Bool.false_eq_true, if_false,
        targetState_none _ _ hnn]
    simp only [if_true, htr, immediateJobResult, stateOf, hset, getElem?_setState _ .active hset]
    simp

private theorem start_alone_deactivating (hservice : ld.isService = true) :
    ¬(alone ld .deactivating answers).StartFails "u" := by
  obtain ⟨s, hs⟩ := isSome_iff_exists.mp hservice
  have hjob : (alone ld .deactivating answers).runJob .start "u" =
      (.ok (), alone ld .deactivating answers) := by
    simp only [runJob, runUnitJob, getElem?_alone, hs, runServiceJob, startService]
    rfl
  simp [StartFails, hjob, immediateJobResult, stateOf, getElem?_alone]

end

/-- The lists of a unit gate its activation exactly when a failing condition finds a service and
a failing assertion is never met, units that never start apart. -/
theorem start_gated_iff (loaded : LoadedUnit) (answers : ConditionKind → String → Bool) :
    Gated loaded answers ↔
      (allConditionsPass answers loaded.unitSection = false →
        loaded.isService = true ∨ neverStarts loaded = true) ∧
      (allAssertsPass answers loaded.unitSection = false → neverStarts loaded = true) := by
  constructor
  · intro h
    have hga := h (Answering answers) (fun _ => rfl)
    have hic := hga (alone loaded .inactive answers) "u" _
      (getElem?_alone loaded answers .inactive) rfl
    refine ⟨?_, ?_⟩
    · intro hfai
      by_contra hkn
      rw [not_or, Bool.not_eq_true, Bool.not_eq_true] at hkn
      obtain ⟨hav, -⟩ := start_alone loaded answers hkn.1 hkn.2
      cases hic.1 (.inl hfai) hav
    · intro hfai
      by_contra hkn
      rw [Bool.not_eq_true] at hkn
      cases hservice : loaded.isService with
      | true =>
        exact start_alone_deactivating loaded answers hservice
          ((hga _ "u" _ (getElem?_alone loaded answers .deactivating) rfl).2 hfai)
      | false => exact (start_alone loaded answers hservice hkn).2 (hic.2 hfai)
  · rintro ⟨hco, has⟩ W _ han m name r hr rfl
    refine ⟨?_, ?_⟩
    · intro hfai hav
      by_contra hst
      have hca : neverStarts r.loaded = true ∨ r.loaded.isService = true ∧
          allConditionsPass answers r.loaded.unitSection = false := by
        rcases hfai with hfai | hfai
        · exact (hco hfai).symm.imp_right (⟨·, hfai⟩)
        · exact .inl (has hfai)
      rcases hca with hne | ⟨hservice, hfai⟩
      · rw [(runJob_start_of_neverStarts m name r hr hne).2] at hav
        exact hst (some.inj hav)
      obtain ⟨s, hs⟩ := isSome_iff_exists.mp hservice
      refine state_startService_of_conditions m name r s hr hs ?_ hst hav
      intro w
      rw [han w, hfai]
    · intro hfai
      exact .inl (runJob_start_of_neverStarts m name r hr (has hfai)).1

def needsPath : Condition := { kind := .pathExists, value := "/etc/a.conf" }

/-- Where no path exists, a service is started despite its assertion and a timer despite its
condition. -/
theorem failing_lists_ignored :
    let answers : ConditionKind → String → Bool := fun _ _ => false
    let service : LoadedUnit := .service { asserts := [needsPath] }
      { execStart := [⟨"/bin/a", [], false⟩] }
    let timer : LoadedUnit :=
      .timer { conditions := [needsPath] } { onBootSec := some (seconds 60) }
    allAssertsPass answers service.unitSection = false ∧
      (alone service .inactive answers).stateAfterStart "u" = some .active ∧
      ((alone service .inactive answers).runJob .start "u").1 = .ok () ∧
      allConditionsPass answers timer.unitSection = false ∧
      (alone timer .inactive answers).stateAfterStart "u" = some .active := by
  decide

end Rustd.Manager
