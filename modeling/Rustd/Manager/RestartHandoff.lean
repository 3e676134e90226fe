import Rustd.Manager.Reexec
import Rustd.Manager.Rising

/-!
# Armed restarts and the handoff

A manager that is to execute itself again does not save the timers of automatic restarts. It
knows of them only by the restart counts of its units: every armed timer belongs to a unit with a
positive count, unless the failures of the unit were forgotten in between. `Counts name m m'` says
that between two manager states the count of a unit is not forgotten and that a timer was armed
for the unit only together with a positive count.
-/

namespace Rustd.Manager

open Base Service UnitFile Jobs

variable {W : Type}

structure Counts (name : String) (m m' : Manager W) : Prop where
  kept : HasRestarted name m → HasRestarted name m'
  timed : ∀ source, (source, name) ∈ m'.restartTimers →
    (source, name) ∈ m.restartTimers ∨ HasRestarted name m'

section

variable [Kernel W] {name : String} (m : Manager W)

def Forgets (name : String) (m : Manager W) : Event → Prop
  | .resetFailed names => name ∈ m.resetNames names
  | _ => False

private theorem allows_of_not_forgets (e : Event) (h : ¬Forgets name m e) :
    Allows (fun v l _ => ¬(v = name ∧ l = .reset)) m e := by
  cases e with
  | resetFailed ns =>
    rintro v hother r - p - - ⟨rfl, -⟩
    exact h hother
  | dispatch s =>
    rintro j - v l p hmo ⟨-, rfl⟩
    cases hkn : j.kind <;> simp [JobMoves, hkn] at hmo
  | _ => simp [Allows]

private theorem counts_step (e : Event) (h : ¬Forgets name m e) : Counts name m (m.step e) := by
  have htn : Tends (.moves fun v l _ => ¬(v = name ∧ l = .reset)) (m.before e)
      (m.step e) := by
    refine tends_step m e (allows_of_not_forgets m e h) (fun _ _ => trivial) ?_
    cases e <;> simp [Covers, Permits.moves]
  have hrst : ∀ p : Phase, ¬¬(name = name ∧ Label.reset = .reset) := fun _ h => h ⟨rfl, rfl⟩
  have hbf : HasRestarted name (m.before e) ↔ HasRestarted name m := by
    rw [HasRestarted, HasRestarted, units_before]
  refine ⟨fun hres => htn.hasRestarted hrst (hbf.mpr hres), ?_⟩
  intro s hsc
  have hts : (m.before e).restartTimers = m.restartTimers := by cases e <;> rfl
  rw [← hts]
  exact htn.timed name hrst s hsc

private theorem mem_restartTimers_of_resetFailed (us : List String)
    (h : t ∈ (m.resetFailed us).restartTimers) : t ∈ m.restartTimers := by
  have htn : Tends ⟨fun _ _ _ => True, fun _ => True, fun _ => True, fun _ => False,
      fun _ => True⟩ m (m.resetFailed us) :=
    tends_resetFailed m us (fun _ _ _ _ _ _ _ => trivial) (fun _ _ => trivial)
  exact (htn.queues.timed t h).resolve_right id

end

section

variable [Kernel W]

/-- A restart timer of the unit is armed. -/
def RestartArmed (name : String) (m : Manager W) : Prop :=
  ∃ source, (source, name) ∈ m.restartTimers

/-- The manager has queued or running jobs. -/
def HasJobs (m : Manager W) : Prop :=
  ¬(m.jobRegistry.isEmpty = true ∧ m.jobQueue.isEmpty m.jobRegistry = true)

/-- A unit with an armed restart was restarted, as long as its failures are not forgotten
while the timer is armed. -/
theorem hasRestarted_of_armed (w : W) (cfg : Config) (nf : Option NotifyState) (es : List Event)
    (hkp : AllSteps step (fun m e => RestartArmed name m → ¬Forgets name m e)
      (Manager.new w cfg nf) es) :
    RestartArmed name (run step (Manager.new w cfg nf) es) →
      HasRestarted name (run step (Manager.new w cfg nf) es) := by
  apply run_invariant (I := fun m => RestartArmed name m → HasRestarted name m) _ _ _ _ hkp
  · intro m e hm h
    by_cases hamd : RestartArmed name m
    · have hco := counts_step m e (h hamd)
      exact fun _ => hco.kept (hm hamd)
    rintro ⟨s, hsc⟩
    by_cases hfo : Forgets name m e
    · cases e with
      | resetFailed us =>
        exact absurd ⟨s, mem_restartTimers_of_resetFailed m us hsc⟩ hamd
      | _ => cases hfo
    · exact ((counts_step m e hfo).timed s hsc).resolve_left (hamd ⟨s, ·⟩)
  · rintro ⟨s, hsc⟩
    cases hsc

private theorem saveManagerState_eq_error_iff (m : Manager W) {system : HandoffSystem}
    (hwt : system.writeError = none) :
    (∃ error, m.saveManagerState system = .error error) ↔ m.HasJobs ∨
      (∃ name r, m.units[name]? = some r ∧ handoffRefusal name r ≠ none) := by
  have hst : (∃ error, m.saveManagerState system = .error error) ↔
      ¬∃ state, m.handoffState = .ok state := by
    unfold saveManagerState
    cases m.handoffState with
    | error error => simp [Except.bind]
    | ok state => simp [Except.bind, writeState, hwt]
  rw [hst]
  simp only [handoffState_eq_ok_iff, HasJobs]
  constructor
  · intro h
    by_cases hjb : m.jobRegistry.isEmpty = true ∧ m.jobQueue.isEmpty m.jobRegistry = true
    · refine .inr ?_
      by_contra hnn
      refine h ⟨_, hjb.1, hjb.2, ?_, rfl⟩
      intro name r hr
      by_contra hre
      exact hnn ⟨name, r, hr, hre⟩
    · exact .inl hjb
  · rintro (hjb | ⟨name, r, hr, hre⟩) ⟨state, hrgs, hqu, hac, -⟩
    · exact hjb ⟨hrgs, hqu⟩
    · exact hre (hac name r hr)

/-- While a restart is armed for a unit, and unless the failures of the unit were forgotten since
it was armed, the manager refuses to be saved for its jobs, for a unit that cannot be handed
over, for the restarts of another inactive unit, and for the armed restart exactly when the unit
is inactive. -/
theorem armed_restart_refused_iff (w : W) (config : Config) (notify : Option NotifyState)
    (es : List Event) (name : String) (system : HandoffSystem)
    (hkept : AllSteps step (fun m e => RestartArmed name m → ¬Forgets name m e)
      (Manager.new w config notify) es)
    (harmed : RestartArmed name (run step (Manager.new w config notify) es))
    (hwrite : system.writeError = none) :
    let m := run step (Manager.new w config notify) es
    (∃ er, m.saveManagerState system = .error er) ↔ m.HasJobs ∨
      (∃ v r, m.units[v]? = some r ∧ blocksHandoff v r ≠ none) ∨
      (∃ v r, v ≠ name ∧ m.units[v]? = some r ∧ hasRestartHistory r = true) ∨
      m.stateOf name = some .inactive := by
  intro m
  obtain ⟨r, hr, hres⟩ := hasRestarted_of_armed w config notify es hkept harmed
  have hic : m.stateOf name = some .inactive ↔ hasRestartHistory r = true := by
    have hcn : 0 < r.restartCount := hres
    rw [stateOf, show m.units[name]? = some r from hr]
    simp [hasRestartHistory, hcn]
  have hre : ∀ v r', handoffRefusal v r' ≠ none ↔
      blocksHandoff v r' ≠ none ∨ hasRestartHistory r' = true := by
    intro v r'
    rw [handoffRefusal, Ne, Option.or_eq_none_iff, not_and_or]
    split <;> simp_all
  rw [saveManagerState_eq_error_iff m hwrite, hic]
  refine or_congr_right ?_
  constructor
  · rintro ⟨v, r', hr', hrf⟩
    rcases (hre v r').mp hrf with hbk | hhi
    · exact .inl ⟨v, r', hr', hbk⟩
    by_cases heq : v = name
    · subst heq
      obtain rfl := Option.some.inj (hr.symm.trans hr')
      exact .inr (.inr hhi)
    · exact .inr (.inl ⟨v, r', heq, hr', hhi⟩)
  · rintro (⟨v, r', hr', hbk⟩ | ⟨v, r', -, hr', hhi⟩ | hhi)
    · exact ⟨v, r', hr', (hre v r').mpr (.inl hbk)⟩
    · exact ⟨v, r', hr', (hre v r').mpr (.inr hhi)⟩
    · exact ⟨name, r, hr, (hre name r).mpr (.inr hhi)⟩

end

def restartArmed (policy : RestartPolicy) (status : Int) : Manager Script :=
  run step (Manager.new (oneService
    { restart := policy, execStart := [⟨"/bin/a", [], false⟩] }) {} none)
    (runNow .start ++ [.childExit ⟨10, cldExited, status⟩])

/-- A service that exits cleanly is inactive while its restart is armed. -/
theorem armed_restart_refused_inactive :
    ∃ error, (restartArmed .always 0).saveManagerState {} = .error error := by
  have hkp : AllSteps step (fun m e => RestartArmed "a.service" m → ¬Forgets "a.service" m e)
      (Manager.new (oneService { restart := .always, execStart := [⟨"/bin/a", [], false⟩] })
        {} none)
      (runNow .start ++ [.childExit ⟨10, cldExited, 0⟩]) := by
    simp [runNow, AllSteps, Forgets]
  have hamd : RestartArmed "a.service" (restartArmed .always 0) := ⟨1, by decide⟩
  exact (armed_restart_refused_iff _ _ _ _ "a.service" {} hkp hamd rfl).mpr
    (.inr (.inr (.inr (by decide))))

/-- A service that fails is left failed while its restart is armed. The manager is saved, and the
manager that takes over has no timer for the service. -/
theorem armed_restart_lost :
    (restartArmed .onFailure 1).restartTimers = [(1, "a.service")] ∧
      (restartArmed .onFailure 1).stateOf "a.service" = some .failed ∧
      ∃ file m', (restartArmed .onFailure 1).saveManagerState {} = .ok file ∧
        restoreManagerState {} (Manager.new (restartArmed .onFailure 1).world {} none) file =
          .ok m' ∧
        m'.stateOf "a.service" = some .failed ∧ m'.restartTimers = [] := by
  refine ⟨by decide, by decide, _, _, rfl, rfl, by decide, by decide⟩

end Rustd.Manager
