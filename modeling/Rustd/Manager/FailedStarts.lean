import Rustd.Manager.Services

/-!
# Failed starts

A start can fail at many points, before and after the unit is marked as activating. Each leaves the
unit failed or with a tracked process, except the one that draws the invocation identifier: its
error is returned while the unit is activating and nothing has been spawned.
-/

namespace Rustd.Service

open UnitFile

section

variable {W : Type} [Kernel W] {name : String} {s : ServiceSection} {r : UnitRecord}
  {li fds : List Int} {notify nf i cg : Bool} {cmd : ExecCommand}
  {w : W} {error err : String}

def ErrorFails (result : Except String Unit × UnitRecord × W) : Prop :=
  ∀ error, result.1 = .error error → result.2.1.state = .failed

omit [Kernel W] in
private theorem errorFails_activationFailed :
    ErrorFails (activationFailed err r w) := fun _ _ => rfl

omit [Kernel W] in
private theorem errorFails_ok :
    ErrorFails ((.ok (), r, w) : Except String Unit × UnitRecord × W) := by
  intro err h
  cases h

private theorem failed_runStopPost :
    (runStopPost name s { r with state := .failed } nf cg w).1.state = .failed := by
  rcases runStopPost_record name s { r with state := .failed } nf cg w with h | h <;>
    rw [h]

private theorem errorFails_runOneshot (c : List ExecCommand) (w : W) :
    ErrorFails (runOneshot name s fds nf cg r c w) := by
  induction c generalizing w with
  | nil =>
    simp only [runOneshot]
    split
    · exact errorFails_activationFailed
    · split <;> exact errorFails_ok
  | cons cmd l ih =>
    simp only [runOneshot]
    split
    · exact errorFails_activationFailed
    split
    · exact ih _
    · exact fun _ _ => failed_runStopPost

private theorem errorFails_spawnMain (w : W) : ErrorFails (spawnMain name s fds nf cg r cmd w) := by
  simp only [spawnMain]
  split
  · exact fun _ _ => failed_runStopPost
  split
  · exact errorFails_ok
  split
  · exact errorFails_ok
  · exact errorFails_activationFailed

private theorem errorFails_activateAs (usr : Option DynamicUsers.DynamicUser) (w : W) :
    ErrorFails (activateAs name s fds nf cg r cmd usr w) := by
  simp only [activateAs]
  split
  · exact errorFails_activationFailed
  split
  · exact errorFails_activationFailed
  · exact errorFails_ok
  split
  · exact errorFails_activationFailed
  · split
    · exact errorFails_runOneshot _ _
    · exact errorFails_spawnMain _

private theorem errorFails_activateService (w : W) :
    ErrorFails (activateService name s fds nf cg r w) := by
  simp only [activateService]
  split
  · exact errorFails_activationFailed
  split
  · exact errorFails_activationFailed
  split
  · exact errorFails_activationFailed
  · split
    · exact errorFails_activationFailed
    · exact errorFails_activateAs _ _

private theorem errorFails_activate (hs : r.loaded.service? = some s) :
    ErrorFails (activate name r fds nf cg w) := by
  simp only [activate, releaseIdleGate_record, hs]
  split
  · exact errorFails_ok
  · exact errorFails_activateService _

end

end Rustd.Service

namespace Rustd.Manager

open Base Service UnitFile Option

variable {W : Type} [Kernel W] (m : Manager W) (name : String)

def StuckStart : Prop :=
  ∃ r, m.units[name]? = some r ∧ r.state = .activating ∧ r.tracked = false

/-- A failed start leaves no unit in its start. -/
def FailureSettles (result : Except String Unit × Manager W) : Prop :=
  ∀ error, result.1 = .error error → ¬result.2.StuckStart name

/-- The world in which the identifier of an invocation is drawn, if the start gets there. -/
def invocationWorld : Option W :=
  let prepared := (m.markActivating name).prepareServiceCgroup name
  if m.units[name]?.any (fun r => r.state == .inactive || r.state == .failed) then
    match prepared.1 with
    | .error _ => none
    | .ok _ => some ((prepared.2.ask Kernel.monotonic).2.ask Kernel.realtime).2.world
  else none

section

variable {m : Manager W} {name : String} {r : UnitRecord}

omit [Kernel W] in
private theorem not_stuckStart_of_failed (hr : m.units[name]? = some r) (h : r.state = .failed) :
    ¬m.StuckStart name := by
  rintro ⟨r', hr', hst, -⟩
  cases hr.symm.trans hr'
  rw [h] at hst
  cases hst

omit [Kernel W] in
private theorem not_stuckStart_of_tracked (hr : m.units[name]? = some r) (h : r.tracked = true) :
    ¬m.StuckStart name := by
  rintro ⟨r', hr', -, htr⟩
  cases hr.symm.trans hr'
  rw [h] at htr
  cases htr

omit [Kernel W] in
private theorem not_stuckStart_failResources : ¬(m.failResources name).StuckStart name := by
  rintro ⟨r, hr, hst, -⟩
  rw [failResources, getElem?_update, if_pos rfl] at hr
  obtain ⟨r', -, rfl⟩ := map_eq_some_iff.mp hr
  cases hst

variable {error err : String} {startTimeout tm : Nat} {watchdog wd : Option Nat}
  {access ac : Option NotifyAccess} {i cg re : Bool}

private theorem settles_prepareServiceCgroup (h : (m.prepareServiceCgroup name).1 = .error err) :
    ¬(m.prepareServiceCgroup name).2.StuckStart name := by
  revert h
  simp only [prepareServiceCgroup]
  split
  · split
    · exact fun _ => not_stuckStart_failResources
    · intro h
      cases h
  split
  · split
    · exact fun _ => not_stuckStart_failResources
    · intro h
      cases h
  · intro h
    cases h

private theorem units_prepareServiceCgroup (h : (m.prepareServiceCgroup name).1 = .ok v) :
    (m.prepareServiceCgroup name).2.units = m.units := by
  revert h
  simp only [prepareServiceCgroup]
  split
  · split
    · intro h
      cases h
    · exact fun _ => rfl
  split
  · split
    · intro h
      cases h
    · exact fun _ => units_cleanupUnitCgroupIfEmpty _ name
  · exact fun _ => rfl

private theorem stuckStart_assignInvocation (hr : m.units[name]? = some r)
    (hatv : r.state = .activating) (h : (m.assignInvocation name).1 = .error err) :
    (m.assignInvocation name).2.StuckStart name ↔ r.tracked = false := by
  have hun : (m.assignInvocation name).2.units[name]? =
      some (stampStart ((m.ask Kernel.monotonic).1.getD 0)
        ((m.ask Kernel.monotonic).2.ask Kernel.realtime).1 r) := by
    revert h
    simp only [assignInvocation]
    split
    · intro _
      simp [Manager.ask, getElem?_update, hr]
    · intro h
      cases h
  constructor
  · rintro ⟨r', hr', -, htr⟩
    cases hun.symm.trans hr'
    exact htr
  · exact fun htr => ⟨_, hun, hatv, htr⟩

private theorem isOk_assignInvocation (m : Manager W) (name : String) :
    (m.assignInvocation name).1.isOk = (Kernel.randomId
      ((m.ask Kernel.monotonic).2.ask Kernel.realtime).2.world).1.isOk := by
  have hwo : ∀ (m : Manager W) (f : UnitRecord → UnitRecord),
      (m.update name f).world = m.world := by
    intro m f
    unfold Manager.update
    split <;> rfl
  rw [← hwo _ (stampStart ((m.ask Kernel.monotonic).1.getD 0)
    ((m.ask Kernel.monotonic).2.ask Kernel.realtime).1)]
  simp only [assignInvocation]
  split
  · rename_i error h
    have h : (Kernel.randomId _).1 = .error error := h
    rw [h]
    rfl
  rename_i value h
  have h : (Kernel.randomId _).1 = .ok value := h
  rw [h]
  rfl

private theorem settles_superviseStart (hr : m.units[name]? = some r)
    (htr : r.tracked = true) : FailureSettles name (m.superviseStart name st wd tm) := by
  unfold superviseStart
  intro err
  split
  · dsimp only
    split
    · exact fun _ => not_stuckStart_of_tracked hr htr
    · intro h
      cases h
  · split
    · intro h
      cases h
    · intro h
      cases h

private theorem settles_adoptStarted (hr : m.units[name]? = some r) :
    FailureSettles name (m.adoptStarted name r re cg ac wd tm) := by
  unfold adoptStarted
  cases hpid : r.activePid.or r.controlPid with
  | none =>
    intro err h
    cases h
  | some pid =>
    have htr : r.tracked = true := by
      rw [UnitRecord.tracked, ← isSome_or, hpid, isSome_some]
    dsimp only
    split
    · exact fun _ _ => not_stuckStart_failResources
    · refine settles_superviseStart ?_ htr
      split <;> split <;> exact hr

private theorem settles_activateUnit {notify : Bool} (hr : m.units[name]? = some r)
    (hs : r.loaded.service?.isSome = true) :
    FailureSettles name (m.activateUnit name li notify re i access watchdog startTimeout) := by
  obtain ⟨s, hs⟩ := isSome_iff_exists.mp hs
  have hfai : ErrorFails (activate name r li notify i m.world) := errorFails_activate hs
  have hac : (m.apply name (.error s!"unit '{name}' not in registry")
      (fun r w => activate name r li notify i w)).1 =
        (activate name r li notify i m.world).1 ∧
      (m.apply name (.error s!"unit '{name}' not in registry")
        (fun r w => activate name r li notify i w)).2.units[name]? =
        some (activate name r li notify i m.world).2.1 := by
    rw [Manager.apply, hr]
    simp
  obtain ⟨hre, hunt⟩ := hac
  unfold activateUnit
  cases hout : (activate name r li notify i m.world).1 with
  | error a =>
    simp only [hre, hout]
    intro error _
    refine not_stuckStart_of_failed ?_ (hfai a hout)
    rw [units_cleanupUnitCgroupIfEmpty, hunt]
  | ok =>
    simp only [hre, hout, hunt]
    exact settles_adoptStarted hunt

end

/-- A start of a service that reports an error never leaves the unit stuck, exactly when the
identifier of the invocation can be drawn, if it comes to that, or the unit still has a tracked
process. -/
theorem failed_start_settles_iff (m : Manager W) (name : String) (notify : Bool)
    (access : Option NotifyAccess) (watchdog : Option Nat) (startTimeout : Nat) (r : UnitRecord)
    (hr : m.units[name]? = some r) (hs : r.loaded.isService = true) :
    FailureSettles name (m.startService name notify access watchdog startTimeout) ↔
      ∀ w ∈ m.invocationWorld name, (Kernel.randomId w).1.isOk = true ∨ r.tracked = true := by
  by_cases hstr : m.units[name]?.any (fun r => r.state == .inactive || r.state == .failed) = true
  · have hmarked : (m.markActivating name).units[name]? = some { r with state := .activating } := by
      rw [markActivating, getElem?_update, if_pos rfl, units_cancelStartTimeout, hr, map_some]
    cases hpp : ((m.markActivating name).prepareServiceCgroup name).1 with
    | error error =>
      have hnn : m.invocationWorld name = none := by
        simp only [invocationWorld, hstr, if_true, hpp]
      have hse := settles_prepareServiceCgroup hpp
      simp only [startService, hstr, Bool.not_true, Bool.false_eq_true, if_false, hpp, hnn]
      exact iff_of_true (fun _ _ => hse) (fun _ hw => by cases hw)
    | ok v =>
      have hunt : ((m.markActivating name).prepareServiceCgroup name).2.units[name]? =
          some { r with state := .activating } := by
        rw [units_prepareServiceCgroup hpp, hmarked]
      have hwo : m.invocationWorld name =
          some ((((m.markActivating name).prepareServiceCgroup name).2.ask Kernel.monotonic).2.ask
            Kernel.realtime).2.world := by
        simp only [invocationWorld, hstr, if_true, hpp]
      have hdr := isOk_assignInvocation ((m.markActivating name).prepareServiceCgroup name).2 name
      simp only [startService, hstr, Bool.not_true, Bool.false_eq_true, if_false, hpp,
        hwo, mem_some, forall_eq', ← hdr]
      cases hid :
          (((m.markActivating name).prepareServiceCgroup name).2.assignInvocation name).1 with
      | error error =>
        have hstc := stuckStart_assignInvocation hunt rfl hid
        have htr : ({ r with state := .activating } : UnitRecord).tracked = r.tracked := rfl
        rw [htr] at hstc
        simp only [Except.isOk, Except.toBool, Bool.false_eq_true, false_or]
        constructor
        · intro hse
          rw [← Bool.not_eq_false, ← hstc]
          exact hse error rfl
        intro hpr _ _
        rw [hstc, hpr]
        simp
      | ok =>
        obtain ⟨r', hr', hsrt⟩ := (starts_assignInvocation _ name
          (keptByStart_counted r.loaded r.restartCount)).started _ hunt ⟨⟨rfl, by simp⟩, rfl⟩
        refine iff_of_true ?_ (.inl rfl)
        exact settles_activateUnit hr' (by rw [hsrt.1.1]; exact hs)
  · have hnn : m.invocationWorld name = none := if_neg hstr
    have hidl : m.startService name notify access watchdog startTimeout = (.ok (), m) := by
      simp only [startService, Bool.not_eq_true _ |>.mp hstr, Bool.not_false, if_true]
    rw [hnn, hidl]
    exact iff_of_true (fun _ h => by cases h) (fun _ hw => by cases hw)

def freshService : UnitRecord where
  loaded := .service {} { execStart := [{ path := "/bin/true" }] }

def loneService (world : W) : Manager W :=
  { Manager.new world {} none with
    units := (∅ : Std.ExtTreeMap String UnitRecord).insert "a.service" freshService }

/-- A process that cannot be spawned fails its unit. -/
theorem failed_start_settles_iff_unspawned :
    ((loneService ({} : Script)).startService "a.service" false none none 90).1 =
        .error "spawn failed" ∧
      FailureSettles "a.service"
        ((loneService ({} : Script)).startService "a.service" false none none 90) := by
  refine ⟨by rfl, (failed_start_settles_iff (loneService ({} : Script)) "a.service" false none none
    90 freshService (by rfl) rfl).mpr ?_⟩
  intro w _
  exact .inl rfl

/-- Surroundings without random numbers, and those of `Script` for everything else. -/
def Unseeded : Type := Script

instance : Kernel Unseeded :=
  { (inferInstance : Kernel Script) with randomId := fun w => (.error "getrandom failed", w) }

def unseeded : Manager Unseeded :=
  loneService (W := Unseeded) ({} : Script)

/-- Without random numbers the start fails and the unit stays activating, with no process. -/
theorem start_without_random_numbers_is_stuck :
    (unseeded.startService "a.service" false none none 90).1 =
        .error "failed to generate invocation ID: getrandom failed" ∧
      (unseeded.startService "a.service" false none none 90).2.StuckStart "a.service" := by
  refine ⟨by rfl, ?_⟩
  exact ⟨_, by rfl, rfl, rfl⟩

end Rustd.Manager
