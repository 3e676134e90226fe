import Rustd.Manager.AutomaticRestarts
import Rustd.Manager.StopWins

/-!
# What brings units up

`Rises raised m m'` says that between two manager states no unit became active or activating,
except for the given ones. Unlike `Evolves` this is about units of every type. The causes for
which a unit comes up are a job, the target of an isolation, and the exit of a process that leaves
its unit active.
-/

namespace Rustd.Manager

open Base Service UnitFile Jobs Option

variable {W : Type} {raised : String → Prop}

def Rises (raised : String → Prop) (m m' : Manager W) : Prop :=
  ∀ (name : String) (r' : UnitRecord), m'.units[name]? = some r' → r'.phase.up →
    raised name ∨ ∃ r, m.units[name]? = some r ∧ r.phase.up

def Permits.raising (raised : String → Prop) : Permits :=
  ⟨fun name l _ => l.raises = true → raised name, raised, fun _ => True, fun _ => True,
    fun _ => True⟩

namespace Rises

variable {m m' m'' : Manager W}

theorem of_units (h : m'.units = m.units) : Rises raised m m' := by
  intro u r' hr' hup
  exact .inr ⟨r', by rw [← h, hr'], hup⟩

theorem trans (h : Rises raised m m') (h' : Rises raised m' m'') : Rises raised m m'' := by
  intro u r'' hr'' hup
  rcases h' u r'' hr'' hup with hra | ⟨r', hr', hup'⟩
  · exact .inl hra
  · exact h u r' hr' hup'

theorem of_tends (h : Tends (.raising raised) m m') : Rises raised m m' := by
  intro u r' hr' hup
  cases hr : m.units[u]? with
  | some r =>
    obtain ⟨r₁, hr₁, hal⟩ := h.loaded u r hr
    cases hr₁.symm.trans hr'
    exact (hal.up (fun _ _ hl => hl) id hup).imp id fun hup => ⟨r, rfl, hup⟩
  | none =>
    -- a loaded unit starts out inactive
    obtain ⟨loaded, hal⟩ := h.fresh u r' hr hr'
    have hdw : ¬({ loaded } : UnitRecord).phase.up := Phase.not_up_of_settled (.inl rfl)
    exact .inl ((hal.up (fun _ _ hl => hl) id hup).resolve_right hdw)

end Rises

variable [Kernel W] (m : Manager W) (name : String)

/-- The exit of a process leaves its unit active: it is the forking starter and succeeds, or
descendants or settings keep the unit active over the exit of the main process. -/
def ExitRaises (exit : ChildExit) : Prop :=
  ∃ r s, Exits m exit name r ∧ r.loaded.service? = some s ∧
    if r.controlPid = some exit.pid then isSuccess exit s = true
    else m.exitKeepsActive name r s exit = true

variable (exit : ChildExit) (e : Event) (r : UnitRecord)

private theorem rises_mainExitNoted (het : Exits m exit name r)
    (hco : r.controlPid ≠ some exit.pid) :
    Rises (m.ExitRaises · exit) m (m.mainExitNoted name exit) := by
  intro v r' hr' hup
  by_cases hother : v = name
  · subst hother
    left
    obtain ⟨hservice, hma⟩ := main_of_exits het hco
    obtain ⟨s, hs⟩ := isSome_iff_exists.mp hservice
    refine ⟨r, s, het, hs, ?_⟩
    rw [if_neg hco]
    by_contra hke
    have hshl := shouldStart_mainExitNoted m exit v r s het.record hs hma
    rw [(Bool.not_eq_true _).mp hke, shouldStart, hr', any_some] at hshl
    exact Phase.not_up_of_settled (by simpa [Phase.settled] using hshl) hup
  · rw [(spares_mainExitNoted m exit name).units v hother] at hr'
    exact .inr ⟨r', hr', hup⟩

private theorem rises_restartAfterExit (s : Bool) :
    Rises raised m (m.restartAfterExit name exit s) := by
  unfold restartAfterExit
  split
  · exact Rises.of_units rfl
  split
  · apply Rises.of_tends
    exact tends_automaticRestart m name exit (fun _ hl => by cases hl)
      (fun _ _ _ => ⟨trivial, trivial⟩)
  · exact Rises.of_units rfl

/-- The exit of a control process only brings its unit up when it completes a start. -/
private theorem tends_controlExit (hr : m.units[name]? = some r)
    (h : ∀ s, r.loaded.service? = some s → isSuccess exit s = true → raised name) :
    Tends (.raising raised) m (m.applyControlExit name r exit) := by
  apply tends_applyControlExit m name r exit hr
  · exact fun hl => by cases hl
  · exact fun s hs hsu _ => h s hs hsu
  · exact fun _ _ _ _ hl => by cases hl
  · exact fun _ => ⟨fun hl => (by cases hl), fun hl => (by cases hl)⟩
  · exact fun _ _ => ⟨trivial, trivial⟩

private theorem rises_applyChildExit : Rises (m.ExitRaises · exit) m (m.applyChildExit exit) := by
  cases hor : m.ownerOf exit.pid with
  | none =>
    simp only [applyChildExit, hor]
    exact Rises.of_units rfl
  | some name =>
    cases hr : m.units[name]? with
    | none =>
      simp only [applyChildExit, hor, hr]
      exact Rises.of_units rfl
    | some r =>
      have het : Exits m exit name r := ⟨hor, hr⟩
      by_cases hco : r.controlPid = some exit.pid
      · simp only [applyChildExit, hor, hr, if_pos hco]
        have hak : Rises (m.ExitRaises · exit) m
            ((m.ask Kernel.realtime).2.ask Kernel.monotonic).2 := Rises.of_units rfl
        apply hak.trans
        refine Rises.trans (Rises.of_tends (tends_controlExit _ name exit r hr ?_))
          (Rises.of_units (units_finishExit _ name))
        intro s hs hsu
        exact ⟨r, s, het, hs, by rw [if_pos hco]; exact hsu⟩
      · have hsp := step_mainExit m exit name r het hco
        rw [step] at hsp
        rw [hsp]
        refine Rises.trans ?_ (Rises.of_units (units_finishExit _ name))
        exact (rises_mainExitNoted m name exit r het hco).trans
          (rises_restartAfterExit _ name exit _)

/-- What can bring a unit up in one step. -/
def raisedBy : Event → String → Prop
  | .shutdown => (· = "shutdown.target")
  | .childExit exit => fun name => m.ExitRaises name exit
  | .dispatch score => fun name => ∃ j, (m.popped score).1 = some j ∧ j.unitName = name ∧
      bringsUp j.kind = true
  | _ => fun _ => False

omit [Kernel W] in
/-- The moves of a job that raise its service are those of a job that brings its unit up. -/
private theorem bringsUp_of_jobMoves
    (h : JobMoves k name v l p) (hl : l.raises = true) : name = v ∧ bringsUp k = true := by
  cases k with
  | start | restart => exact ⟨h.1.symm, rfl⟩
  | stop => rcases h.2 with rfl | rfl <;> cases hl
  | reload | isolate | nop => exact absurd h.2 id

/-- A move that raises a service is one of those an event is known for. -/
private theorem allows_raising (he : ∀ exit, e ≠ .childExit exit) :
    Allows (fun name l _ => l.raises = true → m.raisedBy e name ∨ m.lifts e name) m e := by
  cases e with
  | childExit exit => exact absurd rfl (he exit)
  | dispatch s =>
    intro j hj v l p hmo hl
    obtain ⟨hname, hup⟩ := bringsUp_of_jobMoves _ hmo hl
    exact .inl ⟨j, hj, hname, hup⟩
  | _ => simp [Allows, Label.raises]

/-- Only targets that are activating already are activated. -/
private theorem raisedBy_or_up_of_lifts (h : m.lifts e name) :
    m.raisedBy e name ∨ ∃ r, m.units[name]? = some r ∧ r.phase.up := by
  cases e with
  | shutdown | dispatch score => exact .inl h
  | activateTargets =>
    have hst := (List.mem_filter.mp h).2
    obtain ⟨r, hr, hatv⟩ := (Option.any_eq_true _ _).mp hst
    exact .inr ⟨r, hr, .inr (by simpa using hatv)⟩
  | _ => exact absurd h id

theorem rises_step : Rises (m.raisedBy e) m (m.step e) := by
  by_cases he : ∃ exit, e = .childExit exit
  · obtain ⟨exit, rfl⟩ := he
    exact rises_applyChildExit m exit
  have htn : Tends (.raising fun name => m.raisedBy e name ∨ m.lifts e name) (m.before e)
      (m.step e) := by
    refine tends_step m e (m.allows_raising e ?_) (fun _ h => .inr h) ?_
    · exact fun exit h => he ⟨exit, h⟩
    · cases e <;> simp [Covers, Permits.raising]
  have hrss := (Rises.of_units (units_before m e)).trans (Rises.of_tends htn)
  intro name r' hr' hup
  rcases hrss name r' hr' hup with (hra | hli) | hup
  · exact .inl hra
  · exact raisedBy_or_up_of_lifts m name e hli
  · exact .inr hup

/-- No unit comes up by itself: one that is up after a run was up before it, or one of the events
brought it up. -/
theorem up_unit_was_raised (evs : List Event) (name : String) (r' : UnitRecord)
    (hr' : (run step m evs).units[name]? = some r') (hup : r'.phase.up) :
    (∃ r, m.units[name]? = some r ∧ r.phase.up) ∨
      ∃ ea e l, evs = ea ++ e :: l ∧ (run step m ea).raisedBy e name := by
  apply run_cause (P := fun m => ∃ r, m.units[name]? = some r ∧ r.phase.up)
    (C := fun m e => m.raisedBy e name) _ m evs ⟨r', hr', hup⟩
  rintro m e ⟨r, hr, hup⟩
  exact (rises_step m e name r hr hup).symm

theorem started_service_was_raised :
    let m := Manager.new (oneService { execStart := [⟨"/bin/a", [], false⟩] }) {} none
    ∃ ea e l, runNow .start = ea ++ e :: l ∧ (run step m ea).raisedBy e "a.service" := by
  intro m
  have hup : ((run step m (runNow .start)).units["a.service"]?.map (·.state)) = some .active := by
    decide
  obtain ⟨r', hr', hst⟩ := Option.map_eq_some_iff.mp hup
  refine (up_unit_was_raised m _ "a.service" r' hr' (.inl hst)).resolve_left ?_
  rintro ⟨r, hr, -⟩
  cases hr

end Rustd.Manager
