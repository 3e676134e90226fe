import Rustd.Manager.Loop

/-!
# What waits along runs

A dispatch takes a wanted job of the main queue and runs it. Every other job keeps waiting.
-/

namespace Rustd.Manager

open Base Service UnitFile Jobs List

variable {W : Type} (m : Manager W) (score : Option (Nat → Job → Score)) (j : Job)

private theorem popped_eq :
    ∃ t : Option Nat, m.popped score = match t with
      | none => (none, m.jobQueue.retain m.jobRegistry)
      | some pos => (m.jobQueue.retain m.jobRegistry).remove pos := by
  cases score with
  | none =>
    exact ⟨_, by simp only [popped, JobQueue.popReady, JobQueue.retain_refreshOrdering]; rfl⟩
  | some score =>
    exact ⟨_, by simp only [popped, JobQueue.popReadyBy, JobQueue.retain_refreshOrdering]; rfl⟩

private theorem mem_retain_of_popped (h : (m.popped score).1 = some j) :
    j ∈ (m.jobQueue.retain m.jobRegistry).pending := by
  obtain ⟨t, htk⟩ := m.popped_eq score
  rw [htk] at h
  cases t with
  | none => cases h
  | some pos => exact mem_of_getElem? h

private theorem mem_retain_of_left (h : j ∈ (m.popped score).2.pending) :
    j ∈ (m.jobQueue.retain m.jobRegistry).pending := by
  obtain ⟨t, htk⟩ := m.popped_eq score
  rw [htk] at h
  cases t with
  | none => exact h
  | some pos => exact mem_of_mem_eraseIdx h

private theorem popped_or_left (h : j ∈ (m.jobQueue.retain m.jobRegistry).pending) :
    (m.popped score).1 = some j ∨ j ∈ (m.popped score).2.pending := by
  obtain ⟨t, htk⟩ := m.popped_eq score
  rw [htk]
  cases t with
  | none => exact .inr h
  | some pos =>
    obtain ⟨i, hi, rfl⟩ := mem_iff_getElem.mp h
    by_cases hpos : i = pos
    · subst hpos
      exact .inl (getElem?_eq_getElem hi)
    · exact .inr (mem_eraseIdx_iff_getElem.mpr ⟨i, hi, hpos, rfl⟩)

theorem mem_queued_of_popped (h : (m.popped score).1 = some j) : j ∈ m.queued :=
  mem_append_left _ ((JobQueue.mem_retain j).mp (m.mem_retain_of_popped score j h)).1

variable [Kernel W]

omit [Kernel W] in
theorem queued_before (e : Event) (j : Job) (h : j ∈ (m.before e).queued) : j ∈ m.queued := by
  cases e with
  | dispatch score =>
    rcases mem_append.mp h with h | h
    · exact mem_append_left _ ((JobQueue.mem_retain j).mp (m.mem_retain_of_left score j h)).1
    · exact mem_append_right _ h
  | _ => exact h

omit [Kernel W] in
theorem mem_before_of_mem {j : Job} (hid : j.id = 0) (hj : j ∈ m.jobQueue.pending)
    (htk : ∀ score, e = .dispatch score → (m.popped score).1 ≠ some j) :
    j ∈ (m.before e).jobQueue.pending := by
  cases e with
  | dispatch score =>
    have hwn := (JobQueue.mem_retain (r := m.jobRegistry) j).mpr ⟨hj, .inl hid⟩
    exact (m.popped_or_left score j hwn).resolve_left (htk score rfl)
  | _ => exact hj

omit [Kernel W] in
/-- The manager that runs the job a dispatch took. -/
def executing (score : Option (Nat → Job → Score)) (j : Job) : Manager W :=
  if j.id ≠ 0 then
    { m.afterPop score with jobRegistry := ((m.afterPop score).jobRegistry.markRunning j.id).1 }
  else m.afterPop score

omit [Kernel W] in
@[simp] theorem units_executing : (m.executing score j).units = m.units := by
  unfold executing
  split <;> rfl

omit [Kernel W] in
@[simp] theorem world_executing : (m.executing score j).world = m.world := by
  unfold executing
  split <;> rfl

omit [Kernel W] in
@[simp] theorem pathSources_executing : (m.executing score j).pathSources = m.pathSources := by
  unfold executing
  split <;> rfl

theorem runReadyJob_popped (h : (m.popped score).1 = some j) :
    (m.afterPop score).runReadyJob j = ((m.executing score j).executeJob j).2.recordJob j
      ((m.executing score j).executeJob j).1 := by
  have hwn := (JobQueue.mem_retain j).mp (m.mem_retain_of_popped score j h)
  have hlv : ¬(j.id ≠ 0 ∧ (m.afterPop score).jobRegistry.isLive j.id = false) := by
    rintro ⟨hid, hde⟩
    have hmem := hwn.2.resolve_left hid
    rw [afterPop, JobRegistry.edgesOnly_refreshOrdering, JobRegistry.isLive] at hde
    rw [Std.ExtTreeMap.contains_iff_mem.mpr hmem] at hde
    cases hde
  simp only [runReadyJob, if_neg hlv]
  rfl

private theorem dispatch_popped (h : (m.popped score).1 = some j) :
    m.dispatch score = (((m.executing score j).executeJob j).2.recordJob j
      ((m.executing score j).executeJob j).1).releaseIdleServicesAfterDispatch := by
  rw [dispatch_eq, h]
  simp only [m.runReadyJob_popped score j h]

theorem tends_dispatch_popped (h : (m.popped score).1 = some j) :
    Tends P ((m.executing score j).executeJob j).2 (m.dispatch score) := by
  rw [m.dispatch_popped score j h]
  exact (tends_releaseIdleServicesAfterDispatch _).after_ledger (ledger_recordJob _ _ _)

private theorem dispatched_of_left (e : Event) (j : Job) (h : j ∉ (m.step e).jobQueue.pending) :
    j ∉ m.jobQueue.pending ∨ ∃ score, e = .dispatch score ∧ ((m.popped score).1 = some j ∨
      j.id ≠ 0 ∧ m.jobRegistry.isLive j.id = false) := by
  have hcov : m.Covers (fun _ => True) (fun _ => True) (fun _ => True) e := by
    cases e <;> simp [Covers]
  have hbf : j ∉ (m.before e).jobQueue.pending := mt ((queues_step m e hcov).kept j) h
  rw [or_iff_not_imp_left, not_not]
  intro hj
  cases e with
  | dispatch score =>
    refine ⟨score, rfl, ?_⟩
    by_cases hwn : j ∈ (m.jobQueue.retain m.jobRegistry).pending
    · exact .inl ((m.popped_or_left score j hwn).resolve_right hbf)
    · rw [JobQueue.mem_retain, not_and_or, not_or] at hwn
      obtain ⟨hid, hde⟩ := hwn.resolve_left (not_not.mpr hj)
      exact .inr ⟨hid, Bool.eq_false_iff.mpr (mt Std.ExtTreeMap.contains_iff_mem.mp hde)⟩
  | _ => exact absurd hj hbf

/-- A job leaves the main queue only when a dispatch takes it to run it, or finds that it was
cancelled. -/
theorem queued_job_not_lost (j : Job) (hj : j ∈ m.jobQueue.pending) (evs : List Event) :
    j ∈ (run step m evs).jobQueue.pending ∨ ∃ ea score l, evs = ea ++ .dispatch score :: l ∧
      (((run step m ea).popped score).1 = some j ∨
        j.id ≠ 0 ∧ (run step m ea).jobRegistry.isLive j.id = false) := by
  rw [or_iff_not_imp_left]
  intro hlf
  obtain ⟨ea, e, l, rfl, score, rfl, h⟩ := (run_cause (P := fun m => j ∉ m.jobQueue.pending)
    (fun m e => dispatched_of_left m e j) m evs hlf).resolve_left (not_not.mpr hj)
  exact ⟨ea, score, l, rfl, h⟩

theorem queued_job_not_lost_first :
    let m : Manager Script := { world := {}, jobQueue := JobQueue.empty.enqueueInternal .start "a" }
    let events : List Event := [.oom "b", .dispatch none, .childExit ⟨7, cldExited, 0⟩]
    ⟨0, .start, "a"⟩ ∈ (run step m events).jobQueue.pending ∨
      ∃ ea score l, events = ea ++ Event.dispatch score :: l ∧
        (((run step m ea).popped score).1 = some ⟨0, .start, "a"⟩ ∨
          0 ≠ 0 ∧ (run step m ea).jobRegistry.isLive 0 = false) :=
  queued_job_not_lost _ ⟨0, .start, "a"⟩ (by decide) _

end Rustd.Manager
