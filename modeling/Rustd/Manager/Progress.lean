import Rustd.Jobs.Dispatch
import Rustd.Manager.State

/-!
# Scheduler progress

Whether the manager's loop finds a job to run when nothing is on its way. The `After=` map keeps
ordering cycles, and `refresh_ordering` turns a cycle among live jobs into jobs that wait for each
other.
-/

namespace Rustd.Manager

open Base Jobs Service List Std.ExtTreeMap

variable {W : Type}

/-- No unit is on its way up or down. -/
def allSettled (m : Manager W) : Bool :=
  m.units.toList.all (fun entry => entry.2.state != .activating && entry.2.state != .deactivating)

variable (m : Manager W)

theorem state_of_allSettled (h : m.allSettled = true) (u : String) (r : UnitRecord)
    (hr : m.units[u]? = some r) : r.state ≠ .activating ∧ r.state ≠ .deactivating := by
  have hmem : (u, r) ∈ m.units.toList := mem_toList_iff_getElem?_eq_some.mpr hr
  simpa using List.all_eq_true.mp h (u, r) hmem

private theorem jobIsReady_of_allSettled (h : m.allSettled = true) (job : Job) :
    jobIsReady job m.states m.afters = true := by
  unfold jobIsReady
  split
  · rw [List.all_eq_true]
    intro d _
    rw [states, Std.ExtTreeMap.getElem?_map]
    cases hr : m.units[d]? with
    | none => rfl
    | some r =>
      obtain ⟨hup, hdw⟩ := state_of_allSettled m h d r hr
      cases hst : r.state <;> simp_all
  · rfl

private theorem orderedAfter_insert (all : Afters) (e : String × String) (u dep : String) :
    OrderedAfter (all.insert e.1 (all.getD e.1 [] ++ [e.2])) u dep ↔
      OrderedAfter all u dep ∨ (e.1 = u ∧ e.2 = dep) := by
  unfold OrderedAfter
  rw [Std.ExtTreeMap.getElem?_insert]
  by_cases heq : e.1 = u
  · subst heq
    cases hall : all[e.1]? with
    | none => simp [getD_eq_getD_getElem?, hall, eq_comm]
    | some d =>
      simp [Std.ExtTreeMap.getD_eq_getD_getElem?, hall, eq_comm]
  · simp [heq]

/-- The manager's `After=` map holds the `After=` lists and the reversed `Before=` lists of the
loaded units, cycles included. -/
theorem orderedAfter_afters (un dep : String) :
    OrderedAfter m.afters un dep ↔
      (∃ r, m.units[un]? = some r ∧ dep ∈ r.loaded.unitSection.after) ∨
        ∃ r, m.units[dep]? = some r ∧ un ∈ r.loaded.unitSection.before := by
  have hsome (all : Afters) :
      OrderedAfter (all.map (fun _ d => (d.insertionSort (· ≤ ·)).dedup))
        un dep ↔ OrderedAfter all un dep := by
    unfold OrderedAfter
    rw [Std.ExtTreeMap.getElem?_map]
    cases all[un]? <;> simp
  rw [afters, hsome]
  apply (foldl_or_iff (P := fun all => OrderedAfter all un dep)
    (Q := fun e => e.1 = un ∧ e.2 = dep) _
    (fun all e => orderedAfter_insert all e un dep) _ _).trans
  apply or_congr
  · unfold OrderedAfter
    rw [Std.ExtTreeMap.getElem?_map]
    cases m.units[un]? <;> simp
  constructor
  · rintro ⟨⟨l, u⟩, hmem, rfl, rfl⟩
    simp only [mem_flatMap, List.mem_map, Prod.mk.injEq] at hmem
    obtain ⟨⟨n', r⟩, hr, later', hla, rfl, rfl⟩ := hmem
    exact ⟨r, mem_toList_iff_getElem?_eq_some.mp hr, hla⟩
  · rintro ⟨r, hr, hla⟩
    refine ⟨(un, dep), ?_, rfl, rfl⟩
    simp only [mem_flatMap, List.mem_map, Prod.mk.injEq]
    exact ⟨(dep, r), mem_toList_iff_getElem?_eq_some.mpr hr, un, hla, rfl, rfl⟩

/-- The job that is taken next. -/
def popNext (m : Manager W) : Option Job :=
  (m.jobQueue.popReady (m.jobRegistry.refreshOrdering m.afters) m.states m.afters).1

/-- With all units settled the loop finds a job exactly when some pending job is internal or
must wait for no live job. -/
theorem pop_ready_returns_iff_some_unblocked (m : Manager W)
    (hfiled : m.jobQueue.FiledIn m.jobRegistry)
    (hsettled : m.allSettled = true) :
    m.popNext.isSome = true ↔ ∃ job, m.jobQueue.Wanted m.jobRegistry job ∧
      (job.id = 0 ∨ ¬Blocked m.jobRegistry m.afters job) := by
  rw [popNext, JobQueue.popReady_isSome_iff]
  apply exists_congr
  intro job
  rw [JobQueue.Wanted, JobQueue.retain_refreshOrdering]
  apply and_congr_right
  intro hwn
  rw [JobQueue.dispatchable_refreshOrdering hfiled job hwn]
  simp [jobIsReady_of_allSettled m hsettled job]

/-- The starts of `a.service` and `b.service` are pending, with the given `After=` lists. -/
def bothStarting (afterA afterB : List String) : Manager Unit :=
  { world := ()
    units := ((∅ : Std.ExtTreeMap String UnitRecord).insert "a.service"
      { loaded := .service { after := afterA } {} }).insert "b.service"
        { loaded := .service { after := afterB } {} }
    jobQueue := exportedStarts.1
    jobRegistry := exportedStarts.2 }

theorem startCycle_stalls :
    let m := bothStarting ["b.service"] ["a.service"]
    m.allSettled = true ∧ (∀ i ∈ m.jobRegistry.list, i.state ≠ .running) ∧
      (∃ job ∈ m.jobQueue.pending, job.id ≠ 0 ∧ m.jobRegistry.isLive job.id = true) ∧
        m.popNext = none := by decide

theorem pop_ready_returns_for_startChain :
    let m := bothStarting [] ["a.service"]
    m.allSettled = true ∧ m.popNext.isSome = true := by
  refine ⟨by decide, (pop_ready_returns_iff_some_unblocked _ filedIn_exportedStarts
    (by decide)).mpr ⟨⟨1, .start, "a.service"⟩, (JobQueue.mem_retain _).mpr (by decide), .inr ?_⟩⟩
  rintro ⟨a, hfr, -, ⟨-, d, haf, hmem⟩ | ⟨hstp, -⟩⟩
  · have hnn : (bothStarting [] ["a.service"]).afters["a.service"]? = some [] := by decide
    cases hnn.symm.trans haf
    cases hmem
  have hall : ∀ i ∈ exportedStarts.2.live.values, ordersAsStop i.toJob.kind = false := by
    decide
  rw [hall a hfr] at hstp
  cases hstp

/-- When every live job is pending, the loop stalls only on an ordering cycle of the loaded
units. -/
theorem ordering_cycle_of_stalled (hse : m.allSettled = true)
    (hpn : ∀ id, m.jobRegistry.isLive id = true → ∃ job ∈ m.jobQueue.pending, job.id = id)
    (hlv : m.jobRegistry.isEmpty = false) (h : m.popNext = none) :
    ¬Acyclic (OrderedAfter m.afters) := by
  intro hacy
  have hed := JobRegistry.edgesOnly_refreshOrdering m.jobRegistry m.afters
  obtain ⟨id, hid, hfre⟩ := exists_unblocked (m.jobRegistry.refreshOrdering m.afters)
    (m.jobRegistry.acyclic_refreshOrdering m.afters hacy) (by rw [hed]; exact hlv)
  rw [hed] at hid
  obtain ⟨job, hjob, rfl⟩ := hpn id hid
  have hsome : m.popNext.isSome = true := by
    rw [popNext, JobQueue.popReady_isSome_iff]
    refine ⟨job, ?_, ?_⟩
    · rw [JobQueue.Wanted, JobQueue.retain_refreshOrdering, JobQueue.mem_retain]
      exact ⟨hjob, .inr (by simpa [JobRegistry.isLive] using hid)⟩
    · simp [dispatchable, hfre, jobIsReady_of_allSettled m hse job]
  rw [h] at hsome
  cases hsome

/-- The files of the two units order the first one after the second. -/
def FilesOrder (name other : String) : Prop :=
  (∃ r, m.units[name]? = some r ∧ other ∈ r.loaded.unitSection.after) ∨
    ∃ r, m.units[other]? = some r ∧ name ∈ r.loaded.unitSection.before

/-- If every live job waits in the queue and no unit is on its way, the loop stalls only on units
whose files order them in a cycle. -/
theorem stalled_by_cycle_of_files (hse : m.allSettled = true) (hlv : m.jobRegistry.isEmpty = false)
    (hpn : ∀ id ∈ m.jobRegistry.live.jobs.keys, ∃ job ∈ m.jobQueue.pending, job.id = id)
    (h : m.popNext = none) : ∃ name, Relation.TransGen m.FilesOrder name name := by
  have hcyc := ordering_cycle_of_stalled m hse (fun id hid => hpn id
    (mem_keys.mpr (contains_iff_mem.mp hid))) hlv h
  have heq : OrderedAfter m.afters = m.FilesOrder := by
    funext u dep
    exact propext (orderedAfter_afters m u dep)
  rw [heq] at hcyc
  simpa [Acyclic] using hcyc

theorem stalled_by_two_services :
    ∃ name, Relation.TransGen (bothStarting ["b.service"] ["a.service"]).FilesOrder name name :=
  stalled_by_cycle_of_files _ (by decide) (by decide) (by decide) (by decide)

end Rustd.Manager
