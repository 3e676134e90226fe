import Rustd.Base.Acyclic
import Rustd.Jobs.Queue

/-!
# Ordering edges between live jobs

What `JobRegistry::refresh_ordering` stores, as a relation on live jobs. A job that is not a stop
waits for every live job of a unit in its own `After=` list; a stop or restart makes the live jobs
of those units wait for it instead. When `After=` is acyclic on unit names this relation is
acyclic, for any mix of kinds and any number of jobs of one unit, and it stays so while jobs
finish.
-/

namespace Rustd.Jobs

open Rustd.Base List Std.ExtTreeMap

/-- `After=` read as a relation: `unit` is ordered after `dependency`. -/
def OrderedAfter (afters : Afters) (unit dependency : String) : Prop :=
  ∃ dependencies, afters[unit]? = some dependencies ∧ dependency ∈ dependencies

/-- Ordering requirement between two jobs: `first` must finish before `second` may run. -/
def MustPrecede (afters : Afters) (first second : Job) : Prop :=
  first.id ≠ second.id ∧
    ((ordersAsStop second.kind = false ∧ OrderedAfter afters second.unitName first.unitName) ∨
      (ordersAsStop first.kind = true ∧ OrderedAfter afters first.unitName second.unitName))

namespace JobRegistry

/-- The waits-for relation stored in `before`. -/
def WaitsFor (r : JobRegistry) (id other : Nat) : Prop := r.before.Edge id other

variable (jobs : List JobInfo) (r : JobRegistry) (afters : Afters) (id : Nat)
  (job other v : JobInfo)

@[simp] theorem waitsFor_order (w x a b : Nat) :
    (r.order w x).WaitsFor a b ↔ r.WaitsFor a b ∨ (w = a ∧ x = b) := by
  rw [WaitsFor, order, EdgeMap.edge_link, or_comm]
  rfl

-- The edge one pair of live jobs contributes, as the loop body decides it.
private def PairEdge (job other : JobInfo) (a b : Nat) : Prop :=
  job.id ≠ other.id ∧
    ((ordersAsStop job.kind = true ∧ other.id = a ∧ job.id = b) ∨
      (ordersAsStop job.kind = false ∧ job.id = a ∧ other.id = b))

private theorem waitsFor_orderPair (r : JobRegistry) (a b : Nat) :
    (orderPair job r v).WaitsFor a b ↔ r.WaitsFor a b ∨ PairEdge job v a b := by
  unfold orderPair PairEdge
  by_cases hid : job.id = v.id
  · simp [hid]
  cases hk : ordersAsStop job.kind
  · simp [hid]
  · simp [hid]

private theorem waitsFor_orderJob (r : JobRegistry) (job : JobInfo) (a b : Nat) :
    (orderJob jobs afters r job).WaitsFor a b ↔ r.WaitsFor a b ∨
      ∃ v ∈ jobs, OrderedAfter afters job.unitName v.unitName ∧ PairEdge job v a b := by
  unfold orderJob OrderedAfter
  cases hd : afters[job.unitName]? with
  | none => simp
  | some de =>
    have inner (r : JobRegistry) (d : String) :
        (((jobs.filter (·.unitName == d)).foldl
          (orderPair job) r).WaitsFor a b) ↔ r.WaitsFor a b ∨
            ∃ v ∈ jobs, v.unitName = d ∧ PairEdge job v a b := by
      rw [foldl_or_iff (P := fun r => r.WaitsFor a b) (Q := fun v => PairEdge job v a b)
        (orderPair job) (fun r v => waitsFor_orderPair job v r a b)]
      simp only [mem_filter, beq_iff_eq, and_assoc]
    rw [foldl_or_iff (P := fun r : JobRegistry => r.WaitsFor a b)
      (Q := fun d => ∃ v ∈ jobs, v.unitName = d ∧ PairEdge job v a b)
      _ inner]
    simp only [Option.some.injEq, exists_eq_left']
    apply or_congr Iff.rfl
    constructor
    · rintro ⟨d, hdep, v, hother, rfl, hpai⟩
      exact ⟨v, hother, hdep, hpai⟩
    · rintro ⟨v, hother, hdep, hpai⟩
      exact ⟨v.unitName, hdep, v, hother, rfl, hpai⟩

-- Every edge between two jobs comes from one of them being the later unit's job.
private theorem mustPrecede_iff (a snd : JobInfo) :
    MustPrecede afters a.toJob snd.toJob ↔
      (OrderedAfter afters snd.unitName a.unitName ∧
        PairEdge snd a snd.id a.id) ∨
      (OrderedAfter afters a.unitName snd.unitName ∧
        PairEdge a snd snd.id a.id) := by
  unfold MustPrecede PairEdge JobInfo.toJob
  by_cases hid : a.id = snd.id
  · simp [hid]
  have hne : snd.id ≠ a.id := Ne.symm hid
  simp only [ne_eq, hid, hne, not_false_eq_true, true_and, and_self, and_true, and_false,
    or_false, false_or]
  rw [and_comm (b := OrderedAfter afters snd.unitName a.unitName),
    and_comm (b := OrderedAfter afters a.unitName snd.unitName)]

/-- `t` differs from `r` in its ordering edges at most. -/
def EdgesOnly (r t : JobRegistry) : Prop := t = { r with before := t.before, after := t.after }

theorem EdgesOnly.trans {r t u : JobRegistry} (hrt : EdgesOnly r t) (htu : EdgesOnly t u) :
    EdgesOnly r u := by
  unfold EdgesOnly at *
  rw [htu, hrt]

theorem edgesOnly_orderPair (r : JobRegistry) (v : JobInfo) : EdgesOnly r (orderPair job r v) := by
  unfold orderPair order
  split
  · rfl
  · split <;> rfl

theorem edgesOnly_orderJob (r : JobRegistry) (job : JobInfo) :
    EdgesOnly r (orderJob jobs afters r job) := by
  unfold orderJob
  split
  · rfl
  have hstr : EdgesOnly r r := rfl
  apply List.foldlRecOn _ (motive := EdgesOnly r) _ hstr
  intro t ht d _
  apply List.foldlRecOn _ (motive := EdgesOnly r) _ ht
  intro t ht v _
  exact ht.trans (edgesOnly_orderPair job t v)

theorem edgesOnly_refreshOrdering : EdgesOnly r (r.refreshOrdering afters) := by
  have hstr : EdgesOnly r { r with before := ∅, after := ∅ } := rfl
  apply List.foldlRecOn _ (motive := EdgesOnly r) _ hstr
  intro t ht job _
  exact ht.trans (edgesOnly_orderJob r.live.values afters t job)

theorem waitsFor_refreshOrdering (a b : Nat) : (r.refreshOrdering afters).WaitsFor a b ↔
      ∃ x snd, r.live.jobs[b]? = some x ∧ r.live.jobs[a]? = some snd ∧
        MustPrecede afters x.toJob snd.toJob := by
  unfold refreshOrdering
  rw [foldl_or_iff (P := fun r : JobRegistry => r.WaitsFor a b)
    (Q := fun job => ∃ v ∈ r.live.values,
      OrderedAfter afters job.unitName v.unitName ∧ PairEdge job v a b)
    _ (fun r' job => waitsFor_orderJob r.live.values afters r' job a b)]
  have hempty : ¬WaitsFor { r with before := ∅, after := ∅ } a b := EdgeMap.edge_empty a b
  simp only [hempty, false_or]
  constructor
  · rintro ⟨job, hjob, v, hother, haf, hpai⟩
    have hj := (r.live.mem_values job).mp hjob
    have ho := (r.live.mem_values v).mp hother
    obtain ⟨hne, ⟨hk, rfl, rfl⟩ | ⟨hk, rfl, rfl⟩⟩ := hpai
    · exact ⟨job, v, hj, ho, hne, .inr ⟨hk, haf⟩⟩
    · exact ⟨v, job, ho, hj, Ne.symm hne, .inl ⟨hk, haf⟩⟩
  · rintro ⟨x, snd, hf, hs, hmu⟩
    have hfid := r.live.filed b x hf
    have hsid := r.live.filed a snd hs
    have hfm : x ∈ r.live.values := (r.live.mem_values x).mpr (by rw [hfid]; exact hf)
    have hsm : snd ∈ r.live.values := (r.live.mem_values snd).mpr (by rw [hsid]; exact hs)
    rw [← hfid, ← hsid]
    obtain ⟨haf, hpai⟩ | ⟨haf, hpai⟩ := (mustPrecede_iff afters x snd).mp hmu
    · exact ⟨snd, hsm, x, hfm, haf, hpai⟩
    · exact ⟨x, hfm, snd, hsm, haf, hpai⟩

theorem acyclic_refreshOrdering (h : Acyclic (OrderedAfter afters)) :
    Acyclic (r.refreshOrdering afters).WaitsFor := by
  apply Acyclic.of_polarity h (fun id => (r.live.jobs[id]?.map JobInfo.unitName).getD "")
    (fun id => ∃ i, r.live.jobs[id]? = some i ∧ ordersAsStop i.kind = true)
  intro a b hab
  obtain ⟨x, snd, hf, hs, -, hfo | hr⟩ := (waitsFor_refreshOrdering r afters a b).mp hab
  · refine .inl ⟨?_, by simpa [hf, hs, JobInfo.toJob] using hfo.2⟩
    rintro ⟨i, hif, hk⟩
    rw [hs] at hif
    cases hif
    cases hfo.1.symm.trans hk
  · exact .inr ⟨⟨x, hf, hr.1⟩, by simpa [hf, hs, JobInfo.toJob] using hr.2⟩

private theorem waitsFor_of_finish (res : JobResult) (a b : Nat)
    (h : (r.finish id res).1.WaitsFor a b) : r.WaitsFor a b := by
  unfold finish at h
  split at h
  · exact h
  · exact ((EdgeMap.edge_unlink r.before id a b).mp h).2.2

theorem getBefore_eq_nil_iff :
    r.getBefore id = [] ↔ ∀ other ∈ r.live.jobs, ¬r.WaitsFor id other := by
  unfold getBefore WaitsFor EdgeMap.Edge
  cases hb : r.before[id]? with
  | none => simp
  | some ids =>
    simp only [filterMap_eq_nil_iff, Std.ExtTreeSet.mem_toList, Option.some.injEq,
      exists_eq_left', mem_iff_isSome_getElem?]
    constructor
    · intro h other hlv hmem
      rw [h other hmem] at hlv
      cases hlv
    intro h other hmem
    rw [← Option.not_isSome_iff_eq_none]
    exact fun hlv => h other hlv hmem

end JobRegistry

/-- What ends a job. -/
inductive Completion where
  | finish (id : Nat) (result : JobResult)
  | cancel (id : Nat)

def complete (s : JobQueue × JobRegistry) : Completion → JobQueue × JobRegistry
  | .finish id result => (s.1, (s.2.finish id result).1)
  | .cancel id =>
    let (q, r, _) := s.1.cancel s.2 id
    (q, r)

private theorem acyclic_complete (s : JobQueue × JobRegistry) (c : Completion)
    (h : Acyclic s.2.WaitsFor) : Acyclic (complete s c).2.WaitsFor := by
  cases c with
  | finish id re =>
    exact h.mono (fun a b hab => s.2.waitsFor_of_finish id re a b hab)
  | cancel id =>
    unfold complete JobQueue.cancel
    by_cases hid : id = 0
    · simpa [hid] using h
    · simpa [hid] using h.mono (fun a b hab => s.2.waitsFor_of_finish id .canceled a b hab)

theorem exists_unblocked (r : JobRegistry) (h : Acyclic r.WaitsFor) (hn : r.isEmpty = false) :
    ∃ id, r.isLive id = true ∧ r.getBefore id = [] := by
  have hfi : {id | id ∈ r.live.jobs}.Finite := by
    apply (finite_toSet r.live.jobs.keys).subset
    intro id hid
    exact mem_keys.mpr hid
  have hnn : {id | id ∈ r.live.jobs}.Nonempty := by
    by_contra hno
    rw [Set.nonempty_iff_ne_empty, not_not, Set.eq_empty_iff_forall_notMem] at hno
    have hempty := eq_empty_iff_forall_not_mem.mpr hno
    exact isEmpty_eq_false_iff.mp hn hempty
  obtain ⟨id, hid, hsi⟩ := h.exists_sink _ hfi hnn
  exact ⟨id, hid, (r.getBefore_eq_nil_iff id).mpr hsi⟩

/-- For every set of live jobs and every acyclic `After=` map, the refreshed waits-for
relation is acyclic, and after any further completions a nonempty registry has a live job
that waits for no live job. -/
theorem refreshed_ordering_never_deadlocks (q : JobQueue) (r : JobRegistry) (afters : Afters)
    (h : Acyclic (OrderedAfter afters)) :
    Acyclic (r.refreshOrdering afters).WaitsFor ∧
      ∀ completions : List Completion,
        (run complete (q, r.refreshOrdering afters) completions).2.isEmpty = false →
          ∃ id, (run complete (q, r.refreshOrdering afters) completions).2.isLive id = true ∧
            (run complete (q, r.refreshOrdering afters) completions).2.getBefore id = [] := by
  have hacy := r.acyclic_refreshOrdering afters h
  refine ⟨hacy, ?_⟩
  intro completions hlv
  have hrun : Acyclic (run complete (q, r.refreshOrdering afters) completions).2.WaitsFor :=
    run_preserves (I := fun s : JobQueue × JobRegistry => Acyclic s.2.WaitsFor) acyclic_complete _
      completions hacy
  exact exists_unblocked _ hrun hlv

/-- `b.service` is ordered after `a.service`. -/
def chainAfters : Afters := (∅ : Afters).insert "b.service" ["a.service"]

theorem acyclic_chainAfters : Acyclic (OrderedAfter chainAfters) := by
  apply Acyclic.of_rank (fun u => if u = "b.service" then 1 else 0)
  intro u de h
  obtain ⟨d, hd, hmem⟩ := h
  unfold chainAfters at hd
  rw [Std.ExtTreeMap.getElem?_insert] at hd
  by_cases hu : u = "b.service"
  · subst hu
    simp at hd
    subst hd
    simp at hmem
    simp [hmem]
  · simp [Ne.symm hu] at hd

theorem refreshed_ordering_never_deadlocks_mixed :
    let s := JobQueue.requested
      [(.start, "b.service"), (.stop, "b.service"), (.restart, "a.service"), (.start, "a.service")]
    let done := [Completion.finish 2 .done, Completion.cancel 3]
    ∃ id, (run complete (s.1, s.2.refreshOrdering chainAfters) done).2.isLive id = true ∧
      (run complete (s.1, s.2.refreshOrdering chainAfters) done).2.getBefore id = [] :=
  (refreshed_ordering_never_deadlocks _ _ chainAfters acyclic_chainAfters).2 _ (by decide)

end Rustd.Jobs
