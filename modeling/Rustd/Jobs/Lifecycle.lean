import Rustd.Jobs.Ordering

/-!
# Registry invariant and job event history

Every sequence of registry and queue operations keeps the registry consistent with the events it
has published. The history is what `drain_events` has handed to the signal publisher followed by
what is still queued. A live job was announced once and changed to running at most once; a finished
job has one removal event after that.
-/

namespace Rustd.Jobs

open Rustd.Base List Option Std.ExtTreeMap

namespace JobEvent

def job : JobEvent → JobInfo
  | .new job => job
  | .stateChanged job => job
  | .removed job _ => job

def isRemoved : JobEvent → Bool
  | .removed _ _ => true
  | _ => false

def isCountedFailure : JobEvent → Bool
  | .removed _ result => result.incrementsFailedCounter
  | _ => false

private theorem isRemoved_of_isCountedFailure (e : JobEvent) (h : e.isCountedFailure = true) :
    e.isRemoved = true := by
  cases e with
  | new | stateChanged => cases h
  | removed job re => rfl

end JobEvent

def eventsOf (id : Nat) (history : List JobEvent) : List JobEvent :=
  history.filter (·.job.id = id)

def JobInfo.announced (job : JobInfo) : List JobEvent :=
  .new { job with state := .waiting } ::
    (match job.state with
      | .waiting => []
      | .running => [.stateChanged job])

private theorem eventsOf_append_self (history : List JobEvent) (e : JobEvent) :
    eventsOf e.job.id (history ++ [e]) = eventsOf e.job.id history ++ [e] := by
  simp [eventsOf, filter_append]

private theorem eventsOf_append_other (id : Nat) (history : List JobEvent) (e : JobEvent)
    (h : id ≠ e.job.id) : eventsOf id (history ++ [e]) = eventsOf id history := by
  simp [eventsOf, filter_append, Ne.symm h]

namespace JobRegistry

/-- The two edge maps mirror each other and name live jobs. -/
structure EdgesConsistent (r : JobRegistry) : Prop where
  transposed : EdgeMap.Transposed r.before r.after
  before_live : ∀ id, r.before.Mentions id → id ∈ r.live.jobs
  after_live : ∀ id, r.after.Mentions id → id ∈ r.live.jobs
  before_irrefl : ∀ id, ¬r.before.Edge id id
  after_irrefl : ∀ id, ¬r.after.Edge id id

/-- Job numbers are given out once. -/
structure IdsConsistent (r : JobRegistry) : Prop where
  positive : ∀ id ∈ r.live.jobs, 0 < id
  allocated : ∀ id ∈ r.live.jobs, id < r.nextId
  distinct : (r.list.map JobInfo.id).Nodup
  owners_live : ∀ id ∈ r.owners, id ∈ r.live.jobs
  next_positive : 0 < r.nextId
  next_bounded : r.nextId ≤ u32Max

/-- The published history accounts for every identifier and for the failure counter. -/
structure HistoryConsistent (r : JobRegistry) (history : List JobEvent) : Prop where
  live : ∀ (id : Nat) (job : JobInfo), r.live.jobs[id]? = some job →
    eventsOf id history = job.announced
  removed : ∀ id, 0 < id → id < r.nextId → id ∉ r.live.jobs →
    ∃ job result, job.id = id ∧ eventsOf id history = job.announced ++ [.removed job result]
  unallocated : ∀ id, id = 0 ∨ r.nextId ≤ id → eventsOf id history = []
  failed : r.nFailed = history.countP JobEvent.isCountedFailure
  balanced : history.countP JobEvent.isRemoved + r.live.jobs.size + 1 = r.nextId

structure Consistent (r : JobRegistry) (drained : List JobEvent) : Prop where
  edges : r.EdgesConsistent
  ids : r.IdsConsistent
  history : r.HistoryConsistent (drained ++ r.events)

theorem consistent_default : default.Consistent [] where
  edges := by
    constructor <;> simp [default, EdgeMap.transposed_empty, EdgeMap.not_mentions_empty]
  ids := by
    refine ⟨?_, ?_, LiveJobs.empty.nodup_ids, ?_, ?_, ?_⟩ <;> simp [default, LiveJobs.empty, u32Max]
  history := by
    constructor
    · simp [default, LiveJobs.empty]
    · intro id hpos hlt
      simp only [default] at hlt
      omega
    · simp [eventsOf, default]
    · simp [default]
    · simp [default, LiveJobs.empty]

section

variable {r : JobRegistry}

private theorem EdgesConsistent.of_live_subset (h : r.EdgesConsistent) (r' : JobRegistry)
    (hb : r'.before = r.before) (ha : r'.after = r.after)
    (hl : ∀ id ∈ r.live.jobs, id ∈ r'.live.jobs) : r'.EdgesConsistent where
  transposed := by rw [hb, ha]; exact h.transposed
  before_live id hid := hl id (h.before_live id (by rw [← hb]; exact hid))
  after_live id hid := hl id (h.after_live id (by rw [← ha]; exact hid))
  before_irrefl := by rw [hb]; exact h.before_irrefl
  after_irrefl := by rw [ha]; exact h.after_irrefl

theorem EdgesConsistent.order (h : r.EdgesConsistent) (w a : Nat) (hne : w ≠ a)
    (hw : w ∈ r.live.jobs) (hf : a ∈ r.live.jobs) :
    (r.order w a).EdgesConsistent where
  transposed := h.transposed.link w a
  before_live id hid := by
    rcases EdgeMap.mentions_of_link r.before w a id hid with rfl | rfl | hm
    · exact hw
    · exact hf
    · exact h.before_live id hm
  after_live id hid := by
    rcases EdgeMap.mentions_of_link r.after a w id hid with rfl | rfl | hm
    · exact hf
    · exact hw
    · exact h.after_live id hm
  before_irrefl id hid := by
    rw [JobRegistry.order, EdgeMap.edge_link] at hid
    rcases hid with ⟨rfl, rfl⟩ | hid
    · exact hne rfl
    · exact h.before_irrefl id hid
  after_irrefl id hid := by
    rw [JobRegistry.order, EdgeMap.edge_link] at hid
    rcases hid with ⟨rfl, rfl⟩ | hid
    · exact hne rfl
    · exact h.after_irrefl id hid

theorem EdgesConsistent.orderPair (h : r.EdgesConsistent) (job v : JobInfo)
    (hj : job.id ∈ r.live.jobs) (ho : v.id ∈ r.live.jobs) :
    (orderPair job r v).EdgesConsistent := by
  unfold JobRegistry.orderPair
  by_cases hid : job.id = v.id
  · rw [if_pos hid]
    exact h
  rw [if_neg hid]
  split
  · exact h.order v.id job.id (Ne.symm hid) ho hj
  · exact h.order job.id v.id hid hj ho

theorem EdgesConsistent.orderJob (h : r.EdgesConsistent) (j : List JobInfo) (a : Afters)
    (hjb : ∀ job ∈ j, job.id ∈ r.live.jobs) (job : JobInfo) (hj : job ∈ j) :
    (orderJob j a r job).EdgesConsistent := by
  -- The fold keeps the live jobs, so the listed identifiers stay live all along.
  let Keeps (t : JobRegistry) : Prop := t.EdgesConsistent ∧ EdgesOnly r t
  have pair (t : JobRegistry) (ht : Keeps t) (v : JobInfo) (hother : v ∈ j) :
      Keeps (JobRegistry.orderPair job t v) := by
    refine ⟨ht.1.orderPair job v ?_ ?_, ht.2.trans (edgesOnly_orderPair job t v)⟩
    · rw [ht.2]
      exact hjb job hj
    · rw [ht.2]
      exact hjb v hother
  unfold JobRegistry.orderJob
  cases a[job.unitName]? with
  | none => exact h
  | some d =>
    have hfol : Keeps (d.foldl (fun r de =>
        (j.filter (·.unitName == de)).foldl
          (JobRegistry.orderPair job) r) r) := by
      apply List.foldlRecOn d (motive := Keeps) _ ⟨h, rfl⟩
      intro t ht de _
      apply List.foldlRecOn _ (motive := Keeps) _ ht
      intro t ht v hother
      exact pair t ht v (mem_filter.mp hother).1
    exact hfol.1

theorem EdgesConsistent.refreshOrdering (r : JobRegistry) (a : Afters) :
    (r.refreshOrdering a).EdgesConsistent := by
  let Keeps (t : JobRegistry) : Prop := t.EdgesConsistent ∧ EdgesOnly r t
  have hstr : Keeps { r with before := ∅, after := ∅ } := by
    refine ⟨?_, rfl⟩
    constructor <;> simp [EdgeMap.transposed_empty, EdgeMap.not_mentions_empty]
  have hfol : Keeps (r.refreshOrdering a) := by
    apply List.foldlRecOn r.live.values (motive := Keeps) _ hstr
    intro t ht job hjob
    refine ⟨ht.1.orderJob r.live.values a ?_ job hjob,
      ht.2.trans (edgesOnly_orderJob r.live.values a t job)⟩
    intro v hother
    rw [ht.2]
    exact (r.live.mem_jobs v.id).mpr ⟨v, hother, rfl⟩
  exact hfol.1

theorem EdgesConsistent.finish (h : r.EdgesConsistent) (id : Nat) (res : JobResult) :
    (r.finish id res).1.EdgesConsistent := by
  unfold JobRegistry.finish
  cases hl : r.live.jobs[id]? with
  | none => exact h
  | some job =>
    have keep (x : Nat) (hne : id ≠ x) (hx : x ∈ r.live.jobs) : x ∈ (r.live.erase id).jobs := by
      simp [LiveJobs.erase, mem_erase, hne, hx]
    constructor
    · exact h.transposed.unlink id
    · intro x hx
      have hm := EdgeMap.mentions_of_unlink r.before id x hx
      exact keep x hm.1 (h.before_live x hm.2)
    · intro x hx
      have hm := EdgeMap.mentions_of_unlink r.after id x hx
      exact keep x hm.1 (h.after_live x hm.2)
    · intro x hx
      exact h.before_irrefl x ((EdgeMap.edge_unlink r.before id x x).mp hx).2.2
    · intro x hx
      exact h.after_irrefl x ((EdgeMap.edge_unlink r.after id x x).mp hx).2.2

end

section

variable {r : JobRegistry} {drained : List JobEvent} {history : List JobEvent} (l : LiveJobs)
  (k id : Nat) (job : JobInfo)

private theorem mem_insert_live (id : Nat) :
    id ∈ (l.insert job).jobs ↔ job.id = id ∨ id ∈ l.jobs := by
  simp [LiveJobs.insert, mem_insert]

private theorem mem_erase_live : id ∈ (l.erase k).jobs ↔ k ≠ id ∧ id ∈ l.jobs := by
  simp [LiveJobs.erase, mem_erase]

private theorem getElem?_insert_live (id : Nat) :
    (l.insert job).jobs[id]? = if job.id = id then some job else l.jobs[id]? := by
  simp [LiveJobs.insert, Std.ExtTreeMap.getElem?_insert]

private theorem getElem?_erase_live :
    (l.erase k).jobs[id]? = if k = id then none else l.jobs[id]? := by
  simp [LiveJobs.erase, getElem?_erase]

private theorem size_erase_live (hk : k ∈ l.jobs) : (l.erase k).jobs.size + 1 = l.jobs.size := by
  have hpos : l.jobs.size ≠ 0 := by
    intro hzr
    rw [eq_empty_iff_size_eq_zero.mpr hzr] at hk
    simp at hk
  simp [LiveJobs.erase, size_erase, hk]
  omega

private theorem mem_live_of_getElem? (h : l.jobs[id]? = some job) : id ∈ l.jobs := by
  rw [mem_iff_isSome_getElem?, h, isSome_some]

private theorem IdsConsistent.of_live_iff (h : r.IdsConsistent) (r' : JobRegistry)
    (hlv : ∀ x, x ∈ r'.live.jobs ↔ x ∈ r.live.jobs) (ho : r'.owners = r.owners)
    (hnx : r'.nextId = r.nextId) : r'.IdsConsistent where
  positive x hx := h.positive x ((hlv x).mp hx)
  allocated x hx := by
    rw [hnx]
    exact h.allocated x ((hlv x).mp hx)
  distinct := LiveJobs.nodup_ids _
  owners_live x hx := by
    rw [ho] at hx
    exact (hlv x).mpr (h.owners_live x hx)
  next_positive := by
    rw [hnx]
    exact h.next_positive
  next_bounded := by
    rw [hnx]
    exact h.next_bounded

theorem Consistent.refreshOrdering (h : r.Consistent drained) (a : Afters) :
    (r.refreshOrdering a).Consistent drained where
  edges := EdgesConsistent.refreshOrdering r a
  ids := by
    rw [edgesOnly_refreshOrdering r a]
    exact h.ids.of_live_iff _ (fun _ => Iff.rfl) rfl rfl
  history := by
    rw [edgesOnly_refreshOrdering r a]
    exact ⟨h.history.1, h.history.2, h.history.3, h.history.4, h.history.5⟩

theorem Consistent.drainEvents (h : r.Consistent drained) :
    r.drainEvents.1.Consistent (drained ++ r.drainEvents.2) where
  edges := h.edges.of_live_subset _ rfl rfl (fun _ hid => hid)
  ids := h.ids.of_live_iff _ (fun _ => Iff.rfl) rfl rfl
  history := by
    have hh := h.history
    simp only [JobRegistry.drainEvents, append_nil]
    exact ⟨hh.1, hh.2, hh.3, hh.4, hh.5⟩

private theorem mem_ownersWith (o : Option String) (id : Nat)
    (h : id ∈ r.ownersWith o) : r.nextId = id ∨ id ∈ r.owners := by
  unfold ownersWith at h
  split at h
  · simpa [mem_insert] using h
  · exact .inr h

theorem IdsConsistent.install (h : r.IdsConsistent) (ki : JobKind) (un : String)
    (o : Option String) (hmax : r.nextId + 1 ≤ u32Max) :
    (r.install ki un o).IdsConsistent where
  positive id hid := by
    rcases (mem_insert_live _ _ id).mp hid with rfl | hid
    · exact h.next_positive
    · exact h.positive id hid
  allocated id hid := by
    rcases (mem_insert_live _ _ id).mp hid with rfl | hid
    · exact Nat.lt_succ_self _
    · exact Nat.lt_succ_of_lt (h.allocated id hid)
  distinct := LiveJobs.nodup_ids _
  owners_live id hid := by
    apply (mem_insert_live _ _ id).mpr
    rcases mem_ownersWith o id hid with rfl | hid
    · exact .inl rfl
    · exact .inr (h.owners_live id hid)
  next_positive := Nat.succ_pos _
  next_bounded := hmax

theorem IdsConsistent.finish (h : r.IdsConsistent) (id : Nat) (res : JobResult) :
    (r.finish id res).1.IdsConsistent := by
  unfold JobRegistry.finish
  split
  · exact h
  constructor
  · exact fun x hx => h.positive x ((mem_erase_live _ _ x).mp hx).2
  · exact fun x hx => h.allocated x ((mem_erase_live _ _ x).mp hx).2
  · exact LiveJobs.nodup_ids _
  · intro x hx
    have hx' : id ≠ x ∧ x ∈ r.owners := by
      simpa [mem_erase] using hx
    exact (mem_erase_live _ _ x).mpr ⟨hx'.1, h.owners_live x hx'.2⟩
  · exact h.next_positive
  · exact h.next_bounded

-- Publishing one event changes the accounts of the job it names and of no other.
private theorem HistoryConsistent.publish (h : r.HistoryConsistent history) (r' : JobRegistry)
    (e : JobEvent) (hpos : 0 < e.job.id) (hlt : e.job.id < r'.nextId)
    (hnx : ∀ x, x ≠ e.job.id → (x < r'.nextId ↔ x < r.nextId))
    (hos : ∀ x, x ≠ e.job.id → r'.live.jobs[x]? = r.live.jobs[x]?)
    (hlv : ∀ job, r'.live.jobs[e.job.id]? = some job →
      eventsOf e.job.id history ++ [e] = job.announced)
    (hgon : r'.live.jobs[e.job.id]? = none → ∃ job res, job.id = e.job.id ∧
      eventsOf e.job.id history ++ [e] = job.announced ++ [.removed job res])
    (hfa : r'.nFailed = (history ++ [e]).countP JobEvent.isCountedFailure)
    (hb : (history ++ [e]).countP JobEvent.isRemoved + r'.live.jobs.size + 1 = r'.nextId) :
    r'.HistoryConsistent (history ++ [e]) where
  live id job hjob := by
    by_cases hid : id = e.job.id
    · subst hid
      rw [eventsOf_append_self]
      exact hlv job hjob
    · rw [eventsOf_append_other id history e hid]
      exact h.live id job (by rw [← hos id hid]; exact hjob)
  removed id hid hbn hdead := by
    rw [mem_iff_isSome_getElem?, not_isSome_iff_eq_none] at hdead
    by_cases hsf : id = e.job.id
    · subst hsf
      rw [eventsOf_append_self]
      exact hgon hdead
    rw [eventsOf_append_other id history e hsf]
    apply h.removed id hid ((hnx id hsf).mp hbn)
    rw [mem_iff_isSome_getElem?, not_isSome_iff_eq_none, ← hos id hsf]
    exact hdead
  unallocated id hid := by
    have hsf : id ≠ e.job.id := by omega
    rw [eventsOf_append_other id history e hsf]
    apply h.unallocated id
    have hiff := hnx id hsf
    omega
  failed := hfa
  balanced := hb

theorem HistoryConsistent.install (h : r.HistoryConsistent history) (hids : r.IdsConsistent)
    (ki : JobKind) (un : String) (o : Option String) : (r.install ki un o).HistoryConsistent
      (history ++ [.new ⟨r.nextId, ki, un, .waiting⟩]) := by
  have hfh : r.nextId ∉ r.live.jobs := by
    intro hmem
    exact Nat.lt_irrefl _ (hids.allocated _ hmem)
  have hlp (x : Nat) : (r.install ki un o).live.jobs[x]? =
      if r.nextId = x then some ⟨r.nextId, ki, un, .waiting⟩ else r.live.jobs[x]? :=
    getElem?_insert_live r.live _ x
  have hsz : (r.install ki un o).live.jobs.size = r.live.jobs.size + 1 := by
    simp [JobRegistry.install, LiveJobs.insert, size_insert, hfh]
  have hnx : (r.install ki un o).nextId = r.nextId + 1 := rfl
  apply h.publish
  · exact hids.next_positive
  · exact Nat.lt_succ_self _
  · intro x hx
    have hx' : x ≠ r.nextId := hx
    omega
  · intro x hx
    exact (hlp x).trans (if_neg (Ne.symm hx))
  · intro job hjob
    have hsf : (some ⟨r.nextId, ki, un, .waiting⟩ : Option JobInfo) = some job := by
      rw [← hjob]
      exact ((hlp r.nextId).trans (if_pos rfl)).symm
    cases hsf
    have hnn := h.unallocated r.nextId (.inr (Nat.le_refl _))
    exact congrArg (· ++ [_]) hnn
  · intro hnn
    have hsf := (hlp r.nextId).trans (if_pos rfl)
    cases hnn.symm.trans hsf
  · rw [countP_append]
    exact h.failed
  · have hb := h.balanced
    rw [hsz, hnx, countP_append, countP_singleton]
    simp only [JobEvent.isRemoved, Bool.false_eq_true, if_false]
    omega

theorem Consistent.allocate (h : r.Consistent drained) (ki : JobKind) (un : String)
    (o : Option String) (job : Job) (r' : JobRegistry)
    (ha : r.allocate ki un o = some (job, r')) : r'.Consistent drained := by
  unfold JobRegistry.allocate at ha
  by_cases hmax : r.nextId + 1 ≤ u32Max
  · rw [if_pos hmax] at ha
    cases ha
    constructor
    · apply h.edges.of_live_subset (r.install ki un o) rfl rfl
      intro id hid
      exact (mem_insert_live _ _ id).mpr (.inr hid)
    · exact h.ids.install ki un o hmax
    · rw [JobRegistry.install, ← append_assoc]
      exact h.history.install h.ids ki un o
  · rw [if_neg hmax] at ha
    cases ha

theorem Consistent.markRunning (h : r.Consistent drained) (id : Nat) :
    (r.markRunning id).1.Consistent drained := by
  unfold JobRegistry.markRunning
  cases hl : r.live.jobs[id]? with
  | none => exact h
  | some job =>
    have hid : job.id = id := r.live.filed id job hl
    subst hid
    have hlv : job.id ∈ r.live.jobs := mem_live_of_getElem? _ _ job hl
    have hdo (x : Nat) :
        x ∈ (r.live.insert { job with state := .running }).jobs ↔ x ∈ r.live.jobs := by
      rw [mem_insert_live]
      constructor
      · rintro (rfl | hx)
        · exact hlv
        · exact hx
      · exact .inr
    cases hs : job.state with
    | running => simpa [hs] using h
    | waiting =>
      simp only [hs, reduceCtorEq, if_false]
      have hsf : (r.live.insert { job with state := .running }).jobs[job.id]? =
          some { job with state := .running } :=
        (getElem?_insert_live _ _ job.id).trans (if_pos rfl)
      constructor
      · exact h.edges.of_live_subset _ rfl rfl (fun x hx => (hdo x).mpr hx)
      · exact h.ids.of_live_iff _ hdo rfl rfl
      rw [← append_assoc]
      apply h.history.publish
      · exact h.ids.positive _ hlv
      · exact h.ids.allocated _ hlv
      · exact fun _ _ => Iff.rfl
      · intro x hx
        exact (getElem?_insert_live _ _ x).trans (if_neg (Ne.symm hx))
      · intro i hif
        cases hsf.symm.trans hif
        have hh := h.history.live job.id job hl
        simp only [JobInfo.announced, hs] at hh ⊢
        exact congrArg (· ++ [_]) hh
      · intro hnn
        cases hsf.symm.trans hnn
      · rw [countP_append]
        exact h.history.failed
      · have hsz : (r.live.insert { job with state := .running }).jobs.size
            = r.live.jobs.size := by
          simp [LiveJobs.insert, size_insert, hlv]
        rw [countP_append]
        simp only [hsz]
        exact h.history.balanced

-- The failure counter cannot saturate: every counted job took its own identifier.
private theorem saturatingSucc_nFailed (h : r.Consistent drained) (hlv : 0 < r.live.jobs.size) :
    saturatingSucc r.nFailed = r.nFailed + 1 := by
  have hfa := h.history.failed
  have hba := h.history.balanced
  have hbo := h.ids.next_bounded
  have hle : (drained ++ r.events).countP JobEvent.isCountedFailure ≤
      (drained ++ r.events).countP JobEvent.isRemoved := by
    apply countP_mono_left
    intro e _
    exact JobEvent.isRemoved_of_isCountedFailure e
  unfold saturatingSucc
  rw [if_pos (by omega)]

theorem Consistent.finish (h : r.Consistent drained) (id : Nat) (res : JobResult) :
    (r.finish id res).1.Consistent drained := by
  have hed := h.edges.finish id res
  unfold JobRegistry.finish at hed ⊢
  cases hl : r.live.jobs[id]? with
  | none => exact h
  | some job =>
    simp only [hl] at hed
    have hid : job.id = id := r.live.filed id job hl
    subst hid
    have hlv : job.id ∈ r.live.jobs := mem_live_of_getElem? _ _ job hl
    have hsz := size_erase_live r.live job.id hlv
    have hlp := getElem?_erase_live r.live job.id
    constructor
    · exact hed
    · have hids := h.ids.finish job.id res
      simpa only [JobRegistry.finish, hl] using hids
    rw [← append_assoc]
    apply h.history.publish
    · exact h.ids.positive _ hlv
    · exact h.ids.allocated _ hlv
    · exact fun _ _ => Iff.rfl
    · intro x hx
      exact (hlp x).trans (if_neg (Ne.symm hx))
    · intro i hif
      cases ((hlp job.id).trans (if_pos rfl)).symm.trans hif
    · intro _
      exact ⟨job, res, rfl, congrArg (· ++ [_]) (h.history.live job.id job hl)⟩
    · rw [countP_append, countP_singleton, ← h.history.failed]
      cases hr : res.incrementsFailedCounter with
      | false => simp [JobEvent.isCountedFailure, hr]
      | true =>
        simp only [JobEvent.isCountedFailure, hr, if_true]
        exact saturatingSucc_nFailed h (by omega)
    · have hb := h.history.balanced
      rw [countP_append, countP_singleton]
      simp only [JobEvent.isRemoved, if_true]
      omega

end

end JobRegistry

/-- The queue, the registry and the events that were taken out. -/
structure Ledger where
  queue : JobQueue
  registry : JobRegistry
  drained : List JobEvent

/-- Operations on the registry and its queue. -/
inductive JobOp where
  | enqueue (kind : JobKind) (unitName : String) (owner : Option String)
  | enqueueInternal (kind : JobKind) (unitName : String)
  | popFront
  | popReady (states : Std.ExtTreeMap String UnitState) (afters : Afters)
  | popReadyBy (states : Std.ExtTreeMap String UnitState) (afters : Afters)
      (score : Nat → Job → Score)
  | refreshOrdering (afters : Afters)
  | markRunning (id : Nat)
  | finish (id : Nat) (result : JobResult)
  | cancel (id : Nat)
  | cancelAll
  | drainEvents

namespace Ledger

def fresh : Ledger := ⟨.empty, .default, []⟩

/-- All events so far. -/
def history (s : Ledger) : List JobEvent := s.drained ++ s.registry.events

/-- One operation; `none` when the identifier space is exhausted. -/
def step (s : Ledger) : JobOp → Option Ledger
  | .enqueue kind unitName owner =>
    (s.queue.enqueueOwned s.registry kind unitName owner).map
      (fun (_, q, r) => { s with queue := q, registry := r })
  | .enqueueInternal kind unitName => some { s with queue := s.queue.enqueueInternal kind unitName }
  | .popFront => some { s with queue := (s.queue.popFront s.registry).2 }
  | .popReady states afters =>
    some { s with queue := (s.queue.popReady s.registry states afters).2 }
  | .popReadyBy states afters score =>
    some { s with queue := (s.queue.popReadyBy s.registry states afters score).2 }
  | .refreshOrdering afters => some { s with registry := s.registry.refreshOrdering afters }
  | .markRunning id => some { s with registry := (s.registry.markRunning id).1 }
  | .finish id result => some { s with registry := (s.registry.finish id result).1 }
  | .cancel id =>
    let (q, r, _) := s.queue.cancel s.registry id
    some { s with queue := q, registry := r }
  | .cancelAll =>
    let (q, r, _) := s.queue.cancelAll s.registry
    some { s with queue := q, registry := r }
  | .drainEvents =>
    let (r, events) := s.registry.drainEvents
    some { s with registry := r, drained := s.drained ++ events }

variable (q : JobQueue) (r : JobRegistry) (drained : List JobEvent)

private theorem consistent_cancel (h : r.Consistent drained) (id : Nat) :
    (q.cancel r id).2.1.Consistent drained := by
  unfold JobQueue.cancel
  by_cases hid : id = 0
  · rw [if_pos hid]
    exact h
  · rw [if_neg hid]
    exact h.finish id .canceled

private theorem consistent_cancelAll (h : r.Consistent drained) :
    (q.cancelAll r).2.1.Consistent drained := by
  unfold JobQueue.cancelAll
  apply List.foldlRecOn _ (motive := fun s : JobQueue × JobRegistry × Nat =>
    s.2.1.Consistent drained) _ h
  intro s hs id _
  exact consistent_cancel s.1 s.2.1 drained hs id

theorem consistent_step (s t : Ledger) (op : JobOp) (h : s.registry.Consistent s.drained)
    (hsp : s.step op = some t) : t.registry.Consistent t.drained := by
  cases op with
  | enqueue ki n o =>
    obtain ⟨⟨job, q, r⟩, hq, rfl⟩ := map_eq_some_iff.mp hsp
    obtain ⟨⟨j', r'⟩, ha, hpai⟩ := map_eq_some_iff.mp hq
    cases hpai
    exact h.allocate ki n o job r ha
  | enqueueInternal ki n =>
    cases hsp
    exact h
  | popFront =>
    cases hsp
    exact h
  | popReady st a =>
    cases hsp
    exact h
  | popReadyBy st a sc =>
    cases hsp
    exact h
  | refreshOrdering a =>
    cases hsp
    exact h.refreshOrdering a
  | markRunning id =>
    cases hsp
    exact h.markRunning id
  | finish id re =>
    cases hsp
    exact h.finish id re
  | cancel id =>
    cases hsp
    exact consistent_cancel s.queue s.registry s.drained h id
  | cancelAll =>
    cases hsp
    exact consistent_cancelAll s.queue s.registry s.drained h
  | drainEvents =>
    cases hsp
    exact h.drainEvents

/-- Every run of operations from a fresh registry keeps the edge maps opposite and on live
jobs, the identifiers distinct and allocated, and every job's events in lifecycle order. -/
theorem registry_consistent_after_every_run (ops : List JobOp) (s : Ledger)
    (h : runPartial step fresh ops = some s) :
    s.registry.EdgesConsistent ∧ s.registry.IdsConsistent ∧
      s.registry.HistoryConsistent s.history := by
  have hs : s.registry.Consistent s.drained := by
    apply runPartial_invariant (I := fun s : Ledger => s.registry.Consistent s.drained) _ fresh s
      ops JobRegistry.consistent_default h
    intro s op t hs hsp
    exact consistent_step s t op hs hsp
  exact ⟨hs.edges, hs.ids, hs.history⟩

def mixedRun : List JobOp :=
  [.enqueue .start "b.service" (some ":1.7"), .enqueue .stop "a.service" none,
    .refreshOrdering chainAfters, .markRunning 2, .finish 2 .failed, .drainEvents,
    .enqueue .restart "a.service" (some ""), .cancel 1, .refreshOrdering chainAfters,
    .enqueue .isolate "b.service" none, .cancelAll]

theorem registry_consistent_after_mixedRun :
    ∃ s, runPartial step fresh mixedRun = some s ∧ s.registry.EdgesConsistent ∧
      s.registry.IdsConsistent ∧ s.registry.HistoryConsistent s.history := by
  have hsome : (runPartial step fresh mixedRun).isSome = true := by decide
  obtain ⟨s, hs⟩ := isSome_iff_exists.mp hsome
  exact ⟨s, hs, registry_consistent_after_every_run mixedRun s hs⟩

end Ledger
end Rustd.Jobs
