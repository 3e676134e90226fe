import Rustd.Base.EdgeMap
import Rustd.Base.Run

/-!
# Live job registry

Embedding of the job types and of `JobRegistry` in `src/job.rs:17–414`. The registry is shared
behind a lock in the source; here every operation takes it and returns it. `u32` counters are
natural numbers with the source's checked or saturating additions. The release profile aborts on
panic, so running out of identifiers is `none`: no later state exists.
-/

namespace Rustd.Jobs

open Rustd.Base List Std.ExtTreeMap

/-- Largest `u32`, the saturation point of the lifetime counters. -/
def u32Max : Nat := 4294967295

def saturatingSucc (n : Nat) : Nat := if n < u32Max then n + 1 else u32Max

/-- The kind of work a job requests. -/
inductive JobKind where
  | nop
  | start
  | stop
  | reload
  | restart
  | isolate
  deriving DecidableEq

/-- Runtime state of an exported job. -/
inductive JobState where
  | waiting
  | running
  deriving DecidableEq

/-- Completion result of an exported job. -/
inductive JobResult where
  | done
  | canceled
  | timeout
  | failed
  | dependency
  | skipped
  | invalid
  | frozen
  | concurrency
  deriving DecidableEq

/-- Results counted by the manager's failure counter. -/
def JobResult.incrementsFailedCounter : JobResult → Bool
  | .failed | .invalid | .frozen | .concurrency => true
  | _ => false

/-- `Job` of `src/job.rs:110`. -/
structure Job where
  id : Nat
  kind : JobKind
  unitName : String
  deriving DecidableEq

/-- Identity and state of one live exported job. -/
structure JobInfo where
  id : Nat
  kind : JobKind
  unitName : String
  state : JobState
  deriving DecidableEq

def JobInfo.toJob (info : JobInfo) : Job := ⟨info.id, info.kind, info.unitName⟩

/-- Registry events in creation order. -/
inductive JobEvent where
  | new (job : JobInfo)
  | stateChanged (job : JobInfo)
  | removed (job : JobInfo) (result : JobResult)
  deriving DecidableEq

/-- Live jobs by identifier. Every entry is filed under its own identifier, so a job can
be found only where its `id` says. -/
structure LiveJobs where
  jobs : Std.ExtTreeMap Nat JobInfo
  filed : ∀ (id : Nat) (info : JobInfo), jobs[id]? = some info → info.id = id

namespace LiveJobs

def empty : LiveJobs := ⟨∅, by simp⟩

def insert (l : LiveJobs) (info : JobInfo) : LiveJobs where
  jobs := l.jobs.insert info.id info
  filed id other h := by
    rw [Std.ExtTreeMap.getElem?_insert] at h
    by_cases hid : info.id = id
    · simp only [hid, Std.ReflCmp.compare_self, if_true, Option.some.injEq] at h
      rw [← h, hid]
    · exact l.filed id other (by simpa [hid] using h)

def erase (l : LiveJobs) (id : Nat) : LiveJobs where
  jobs := l.jobs.erase id
  filed k other h := by
    rw [Std.ExtTreeMap.getElem?_erase] at h
    by_cases hid : id = k
    · simp [hid] at h
    · exact l.filed k other (by simpa [hid] using h)

def values (l : LiveJobs) : List JobInfo := l.jobs.toList.map Prod.snd

variable (l : LiveJobs)

theorem mem_values (info : JobInfo) : info ∈ l.values ↔ l.jobs[info.id]? = some info := by
  constructor
  · intro h
    obtain ⟨⟨id, job⟩, hp, rfl⟩ := List.mem_map.mp h
    have hj := mem_toList_iff_getElem?_eq_some.mp hp
    rw [l.filed id job hj]
    exact hj
  · intro h
    exact List.mem_map.mpr ⟨(info.id, info), mem_toList_iff_getElem?_eq_some.mpr h, rfl⟩

theorem mem_jobs (id : Nat) : id ∈ l.jobs ↔ ∃ i ∈ l.values, i.id = id := by
  rw [mem_iff_isSome_getElem?]
  constructor
  · intro h
    obtain ⟨i, hi⟩ := Option.isSome_iff_exists.mp h
    have hid := l.filed id i hi
    exact ⟨i, (l.mem_values i).mpr (by rw [hid]; exact hi), hid⟩
  · rintro ⟨i, hi, rfl⟩
    simp [(l.mem_values i).mp hi]

theorem nodup_ids : (l.values.map JobInfo.id).Nodup := by
  have hk : l.values.map JobInfo.id = l.jobs.toList.map Prod.fst := by
    rw [values, List.map_map]
    apply map_congr_left
    intro p hp
    exact l.filed p.1 p.2 (mem_toList_iff_getElem?_eq_some.mp hp)
  rw [hk]
  apply pairwise_map.mpr
  exact l.jobs.distinct_keys_toList.imp (fun h he => h (by simp [he]))

end LiveJobs

/-- Shared registry of all externally visible jobs. -/
structure JobRegistry where
  nextId : Nat
  nInstalled : Nat
  nFailed : Nat
  live : LiveJobs
  owners : Std.ExtTreeMap Nat (Std.ExtTreeSet String)
  before : EdgeMap Nat
  after : EdgeMap Nat
  events : List JobEvent

/-- Units named by `After=`, keyed by the unit that carries the setting. -/
abbrev Afters := Std.ExtTreeMap String (List String)

/-- Kinds whose ordering is reversed. -/
def ordersAsStop : JobKind → Bool
  | .stop | .restart => true
  | _ => false

namespace JobRegistry

/-- Registry at manager start. -/
def default : JobRegistry where
  nextId := 1
  nInstalled := 0
  nFailed := 0
  live := .empty
  owners := ∅
  before := ∅
  after := ∅
  events := []

variable (r : JobRegistry) (kind : JobKind) (id : Nat) (unitName : String) (owner : Option String)

/-- Owner sets after an allocation; an empty owner name is dropped. -/
def ownersWith : Std.ExtTreeMap Nat (Std.ExtTreeSet String) :=
  match owner.filter (!·.isEmpty) with
  | some o => r.owners.insert r.nextId ((r.owners.getD r.nextId ∅).insert o)
  | none => r.owners

/-- The registry with one more job, under the next identifier. -/
def install : JobRegistry :=
  let info : JobInfo := ⟨r.nextId, kind, unitName, .waiting⟩
  { r with
    nextId := r.nextId + 1
    live := r.live.insert info
    nInstalled := saturatingSucc r.nInstalled
    owners := r.ownersWith owner
    events := r.events ++ [.new info] }

/-- Allocate an exported job, with an owner when a nonempty one is given. -/
def allocate : Option (Job × JobRegistry) :=
  if r.nextId + 1 ≤ u32Max then
    some (⟨r.nextId, kind, unitName⟩, r.install kind unitName owner)
  else none

/-- `JobRegistry::get` of `src/job.rs:229`. -/
def get : Option JobInfo := r.live.jobs[id]?

/-- All live jobs in numeric identifier order. -/
def list : List JobInfo := r.live.values

/-- True when no exported job is waiting or running. -/
def isEmpty (r : JobRegistry) : Bool := r.live.jobs.isEmpty

/-- True when the exported job still exists. -/
def isLive : Bool := r.live.jobs.contains id

/-- Jobs that must finish before `id` may run, by identifier. -/
def getBefore : List JobInfo :=
  match r.before[id]? with
  | none => []
  | some ids => ids.toList.filterMap (r.live.jobs[·]?)

/-- Record that `waiter` may run only after `first`, in both edge maps. -/
def order (waiter first : Nat) : JobRegistry :=
  { r with before := r.before.link waiter first, after := r.after.link first waiter }

/-- Body of the innermost ordering loop for one pair of live jobs. -/
def orderPair (job : JobInfo) (r : JobRegistry) (other : JobInfo) : JobRegistry :=
  if job.id = other.id then r
  else if ordersAsStop job.kind then r.order other.id job.id
  else r.order job.id other.id

/-- Ordering edges of one live job. -/
def orderJob (jobs : List JobInfo) (afters : Afters) (r : JobRegistry) (job : JobInfo) :
    JobRegistry :=
  match afters[job.unitName]? with
  | none => r
  | some dependencies =>
    dependencies.foldl (fun r dependency =>
      (jobs.filter (·.unitName == dependency)).foldl (orderPair job) r) r

/-- Rebuild live job ordering from unit `After=` relationships. -/
def refreshOrdering (afters : Afters) : JobRegistry :=
  r.live.values.foldl (orderJob r.live.values afters) { r with before := ∅, after := ∅ }

/-- Transition a waiting job to running. -/
def markRunning : JobRegistry × Bool :=
  match r.live.jobs[id]? with
  | none => (r, false)
  | some job =>
    if job.state = .running then (r, true)
    else
      let changed := { job with state := .running }
      ({ r with live := r.live.insert changed, events := r.events ++ [.stateChanged changed] },
       true)

/-- Remove a live job and queue its completion event. -/
def finish (result : JobResult) : JobRegistry × Option JobInfo :=
  match r.live.jobs[id]? with
  | none => (r, none)
  | some job =>
    ({ r with
       live := r.live.erase id
       nFailed := if result.incrementsFailedCounter then saturatingSucc r.nFailed else r.nFailed
       owners := r.owners.erase id
       before := r.before.unlink id
       after := r.after.unlink id
       events := r.events ++ [.removed job result] }, some job)

/-- Drain queued job lifecycle events in creation order. -/
def drainEvents : JobRegistry × List JobEvent :=
  ({ r with events := [] }, r.events)

end JobRegistry
end Rustd.Jobs
