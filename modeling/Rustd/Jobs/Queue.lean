import Rustd.Jobs.Registry
import Rustd.UnitFile

/-!
# Pending job queue

Embedding of `JobQueue` and of the readiness test in `src/job.rs:416–617`. Several queues
share one registry in the source, so each operation takes the registry and returns it.
-/

namespace Rustd.Jobs

/-- Dispatch score: an `f64` as far as comparison and finiteness see it. -/
inductive Score where
  | nan
  | negInf
  | posInf
  | finite (value : Rat)
  deriving DecidableEq

/-- Part of `JobQueue::pop_ready_by`, `src/job.rs:514`. -/
def Score.isFinite : Score → Bool
  | .finite _ => true
  | _ => false

/-- `f64` strict comparison `self > other`. -/
def Score.gt : Score → Score → Bool
  | .finite a, .finite b => decide (b < a)
  | .finite _, .negInf => true
  | .posInf, .finite _ => true
  | .posInf, .negInf => true
  | _, _ => false

/-- Readiness against unit states alone. Only starts wait, and only for
loaded units that are changing state. -/
def jobIsReady (job : Job) (states : Std.ExtTreeMap String UnitState) (afters : Afters) : Bool :=
  if job.kind = .start then
    (afters.getD job.unitName []).all (fun dep =>
      match states[dep]? with
      | none => true
      | some .active | some .inactive | some .failed | some .maintenance => true
      | some _ => false)
  else true

/-- Ordered queue of pending jobs. -/
structure JobQueue where
  pending : List Job
  deriving DecidableEq

/-- Test shared by both dispatchers. -/
def dispatchable (r : JobRegistry) (states : Std.ExtTreeMap String UnitState) (afters : Afters)
    (job : Job) : Bool :=
  (job.id == 0 || (r.getBefore job.id).isEmpty) && jobIsReady job states afters

namespace JobQueue

/-- Part of `JobQueue::default`, `src/job.rs:424`. -/
def empty : JobQueue := ⟨[]⟩

variable (q : JobQueue) (r : JobRegistry) (job : Job) (kind : JobKind)
  (states : Std.ExtTreeMap String UnitState) (unitName : String) (afters : Afters)

/-- Append a new exported job, with an optional owner. -/
def enqueueOwned (owner : Option String) : Option (Job × JobQueue × JobRegistry) :=
  (r.allocate kind unitName owner).map (fun (job, r) => (job, ⟨q.pending ++ [job]⟩, r))

/-- `JobQueue::enqueue` of `src/job.rs:446`. -/
def enqueue : Option (Job × JobQueue × JobRegistry) :=
  q.enqueueOwned r kind unitName none

/-- Append an unexported implementation step. -/
def enqueueInternal : JobQueue :=
  ⟨q.pending ++ [⟨0, kind, unitName⟩]⟩

/-- Part of `JobQueue::pop_front`, `src/job.rs:479`. -/
def keeps : Bool := job.id == 0 || r.isLive job.id

/-- Move an already allocated job into this queue. -/
def pushExisting : JobQueue :=
  if keeps r job then ⟨q.pending ++ [job]⟩ else q

/-- Remove and return the oldest queued job that is still wanted. -/
def popFront : Option Job × JobQueue :=
  match q.pending.dropWhile (!keeps r ·) with
  | [] => (none, ⟨[]⟩)
  | job :: rest => (some job, ⟨rest⟩)

/-- Part of `JobQueue::pop_front`, `src/job.rs:479`. -/
def retain : JobQueue := ⟨q.pending.filter (keeps r)⟩

/-- Remove and return the job at a position, as `VecDeque::remove`. -/
def remove (pos : Nat) : Option Job × JobQueue :=
  (q.pending[pos]?, ⟨q.pending.eraseIdx pos⟩)

/-- Next job whose ordering prerequisites are satisfied. -/
def popReady : Option Job × JobQueue :=
  match (q.retain r).pending.findIdx? (dispatchable r states afters) with
  | none => (none, q.retain r)
  | some pos => (q.retain r).remove pos

/-- One step of the scoring loop. -/
def improve (best : Option (Nat × Score)) (index : Nat) (candidate : Score) :
    Option (Nat × Score) :=
  let improves := match best with
    | some (_, current) => candidate.gt current
    | none => true
  if candidate.isFinite && improves then some (index, candidate) else best

/-- The scoring loop over the queue from position `index` on. The score callback may keep state in
the source, so it also sees the position it is called for. -/
def bestScored (ready : Job → Bool) (score : Nat → Job → Score) :
    List Job → Nat → Option (Nat × Score) → Option (Nat × Score)
  | [], _, best => best
  | job :: rest, index, best =>
    bestScored ready score rest (index + 1)
      (if ready job then improve best index (score index job) else best)

/-- Highest-scoring ready job; without a finite score the first ready one. -/
def popReadyBy (score : Nat → Job → Score) : Option Job × JobQueue :=
  let ready := dispatchable r states afters
  let best := bestScored ready score (q.retain r).pending 0 none
  match (best.map Prod.fst).or ((q.retain r).pending.findIdx? ready) with
  | none => (none, q.retain r)
  | some pos => (q.retain r).remove pos

/-- Cancel a job whether it is queued here or already running. -/
def cancel (id : Nat) : JobQueue × JobRegistry × Bool :=
  if id = 0 then (q, r, false)
  else
    let (r, finished) := r.finish id .canceled
    (⟨q.pending.filter (·.id != id)⟩, r, finished.isSome)

/-- Cancel every live job and count the canceled ones. -/
def cancelAll : JobQueue × JobRegistry × Nat :=
  (r.list.map JobInfo.id).foldl (fun (q, r, n) id =>
    let (q, r, canceled) := q.cancel r id
    (q, r, if canceled then n + 1 else n)) (q, r, 0)

/-- Number of runnable or waiting jobs still present. -/
def len : Nat := q.pending.countP (keeps r)

/-- True if no wanted job is queued. -/
def isEmpty : Bool := q.len r == 0

def requested (requests : List (JobKind × String)) : JobQueue × JobRegistry :=
  requests.foldl (fun s request =>
    match s.1.enqueue s.2 request.1 request.2 with
    | some (_, q, r) => (q, r)
    | none => s) (.empty, .default)

end JobQueue
end Rustd.Jobs
