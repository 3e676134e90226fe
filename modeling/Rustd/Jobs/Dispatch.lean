import Rustd.Jobs.Lifecycle

/-!
# Dispatching pending jobs

What `JobQueue::pop_ready` and `JobQueue::pop_ready_by` return. Ordering edges live in the registry
under exported identifiers only, so an internal job (identifier zero) neither waits for a job nor
makes one wait. Exported jobs respect transaction order; whether a queue with internal jobs does is
decided pair by pair.
-/

namespace Rustd.Jobs

open Rustd.Base List Option Std.ExtTreeMap

variable (q : JobQueue) (r : JobRegistry) (afters : Afters)
  (states : Std.ExtTreeMap String UnitState) (job : Job)

/-- A live job must finish before `job` may run. -/
def Blocked : Prop :=
  ∃ first ∈ r.live.values, MustPrecede afters first.toJob job

/-- The registry knows the jobs of the queue. -/
def JobQueue.FiledIn : Prop :=
  ∀ job ∈ q.pending, job.id < r.nextId ∧
    ∀ info, r.live.jobs[job.id]? = some info → info.toJob = job

/-- The job is in the queue and not cancelled. -/
def JobQueue.Wanted : Prop :=
  job ∈ (q.retain r).pending

namespace JobQueue

variable {q : JobQueue} {r : JobRegistry} {states : Std.ExtTreeMap String UnitState}
  {afters : Afters}

theorem mem_retain (job : Job) :
    job ∈ (q.retain r).pending ↔ job ∈ q.pending ∧ (job.id = 0 ∨ job.id ∈ r.live.jobs) := by
  simp [retain, keeps, JobRegistry.isLive]

@[simp] theorem retain_refreshOrdering : q.retain (r.refreshOrdering afters) = q.retain r := by
  rw [JobRegistry.edgesOnly_refreshOrdering r afters]
  rfl

private theorem getBefore_refreshOrdering (hq : q.FiledIn r) (job : Job) (hjob : job ∈ q.pending)
    (hlv : job.id ∈ r.live.jobs) :
    (r.refreshOrdering afters).getBefore job.id = [] ↔ ¬Blocked r afters job := by
  have hl : (r.refreshOrdering afters).live = r.live := by
    rw [JobRegistry.edgesOnly_refreshOrdering r afters]
  rw [mem_iff_isSome_getElem?] at hlv
  obtain ⟨i, hif⟩ := isSome_iff_exists.mp hlv
  have hsa : i.toJob = job := (hq job hjob).2 i hif
  rw [JobRegistry.getBefore_eq_nil_iff, hl]
  constructor
  · rintro h ⟨a, hfr, hmu⟩
    have hf := (r.live.mem_values a).mp hfr
    apply h a.id ((r.live.mem_jobs a.id).mpr ⟨a, hfr, rfl⟩)
    rw [JobRegistry.waitsFor_refreshOrdering]
    exact ⟨a, i, hf, hif, by rw [hsa]; exact hmu⟩
  · intro h v _ hwa
    obtain ⟨a, snd, hf, hs, hmu⟩ := (r.waitsFor_refreshOrdering afters job.id v).mp hwa
    cases hif.symm.trans hs
    have hid := r.live.filed v a hf
    apply h
    exact ⟨a, (r.live.mem_values a).mpr (by rw [hid]; exact hf), by rw [← hsa]; exact hmu⟩

/-- After a refresh a wanted job may be dispatched exactly when it is internal or blocked by
no live job, and its unit states allow it. -/
theorem dispatchable_refreshOrdering (hq : q.FiledIn r) (job : Job) (hjob : q.Wanted r job) :
    dispatchable (r.refreshOrdering afters) states afters job = true ↔
      (job.id = 0 ∨ ¬Blocked r afters job) ∧ jobIsReady job states afters = true := by
  have hmem := (mem_retain job).mp hjob
  simp only [dispatchable, Bool.and_eq_true, Bool.or_eq_true, beq_iff_eq, List.isEmpty_iff]
  apply and_congr_left'
  by_cases hzr : job.id = 0
  · simp [hzr]
  have hlv := hmem.2.resolve_left hzr
  simp only [hzr, false_or]
  exact getBefore_refreshOrdering hq job hmem.1 hlv

/-- A dispatcher took the job at position `pos` of the wanted jobs and left the others. -/
structure Took (q : JobQueue) (r : JobRegistry) (pos : Nat) (job : Job) (rest : JobQueue) :
    Prop where
  found : (q.retain r).pending[pos]? = some job
  left : rest.pending = (q.retain r).pending.eraseIdx pos

theorem Took.wanted {pos : Nat} {job : Job} (h : Took q r pos job l) :
    q.Wanted r job := mem_of_getElem? h.found

private theorem findIdx?_eq_some (p : Job → Bool) (l : List Job) (pos : Nat)
    (h : l.findIdx? p = some pos) :
    ∃ job, l[pos]? = some job ∧ p job = true ∧
      ∀ (i : Nat) (v : Job), i < pos → l[i]? = some v → p v = false := by
  obtain ⟨hlt, hp, hbf⟩ := findIdx?_eq_some_iff_getElem.mp h
  refine ⟨l[pos], getElem?_eq_getElem hlt, hp, ?_⟩
  intro i v hi hother
  have hil : i < l.length := Nat.lt_trans hi hlt
  rw [getElem?_eq_getElem hil, some.injEq] at hother
  have hnot := hbf i hi
  rw [hother] at hnot
  simpa using hnot

private theorem took_popReady (job : Job) (l : JobQueue)
    (h : q.popReady r states afters = (some job, l)) :
    ∃ pos, Took q r pos job l ∧ dispatchable r states afters job = true ∧
      ∀ (i : Nat) (v : Job), i < pos → (q.retain r).pending[i]? = some v →
        dispatchable r states afters v = false := by
  unfold popReady at h
  cases hfnd : (q.retain r).pending.findIdx? (dispatchable r states afters) with
  | none =>
    simp only [hfnd] at h
    cases h
  | some pos =>
    simp only [hfnd, remove] at h
    obtain ⟨f, hfn, hrd, hbf⟩ := findIdx?_eq_some _ _ pos hfnd
    obtain ⟨hjob, hrest⟩ := Prod.mk.inj h
    cases hfn.symm.trans hjob
    exact ⟨pos, ⟨hfn, by rw [← hrest]⟩, hrd, hbf⟩

theorem popReady_isSome_iff : (q.popReady r states afters).1.isSome = true ↔
      ∃ job, q.Wanted r job ∧ dispatchable r states afters job = true := by
  unfold popReady
  cases hfnd : (q.retain r).pending.findIdx? (dispatchable r states afters) with
  | none =>
    rw [findIdx?_eq_none_iff] at hfnd
    simp only [isSome_none, Bool.false_eq_true, false_iff, not_exists, not_and]
    intro job hjob
    rw [hfnd job hjob]
    exact Bool.false_ne_true
  | some pos =>
    obtain ⟨f, hfn, hrd, -⟩ := findIdx?_eq_some _ _ pos hfnd
    simp only [remove, hfn, isSome_some, true_iff]
    exact ⟨f, mem_of_getElem? hfn, hrd⟩

end JobQueue

def Score.beats (a b : Score) : Bool := a.isFinite && (!b.isFinite || a.gt b)

private theorem Score.beats_of_gt (a b : Score) (ha : a.isFinite = true) (h : a.gt b = true) :
    a.beats b = true := by
  simp [Score.beats, ha, h]

private theorem Score.beats_trans (a b c : Score) (ha : a.isFinite = true) (hb : b.isFinite = true)
    (hab : a.gt b = true) (hbc : b.beats c = true) : a.beats c = true := by
  cases a <;> cases b <;> cases c <;> simp_all [Score.beats, Score.isFinite, Score.gt]
  exact lt_trans hbc hab

theorem Score.beats_of_not_beats (a b c : Score) (ha : a.isFinite = true) (hb : b.isFinite = true)
    (hab : a.gt b = true) (hcb : c.beats b = false) : a.beats c = true := by
  cases a <;> cases b <;> cases c <;> simp_all [Score.beats, Score.isFinite, Score.gt]
  exact lt_of_le_of_lt hcb hab

namespace JobQueue

variable {q : JobQueue} {r : JobRegistry} {states : Std.ExtTreeMap String UnitState}
  {afters : Afters} {score sc : Nat → Job → Score}

section

variable {ready : Job → Bool}

/-- What the scoring loop holds after looking at a list of jobs: nothing while no ready job
has a finite score, and else the first ready job with the best score. -/
def IsBest (ready : Job → Bool) (score : Nat → Job → Score) (l : List Job) :
    Option (Nat × Score) → Prop
  | none => ∀ (i : Nat) (job : Job), l[i]? = some job → ready job = true →
      (score i job).isFinite = false
  | some (j, s) => s.isFinite = true ∧
      (∃ job, l[j]? = some job ∧ ready job = true ∧ score j job = s) ∧
      ∀ (i : Nat) (other : Job), l[i]? = some other → ready other = true →
        (i < j → s.beats (score i other) = true) ∧ (j < i → (score i other).beats s = false)

variable (pre : List Job) (x : Job) (best : Option (Nat × Score))

private theorem getElem?_snoc (v : Job) (i : Nat) (h : (pre ++ [x])[i]? = some v) :
    (i < pre.length ∧ pre[i]? = some v) ∨ (i = pre.length ∧ x = v) := by
  rcases Nat.lt_trichotomy i pre.length with hi | rfl | hi
  · rw [getElem?_append_left hi] at h
    exact .inl ⟨hi, h⟩
  · simp at h
    exact .inr ⟨rfl, h⟩
  rw [getElem?_append_right (Nat.le_of_lt hi)] at h
  have hout : (i - pre.length) ≥ [x].length := by
    simp only [length_singleton]
    omega
  rw [getElem?_eq_none hout] at h
  cases h

private theorem getElem?_snoc_old (job : Job) (i : Nat) (h : pre[i]? = some job) :
    (pre ++ [x])[i]? = some job := by
  rw [getElem?_append_left (List.getElem?_eq_some_iff.mp h).1]
  exact h

-- A skipped or losing job leaves the best choice as it is.
private theorem IsBest.keep (h : IsBest ready sc pre best) (hx : ready x = true → match best with
      | none => (sc pre.length x).isFinite = false
      | some (_, s) => (sc pre.length x).beats s = false) :
    IsBest ready sc (pre ++ [x]) best := by
  cases best with
  | none =>
    intro i job hi hrd
    rcases getElem?_snoc pre x job i hi with ⟨-, hold⟩ | ⟨rfl, rfl⟩
    · exact h i job hold hrd
    · exact hx hrd
  | some b =>
    obtain ⟨j, s⟩ := b
    obtain ⟨hfi, ⟨job, hj, hrd, hsc⟩, hall⟩ := h
    have hjlt : j < pre.length := (List.getElem?_eq_some_iff.mp hj).1
    refine ⟨hfi, ⟨job, getElem?_snoc_old pre x job j hj, hrd, hsc⟩, ?_⟩
    intro i v hi hother
    rcases getElem?_snoc pre x v i hi with ⟨-, hold⟩ | ⟨rfl, rfl⟩
    · exact hall i v hold hother
    · exact ⟨fun hlt => by omega, fun _ => hx hother⟩

-- A ready job with a finite score that nothing before it reaches becomes the best choice.
private theorem IsBest.replace (h : IsBest ready score pre best) (hrd : ready x = true)
    (hfi : (score pre.length x).isFinite = true)
    (him : ∀ j s, best = some (j, s) → (score pre.length x).gt s = true) :
    IsBest ready score (pre ++ [x]) (some (pre.length, score pre.length x)) := by
  refine ⟨hfi, ⟨x, by simp, hrd, rfl⟩, ?_⟩
  intro i v hi hother
  rcases getElem?_snoc pre x v i hi with ⟨hlt, hold⟩ | ⟨rfl, rfl⟩
  · refine ⟨fun _ => ?_, fun hgt => by omega⟩
    cases best with
    | none =>
      have hnan := h i v hold hother
      simp [Score.beats, hfi, hnan]
    | some b =>
      obtain ⟨j, s⟩ := b
      obtain ⟨hs, ⟨job, hj, -, hsc⟩, hall⟩ := h
      have hgt := him j s rfl
      rcases Nat.lt_trichotomy i j with hij | rfl | hij
      · exact Score.beats_trans _ s _ hfi hs hgt ((hall i v hold hother).1 hij)
      · cases hj.symm.trans hold
        rw [hsc]
        exact Score.beats_of_gt _ s hfi hgt
      · exact Score.beats_of_not_beats _ s _ hfi hs hgt ((hall i v hold hother).2 hij)
  · exact ⟨fun hlt => by omega, fun hlt => by omega⟩

private theorem isBest_improve (h : IsBest ready score pre best) :
    IsBest ready score (pre ++ [x])
      (if ready x then improve best pre.length (score pre.length x) else best) := by
  by_cases hrd : ready x = true
  · rw [if_pos hrd]
    unfold improve
    cases hfi : (score pre.length x).isFinite with
    | false =>
      simp only [Bool.false_and, Bool.false_eq_true, if_false]
      apply h.keep
      intro _
      cases best with
      | none => exact hfi
      | some b => simp [Score.beats, hfi]
    | true =>
      cases best with
      | none =>
        simp only [Bool.and_self, if_true]
        exact h.replace pre x none hrd hfi (fun _ _ hb => by cases hb)
      | some b =>
        obtain ⟨j, s⟩ := b
        cases hgt : (score pre.length x).gt s with
        | false =>
          simp only [hgt, Bool.and_false, Bool.false_eq_true, if_false]
          apply h.keep
          intro _
          have hs := h.1
          simp [Score.beats, hgt, hs]
        | true =>
          simp only [hgt, Bool.and_self, if_true]
          apply h.replace pre x (some (j, s)) hrd hfi
          intro j' s' hb
          cases hb
          exact hgt
  · rw [if_neg hrd]
    exact h.keep pre x best (absurd · hrd)

-- Induction on the jobs still to be looked at; the jobs already seen are the invariant's list.
private theorem isBest_bestScored (l : List Job) (best : Option (Nat × Score))
    (h : IsBest ready score pre best) :
    IsBest ready score (pre ++ l) (bestScored ready score l pre.length best) := by
  induction l generalizing pre best with
  | nil =>
    rw [append_nil]
    exact h
  | cons x t ih =>
    have hnx := ih (pre ++ [x]) _ (isBest_improve pre x best h)
    rw [append_assoc, singleton_append, length_append, length_singleton] at hnx
    exact hnx

end

private theorem isBest_popReadyBy :
    IsBest (dispatchable r states afters) score (q.retain r).pending
      (bestScored (dispatchable r states afters) score (q.retain r).pending 0 none) := by
  have hempty : IsBest (dispatchable r states afters) score [] none := by
    intro i job hi
    simp at hi
  exact isBest_bestScored [] _ none hempty

/-- Scored dispatch takes a dispatchable job whose score beats every dispatchable job before
it and is beaten by none after it. -/
theorem took_popReadyBy (job : Job) (l : JobQueue)
    (h : q.popReadyBy r states afters score = (some job, l)) :
    ∃ pos, Took q r pos job l ∧ dispatchable r states afters job = true ∧
      ∀ (i : Nat) (v : Job), (q.retain r).pending[i]? = some v →
        dispatchable r states afters v = true →
          (i < pos → (score pos job).beats (score i v) = true) ∧
            (pos < i → (score i v).beats (score pos job) = false) := by
  have hbst : IsBest (dispatchable r states afters) score (q.retain r).pending
      (bestScored (dispatchable r states afters) score (q.retain r).pending 0 none) :=
    isBest_popReadyBy
  unfold popReadyBy at h
  cases hb : bestScored (dispatchable r states afters) score (q.retain r).pending 0 none with
  | some b =>
    obtain ⟨pos, s⟩ := b
    rw [hb] at hbst
    obtain ⟨-, ⟨f, hfn, hrd, hsc⟩, hall⟩ := hbst
    simp only [hb, map_some, some_or, remove] at h
    obtain ⟨hjob, hrest⟩ := Prod.mk.inj h
    cases hfn.symm.trans hjob
    refine ⟨pos, ⟨hfn, by rw [← hrest]⟩, hrd, ?_⟩
    rw [hsc]
    exact hall
  | none =>
    rw [hb] at hbst
    simp only [hb, map_none, none_or] at h
    obtain ⟨pos, htoo, hrd, hbf⟩ := took_popReady job l h
    refine ⟨pos, htoo, hrd, ?_⟩
    intro i v hi hother
    refine ⟨fun hlt => ?_, fun _ => ?_⟩
    · rw [hbf i v hlt hi] at hother
      cases hother
    · simp [Score.beats, hbst i v hi hother]

private theorem popReadyBy_isSome_iff : (q.popReadyBy r states afters score).1.isSome = true ↔
      ∃ job, q.Wanted r job ∧ dispatchable r states afters job = true := by
  rw [← popReady_isSome_iff]
  have hbst : IsBest (dispatchable r states afters) score (q.retain r).pending
      (bestScored (dispatchable r states afters) score (q.retain r).pending 0 none) :=
    isBest_popReadyBy
  unfold popReadyBy popReady
  cases hb : bestScored (dispatchable r states afters) score (q.retain r).pending 0 none with
  | none => simp only [hb, map_none, none_or]
  | some b =>
    obtain ⟨pos, s⟩ := b
    rw [hb] at hbst
    obtain ⟨-, ⟨f, hfn, hrd, -⟩, -⟩ := hbst
    cases hfnd : (q.retain r).pending.findIdx? (dispatchable r states afters) with
    | none =>
      rw [findIdx?_eq_none_iff] at hfnd
      rw [hfnd f (mem_of_getElem? hfn)] at hrd
      cases hrd
    | some a =>
      obtain ⟨job, hjob, -, -⟩ := findIdx?_eq_some _ _ a hfnd
      simp only [hb, map_some, some_or, remove, hfn, hjob, isSome_some]

def favour (pos : Nat) : Nat → Job → Score := fun i _ => if i = pos then .finite 1 else .finite 0

private theorem popReadyBy_favour (pos : Nat) (job : Job)
    (hpos : (q.retain r).pending[pos]? = some job)
    (hrd : dispatchable r states afters job = true) :
    q.popReadyBy r states afters (favour pos) =
      (some job, ⟨(q.retain r).pending.eraseIdx pos⟩) := by
  have hsome : (q.popReadyBy r states afters (favour pos)).1.isSome = true :=
    popReadyBy_isSome_iff.mpr ⟨job, mem_of_getElem? hpos, hrd⟩
  obtain ⟨t, htk⟩ := isSome_iff_exists.mp hsome
  have hpop : q.popReadyBy r states afters (favour pos) =
      (some t, (q.popReadyBy r states afters (favour pos)).2) := by rw [← htk]
  obtain ⟨at', htoo, -, hbst⟩ := took_popReadyBy t _ hpop
  have hsa : at' = pos := by
    have hco := hbst pos job hpos hrd
    by_contra hne
    rcases Nat.lt_or_gt_of_ne hne with hlt | hgt
    · have hlos := hco.2 hlt
      simp only [favour, if_neg hne, if_true] at hlos
      exact absurd hlos (by decide)
    have hwon := hco.1 hgt
    simp only [favour, if_neg hne, if_true] at hwon
    exact absurd hwon (by decide)
  subst hsa
  have hjob : t = job := some.inj (htoo.found.symm.trans hpos)
  apply Prod.ext
  · rw [htk, hjob]
  have hlf := htoo.left
  cases hrest : (q.popReadyBy r states afters (favour at')).2 with
  | mk p =>
    rw [hrest] at hlf
    rw [← hlf]

/-- The job that scored dispatch is to take among the wanted jobs: one that is ready, the first of
those with the largest finite score, or the first that is ready when no score is finite. Internal
jobs carry the identifier zero, which the registry never files, so they have no prerequisites. -/
structure Picks (q : JobQueue) (r : JobRegistry) (states : Std.ExtTreeMap String UnitState)
    (afters : Afters) (score : Nat → Job → Score) (before : List Job) (job : Job) : Prop where
  wanted : job.id = 0 ∨ r.isLive job.id = true
  unblocked : job.id = 0 ∨ r.getBefore job.id = []
  ready : jobIsReady job states afters = true
  best : (score before.length job).isFinite = true →
    ∀ (i : Nat) (other : Job), (q.retain r).pending[i]? = some other →
      dispatchable r states afters other = true → (score i other).isFinite = true →
        (score i other).gt (score before.length job) = false ∧
          (i < before.length → (score before.length job).gt (score i other) = true)
  first : (score before.length job).isFinite = false →
    (∀ (i : Nat) (other : Job), (q.retain r).pending[i]? = some other →
      dispatchable r states afters other = true → (score i other).isFinite = false) ∧
    ∀ other ∈ before, dispatchable r states afters other = false

private theorem Score.gt_asymm {a b : Score} (h : a.gt b = true) : b.gt a = false := by
  cases a <;> cases b <;> simp_all [Score.gt]
  exact le_of_lt h

private theorem Took.picks {pos : Nat} {job : Job} (h : Took q r pos job t)
    (hrd : dispatchable r states afters job = true)
    (hbst : ∀ (i : Nat) (v : Job), (q.retain r).pending[i]? = some v →
      dispatchable r states afters v = true →
        (i < pos → (score pos job).beats (score i v) = true) ∧
          (pos < i → (score i v).beats (score pos job) = false)) :
    ∃ l a, (q.retain r).pending = l ++ job :: a ∧
      t.pending = l ++ a ∧ Picks q r states afters score l job := by
  obtain ⟨hlt, hjob⟩ := List.getElem?_eq_some_iff.mp h.found
  have hln : ((q.retain r).pending.take pos).length = pos := length_take_of_le hlt.le
  refine ⟨(q.retain r).pending.take pos, (q.retain r).pending.drop (pos + 1), ?_, ?_, ?_⟩
  · rw [← hjob, ← drop_eq_getElem_cons hlt, take_append_drop]
  · rw [h.left, eraseIdx_eq_take_drop_succ]
  have hkp := (mem_filter.mp h.wanted).2
  simp only [keeps, Bool.or_eq_true, beq_iff_eq] at hkp
  simp only [dispatchable, Bool.and_eq_true, Bool.or_eq_true, beq_iff_eq, List.isEmpty_iff] at hrd
  refine ⟨hkp, hrd.1, hrd.2, ?_, ?_⟩
  · rw [hln]
    intro hfi i v hi hother hsc
    obtain ⟨hbf, haf⟩ := hbst i v hi hother
    rcases Nat.lt_trichotomy i pos with hlss | rfl | hmor
    · have hgt := hbf hlss
      simp only [Score.beats, hfi, hsc, Bool.true_and, Bool.not_true, Bool.false_or] at hgt
      exact ⟨Score.gt_asymm hgt, fun _ => hgt⟩
    · cases h.found.symm.trans hi
      refine ⟨?_, fun hsf => absurd hsf (Nat.lt_irrefl i)⟩
      cases score i job <;> simp [Score.gt]
    have hnot := haf hmor
    simp only [Score.beats, hfi, hsc, Bool.true_and, Bool.not_true, Bool.false_or] at hnot
    exact ⟨hnot, fun hlss => absurd hlss (Nat.lt_asymm hmor)⟩
  · rw [hln]
    intro hfi
    have hnn : ∀ (i : Nat) (v : Job), i < pos → (q.retain r).pending[i]? = some v →
        dispatchable r states afters v = false := by
      intro i v hlss hi
      by_contra hother
      have hwon := (hbst i v hi (by simpa using hother)).1 hlss
      simp [Score.beats, hfi] at hwon
    constructor
    · intro i v hi hother
      rcases Nat.lt_trichotomy i pos with hlss | rfl | hmor
      · rw [hnn i v hlss hi] at hother
        cases hother
      · cases h.found.symm.trans hi
        exact hfi
      · simpa [Score.beats, hfi] using (hbst i v hi hother).2 hmor
    · intro v hother
      obtain ⟨i, hi⟩ := mem_iff_getElem?.mp hother
      rw [getElem?_take, ite_none_right_eq_some] at hi
      exact hnn i v hi.1 hi.2

private theorem eq_retain_of_popReadyBy (l : JobQueue)
    (h : q.popReadyBy r states afters score = (none, l)) : l = q.retain r := by
  unfold popReadyBy at h
  dsimp only at h
  split at h
  · exact (Prod.mk.inj h).2.symm
  · obtain ⟨hnn, hrest⟩ := Prod.mk.inj h
    rw [← hrest, eraseIdx_of_length_le (List.getElem?_eq_none_iff.mp hnn)]

/-- Scored dispatch refines plain dispatch: it returns a job exactly when plain dispatch does, the
job is the one to be picked, and the others stay in order. -/
theorem scored_dispatch_refines (q : JobQueue) (r : JobRegistry)
    (states : Std.ExtTreeMap String UnitState) (afters : Afters) (score : Nat → Job → Score) :
    (q.popReadyBy r states afters score).1.isSome = (q.popReady r states afters).1.isSome ∧
      match q.popReadyBy r states afters score with
      | (none, rest) => rest = q.retain r
      | (some job, rest) => ∃ before after, (q.retain r).pending = before ++ job :: after ∧
          rest.pending = before ++ after ∧ Picks q r states afters score before job := by
  constructor
  · rw [Bool.eq_iff_iff, popReadyBy_isSome_iff, popReady_isSome_iff]
  cases hpop : q.popReadyBy r states afters score with
  | mk re rest =>
    cases re with
    | some job =>
      obtain ⟨pos, htoo, hrd, hbst⟩ := took_popReadyBy job rest hpop
      exact htoo.picks hrd hbst
    | none => exact eq_retain_of_popReadyBy rest hpop

end JobQueue

section

variable {q : JobQueue} {r : JobRegistry}

theorem JobQueue.FiledIn.mono (h : q.FiledIn r) (q' : JobQueue) (r' : JobRegistry)
    (hq : ∀ job ∈ q'.pending, job ∈ q.pending) (hnx : r.nextId ≤ r'.nextId)
    (hlv : ∀ (id : Nat) (i : JobInfo), id < r.nextId → r'.live.jobs[id]? = some i →
      ∃ old, r.live.jobs[id]? = some old ∧ old.toJob = i.toJob) : q'.FiledIn r' := by
  intro job hjob
  have hold := h job (hq job hjob)
  refine ⟨Nat.lt_of_lt_of_le hold.1 hnx, ?_⟩
  intro i hif
  obtain ⟨old, hlp, hsa⟩ := hlv job.id i hold.1 hif
  rw [← hsa]
  exact hold.2 old hlp

theorem JobQueue.FiledIn.sublist (h : q.FiledIn r) (q' : JobQueue)
    (hq : ∀ job ∈ q'.pending, job ∈ q.pending) : q'.FiledIn r :=
  h.mono q' r hq (Nat.le_refl _) (fun _ i _ hif => ⟨i, hif, rfl⟩)

variable (states : Std.ExtTreeMap String UnitState) (afters : Afters) (job : Job)

theorem JobQueue.FiledIn.enqueueOwned (h : q.FiledIn r) (k : JobKind) (un : String)
    (o : Option String) (job : Job) (q' : JobQueue) (r' : JobRegistry)
    (he : q.enqueueOwned r k un o = some (job, q', r')) : q'.FiledIn r' := by
  unfold JobQueue.enqueueOwned JobRegistry.allocate at he
  by_cases hmax : r.nextId + 1 ≤ u32Max
  case neg =>
    rw [if_neg hmax] at he
    cases he
  rw [if_pos hmax] at he
  cases he
  have hlp (id : Nat) : (r.install k un o).live.jobs[id]? =
      if r.nextId = id then some ⟨r.nextId, k, un, .waiting⟩ else r.live.jobs[id]? := by
    simp [JobRegistry.install, LiveJobs.insert, Std.ExtTreeMap.getElem?_insert]
  intro job hjob
  rcases mem_append.mp hjob with hold | hnew
  · have hlt := (h job hold).1
    refine ⟨Nat.lt_succ_of_lt hlt, ?_⟩
    intro i hif
    rw [hlp, if_neg (by omega)] at hif
    exact (h job hold).2 i hif
  · rw [mem_singleton] at hnew
    subst hnew
    refine ⟨Nat.lt_succ_self _, ?_⟩
    intro i hif
    rw [hlp, if_pos rfl] at hif
    cases hif
    rfl

theorem JobQueue.FiledIn.enqueueInternal (h : q.FiledIn r) (hr : r.IdsConsistent) (k : JobKind)
    (un : String) : (q.enqueueInternal k un).FiledIn r := by
  intro job hjob
  rcases mem_append.mp hjob with hold | hnew
  · exact h job hold
  rw [mem_singleton] at hnew
  subst hnew
  refine ⟨hr.next_positive, ?_⟩
  intro i hif
  have hpos := hr.positive 0 (by rw [mem_iff_isSome_getElem?, hif]; rfl)
  omega

theorem JobQueue.FiledIn.markRunning (h : q.FiledIn r) (id : Nat) :
    q.FiledIn (r.markRunning id).1 := by
  unfold JobRegistry.markRunning
  cases hl : r.live.jobs[id]? with
  | none => exact h
  | some job =>
    by_cases hs : job.state = .running
    · simpa [hs] using h
    simp only [hs, if_false]
    refine h.mono q _ (fun _ hj => hj) (Nat.le_refl r.nextId) ?_
    intro k i _ hif
    simp only [LiveJobs.insert, Std.ExtTreeMap.getElem?_insert] at hif
    have hid := r.live.filed id job hl
    by_cases hk : id = k
    · subst hk
      simp only [hid, Std.ReflCmp.compare_self, if_true, some.injEq] at hif
      subst hif
      exact ⟨job, hl, by rw [JobInfo.toJob, hid]; rfl⟩
    · simp [hid, hk] at hif
      exact ⟨i, hif, rfl⟩

theorem JobQueue.FiledIn.finish (h : q.FiledIn r) (id : Nat) (res : JobResult) :
    q.FiledIn (r.finish id res).1 := by
  unfold JobRegistry.finish
  cases hl : r.live.jobs[id]? with
  | none => exact h
  | some job =>
    refine h.mono q _ (fun _ hj => hj) (Nat.le_refl r.nextId) ?_
    intro k i _ hif
    simp only [LiveJobs.erase, getElem?_erase] at hif
    by_cases hk : id = k
    · simp [hk] at hif
    · simp [hk] at hif
      exact ⟨i, hif, rfl⟩

theorem JobQueue.FiledIn.cancel (h : q.FiledIn r) (id : Nat) :
    (q.cancel r id).1.FiledIn (q.cancel r id).2.1 := by
  unfold JobQueue.cancel
  by_cases hid : id = 0
  · rw [if_pos hid]
    exact h
  rw [if_neg hid]
  apply (h.finish id .canceled).sublist
  intro job hjob
  exact (mem_filter.mp hjob).1

theorem JobQueue.FiledIn.cancelAll (h : q.FiledIn r) :
    (q.cancelAll r).1.FiledIn (q.cancelAll r).2.1 := by
  unfold JobQueue.cancelAll
  apply List.foldlRecOn _ (motive := fun s : JobQueue × JobRegistry × Nat => s.1.FiledIn s.2.1) _ h
  intro s hs id _
  exact JobQueue.FiledIn.cancel hs id

private theorem mem_of_mem_remove (pos : Nat) (job : Job)
    (h : job ∈ ((q.retain r).remove pos).2.pending) : job ∈ q.pending :=
  ((JobQueue.mem_retain job).mp (mem_of_mem_eraseIdx h)).1

private theorem mem_of_mem_popReady (h : job ∈ (q.popReady r states afters).2.pending) :
    job ∈ q.pending := by
  unfold JobQueue.popReady at h
  split at h
  · exact ((JobQueue.mem_retain job).mp h).1
  · exact mem_of_mem_remove _ job h

private theorem mem_of_mem_popReadyBy (score : Nat → Job → Score) (job : Job)
    (h : job ∈ (q.popReadyBy r states afters score).2.pending) : job ∈ q.pending := by
  simp only [JobQueue.popReadyBy] at h
  split at h
  · exact ((JobQueue.mem_retain job).mp h).1
  · exact mem_of_mem_remove _ job h

private theorem mem_of_mem_popFront (h : job ∈ (q.popFront r).2.pending) : job ∈ q.pending := by
  unfold JobQueue.popFront at h
  split at h
  · cases h
  rename_i first rest hdr
  apply (dropWhile_sublist (!JobQueue.keeps r ·)).subset
  rw [hdr]
  exact mem_cons_of_mem first h

private theorem filedIn_step (s t : Ledger) (op : JobOp) (hc : s.registry.Consistent s.drained)
    (h : s.queue.FiledIn s.registry) (hsp : s.step op = some t) : t.queue.FiledIn t.registry := by
  cases op with
  | enqueue k n o =>
    obtain ⟨⟨job, q, r⟩, hq, rfl⟩ := map_eq_some_iff.mp hsp
    exact h.enqueueOwned k n o job q r hq
  | enqueueInternal k n =>
    cases hsp
    exact h.enqueueInternal hc.ids k n
  | popFront =>
    cases hsp
    exact h.sublist _ mem_of_mem_popFront
  | popReady states afters =>
    cases hsp
    exact h.sublist _ (mem_of_mem_popReady states afters)
  | popReadyBy states afters score =>
    cases hsp
    exact h.sublist _ (mem_of_mem_popReadyBy states afters score)
  | refreshOrdering afters =>
    cases hsp
    rw [JobRegistry.edgesOnly_refreshOrdering s.registry afters]
    exact h.mono _ _ (fun _ hj => hj) (Nat.le_refl _) (fun _ i _ hif => ⟨i, hif, rfl⟩)
  | markRunning id =>
    cases hsp
    exact h.markRunning id
  | finish id re =>
    cases hsp
    exact h.finish id re
  | cancel id =>
    cases hsp
    exact h.cancel id
  | cancelAll =>
    cases hsp
    exact h.cancelAll
  | drainEvents =>
    cases hsp
    exact h.mono _ _ (fun _ hj => hj) (Nat.le_refl _) (fun _ i _ hif => ⟨i, hif, rfl⟩)

/-- After every run from the start, the number of each job in the queue has been given out, and a
live job with that number is the job itself. -/
theorem filedIn_after_every_run (ops : List JobOp) (s : Ledger)
    (h : runPartial Ledger.step .fresh ops = some s) : s.queue.FiledIn s.registry := by
  have hbo : s.registry.Consistent s.drained ∧ s.queue.FiledIn s.registry := by
    apply runPartial_invariant
      (I := fun s : Ledger => s.registry.Consistent s.drained ∧ s.queue.FiledIn s.registry)
      _ Ledger.fresh s ops ⟨JobRegistry.consistent_default, by intro job hjob; cases hjob⟩ h
    intro s op t hs hsp
    exact ⟨Ledger.consistent_step s t op hs.1 hsp, filedIn_step s t op hs.1 hs.2 hsp⟩
  exact hbo.2

def someOps : List JobOp :=
  [.enqueue .start "a.service" none, .enqueue .start "b.service" none, .popFront, .markRunning 1,
    .cancel 2, .enqueueInternal .stop "b.service", .finish 1 .done, .drainEvents]

theorem filedIn_after_dispatch :
    ∃ s, runPartial Ledger.step .fresh someOps = some s ∧ s.queue.FiledIn s.registry :=
  ⟨_, rfl, filedIn_after_every_run someOps _ rfl⟩

end

/-- Transaction order between two jobs of one kind: starts follow `After=`, stops reverse it. -/
def TransactionBefore (first second : Job) : Prop :=
  (first.kind = .start ∧ second.kind = .start ∧
      OrderedAfter afters second.unitName first.unitName) ∨
    (first.kind = .stop ∧ second.kind = .stop ∧
      OrderedAfter afters first.unitName second.unitName)

def RespectsTransactions (result : Option Job × JobQueue) : Prop :=
  ∀ job, result.1 = some job → ∀ other ∈ result.2.pending, ¬TransactionBefore afters other job

/-- Both ways to take a job keep to the order. -/
def DispatchInOrder (afters : Afters) : Prop :=
  RespectsTransactions afters (q.popReady (r.refreshOrdering afters) states afters) ∧
    ∀ score, RespectsTransactions afters
      (q.popReadyBy (r.refreshOrdering afters) states afters score)

/-- Two jobs in transaction order are both exported, or the later one is held back: exported
and blocked by a live job, or a start with an unsettled `After=` unit. -/
def OrderEnforced (afters : Afters) (first second : Job) : Prop :=
  (first.id ≠ 0 ∧ second.id ≠ 0) ∨ (second.id ≠ 0 ∧ Blocked r afters second) ∨
    jobIsReady second states afters = false

section

variable {q : JobQueue} {r : JobRegistry} {states : Std.ExtTreeMap String UnitState}
  {afters : Afters}

private theorem not_transactionBefore_self (h : Acyclic (OrderedAfter afters)) (job : Job) :
    ¬TransactionBefore afters job job := by
  rintro (⟨-, -, hsf⟩ | ⟨-, -, hsf⟩)
  · exact h.irrefl job.unitName hsf
  · exact h.irrefl job.unitName hsf

private theorem mustPrecede_of_transactionBefore (a second : Job) (hid : a.id ≠ second.id)
    (h : TransactionBefore afters a second) : MustPrecede afters a second := by
  rcases h with ⟨-, hk, haf⟩ | ⟨hk, -, haf⟩
  · exact ⟨hid, .inl ⟨by rw [hk]; rfl, haf⟩⟩
  · exact ⟨hid, .inr ⟨by rw [hk]; rfl, haf⟩⟩

private theorem blocked_of_transactionBefore (hq : q.FiledIn r) (h : Acyclic (OrderedAfter afters))
    (first second : Job) (hfr : q.Wanted r first) (hsn : q.Wanted r second)
    (he : first.id ≠ 0 ∧ second.id ≠ 0) (hbf : TransactionBefore afters first second) :
    Blocked r afters second := by
  have hfm := (JobQueue.mem_retain first).mp hfr
  have hsm := (JobQueue.mem_retain second).mp hsn
  obtain ⟨i, hif, hid⟩ := (r.live.mem_jobs first.id).mp (hfm.2.resolve_left he.1)
  have hlp := (r.live.mem_values i).mp hif
  rw [hid] at hlp
  have hsa : i.toJob = first := (hq first hfm.1).2 i hlp
  have hne : first.id ≠ second.id := by
    intro heq
    have hsn' : i.toJob = second := (hq second hsm.1).2 i (by rw [← heq]; exact hlp)
    rw [← hsa, ← hsn'] at hbf
    exact not_transactionBefore_self h _ hbf
  exact ⟨i, hif, by rw [hsa]; exact mustPrecede_of_transactionBefore first second hne hbf⟩

private theorem not_dispatchable_of_orderEnforced (hq : q.FiledIn r)
    (h : Acyclic (OrderedAfter afters))
    (a snd : Job) (hfr : q.Wanted r a) (hsn : q.Wanted r snd) (hbf : TransactionBefore afters a snd)
    (he : OrderEnforced r states afters a snd) :
    dispatchable (r.refreshOrdering afters) states afters snd = false := by
  rw [← Bool.not_eq_true, JobQueue.dispatchable_refreshOrdering hq snd hsn]
  rintro ⟨hfre, hrd⟩
  rcases he with hex | ⟨hid, hbl⟩ | hun
  · have hbl := blocked_of_transactionBefore hq h a snd hfr hsn hex hbf
    exact hfre.elim hex.2 (· hbl)
  · exact hfre.elim hid (· hbl)
  · rw [hun] at hrd
    cases hrd

private theorem dispatchable_of_not_orderEnforced (hq : q.FiledIn r) (a snd : Job)
    (hsn : q.Wanted r snd) (hnot : ¬OrderEnforced r states afters a snd) :
    dispatchable (r.refreshOrdering afters) states afters snd = true := by
  rw [JobQueue.dispatchable_refreshOrdering hq snd hsn]
  unfold OrderEnforced at hnot
  push Not at hnot
  refine ⟨?_, by simpa using hnot.2.2⟩
  by_cases hid : snd.id = 0
  · exact .inl hid
  · exact .inr (hnot.2.1 hid)

private theorem overtakes_by_favour (a snd : Job) (hfr : q.Wanted r a)
    (hsn : q.Wanted r snd) (hne : a ≠ snd)
    (hrd : dispatchable (r.refreshOrdering afters) states afters snd = true) :
    ∃ score, (q.popReadyBy (r.refreshOrdering afters) states afters score).1 = some snd ∧
      a ∈ (q.popReadyBy (r.refreshOrdering afters) states afters score).2.pending := by
  obtain ⟨pos, hpos⟩ := mem_iff_getElem?.mp hsn
  obtain ⟨i, hi⟩ := mem_iff_getElem?.mp hfr
  have hap : i ≠ pos := by
    rintro rfl
    exact hne (some.inj (hi.symm.trans hpos))
  have hpop : q.popReadyBy (r.refreshOrdering afters) states afters (JobQueue.favour pos) =
      (some snd, ⟨(q.retain (r.refreshOrdering afters)).pending.eraseIdx pos⟩) :=
    JobQueue.popReadyBy_favour pos snd (by simpa using hpos) hrd
  refine ⟨JobQueue.favour pos, by rw [hpop], ?_⟩
  rw [hpop, JobQueue.retain_refreshOrdering]
  exact mem_eraseIdx_iff_getElem?.mpr ⟨i, hap, hi⟩

private theorem not_transactionBefore_of_took (hq : q.FiledIn r) (h : Acyclic (OrderedAfter afters))
    (he : ∀ a snd, q.Wanted r a → q.Wanted r snd →
      TransactionBefore afters a snd → OrderEnforced r states afters a snd)
    (pos : Nat) (job : Job) (l : JobQueue)
    (htoo : JobQueue.Took q (r.refreshOrdering afters) pos job l)
    (hrd : dispatchable (r.refreshOrdering afters) states afters job = true) (other : Job)
    (hother : other ∈ l.pending) : ¬TransactionBefore afters other job := by
  intro hbf
  have hjob : q.Wanted r job := by simpa [JobQueue.Wanted] using htoo.wanted
  have hwn : q.Wanted r other := by
    rw [htoo.left, JobQueue.retain_refreshOrdering] at hother
    exact mem_of_mem_eraseIdx hother
  rw [not_dispatchable_of_orderEnforced hq h other job hwn hjob hbf
    (he other job hwn hjob hbf)] at hrd
  cases hrd

/-- Dispatch follows transaction order for every score exactly when every pair of pending jobs
in transaction order is exported on both sides or held back. -/
theorem dispatch_in_order_iff (hq : q.FiledIn r) (h : Acyclic (OrderedAfter afters)) :
    DispatchInOrder q r states afters ↔
      ∀ first second, q.Wanted r first → q.Wanted r second →
        TransactionBefore afters first second → OrderEnforced r states afters first second := by
  constructor
  · intro hdi first second hfr hsn hbf
    by_contra hnot
    have hne : first ≠ second := by
      rintro rfl
      exact not_transactionBefore_self h first hbf
    obtain ⟨score, htk, hlf⟩ := overtakes_by_favour first second hfr hsn hne
      (dispatchable_of_not_orderEnforced hq first second hsn hnot)
    exact hdi.2 score second htk first hlf hbf
  · intro hen
    constructor
    · intro job hjob
      obtain ⟨pos, htoo, hrd, -⟩ := JobQueue.took_popReady job
        (q.popReady (r.refreshOrdering afters) states afters).2 (by rw [← hjob])
      exact not_transactionBefore_of_took hq h hen pos job _ htoo hrd
    intro score job hjob
    obtain ⟨pos, htoo, hrd, -⟩ := JobQueue.took_popReadyBy job
      (q.popReadyBy (r.refreshOrdering afters) states afters score).2 (by rw [← hjob])
    exact not_transactionBefore_of_took hq h hen pos job _ htoo hrd

end

def chainStates : Std.ExtTreeMap String UnitState :=
  ((∅ : Std.ExtTreeMap String UnitState).insert "a.service" .inactive).insert "b.service" .inactive

def isolateStarts : JobQueue :=
  (JobQueue.empty.enqueueInternal .start "a.service").enqueueInternal .start "b.service"

theorem isolateStarts_overtaken :
    isolateStarts.FiledIn .default ∧ Acyclic (OrderedAfter chainAfters) ∧
      ¬DispatchInOrder isolateStarts .default chainStates chainAfters := by
  refine ⟨?_, acyclic_chainAfters, ?_⟩
  · intro job hjob
    have hzr : job.id = 0 := by
      have hall : ∀ job ∈ isolateStarts.pending, job.id = 0 := by decide
      exact hall job hjob
    refine ⟨by rw [hzr]; decide, ?_⟩
    intro i hif
    simp [JobRegistry.default, LiveJobs.empty] at hif
  · intro h
    apply h.2 (JobQueue.favour 1) ⟨0, .start, "b.service"⟩ (by decide) ⟨0, .start, "a.service"⟩
      (by decide)
    exact .inl ⟨rfl, rfl, ["a.service"], by decide, by decide⟩

def exportedStarts : JobQueue × JobRegistry :=
  JobQueue.requested [(.start, "a.service"), (.start, "b.service")]

theorem filedIn_exportedStarts : exportedStarts.1.FiledIn exportedStarts.2 := by
  have hall : ∀ job ∈ exportedStarts.1.pending, job.id < exportedStarts.2.nextId ∧
      exportedStarts.2.live.jobs[job.id]?.map JobInfo.toJob = some job := by decide
  intro job hjob
  refine ⟨(hall job hjob).1, ?_⟩
  intro i hif
  have hsa := (hall job hjob).2
  rw [hif] at hsa
  exact some.inj hsa

theorem dispatch_in_order_exportedStarts :
    exportedStarts.1.FiledIn exportedStarts.2 ∧
      DispatchInOrder exportedStarts.1 exportedStarts.2 chainStates chainAfters := by
  have hids : ∀ job ∈ (exportedStarts.1.retain exportedStarts.2).pending, job.id ≠ 0 := by decide
  refine ⟨filedIn_exportedStarts,
    (dispatch_in_order_iff filedIn_exportedStarts acyclic_chainAfters).mpr ?_⟩
  intro a b hfr hsn _
  exact .inl ⟨hids a hfr, hids b hsn⟩

def RequestOrderPerUnit (afters : Afters) (score : Nat → Job → Score) : Prop :=
  ∀ job rest, q.popReadyBy r states afters score = (some job, rest) →
    ∃ pos, JobQueue.Took q r pos job rest ∧
      ∀ (i : Nat) (earlier : Job), i < pos → (q.retain r).pending[i]? = some earlier →
        earlier.unitName ≠ job.unitName

/-- A job overtakes an earlier pending job of its unit only when the earlier one is not
dispatchable or the later one's score beats it. -/
theorem overtaken_job_unready_or_outscored (q : JobQueue) (r : JobRegistry)
    (states : Std.ExtTreeMap String UnitState) (afters : Afters) (score : Nat → Job → Score)
    (job : Job) (rest : JobQueue) (h : q.popReadyBy r states afters score = (some job, rest)) :
    ∃ pos, JobQueue.Took q r pos job rest ∧
      ∀ (i : Nat) (earlier : Job), i < pos → (q.retain r).pending[i]? = some earlier →
        earlier.unitName = job.unitName →
          dispatchable r states afters earlier = false ∨
            (score pos job).beats (score i earlier) = true := by
  obtain ⟨pos, htoo, -, hbst⟩ := JobQueue.took_popReadyBy job rest h
  refine ⟨pos, htoo, ?_⟩
  intro i earlier hi hea _
  cases hrd : dispatchable r states afters earlier with
  | false => exact .inl rfl
  | true => exact .inr ((hbst i earlier hea hrd).1 hi)

def startThenStop : JobQueue × JobRegistry :=
  JobQueue.requested [(.start, "foo.service"), (.stop, "foo.service")]

theorem startThenStop_reordered :
    ¬RequestOrderPerUnit startThenStop.1 startThenStop.2 ∅ ∅ (JobQueue.favour 1) := by
  intro h
  obtain ⟨pos, htoo, hno⟩ := h ⟨2, .stop, "foo.service"⟩ ⟨[⟨1, .start, "foo.service"⟩]⟩ (by decide)
  have hpn : (startThenStop.1.retain startThenStop.2).pending =
      [⟨1, .start, "foo.service"⟩, ⟨2, .stop, "foo.service"⟩] := by decide
  have hfn := htoo.found
  rw [hpn] at hfn
  rcases pos with _ | pos
  · simp at hfn
  · exact hno 0 ⟨1, .start, "foo.service"⟩ (Nat.succ_pos pos) (by rw [hpn]; rfl) rfl

theorem overtaken_job_outscored_startThenStop :
    ∃ pos, JobQueue.Took startThenStop.1 startThenStop.2 pos ⟨2, .stop, "foo.service"⟩
        ⟨[⟨1, .start, "foo.service"⟩]⟩ ∧
      ∀ (i : Nat) (earlier : Job), i < pos →
        (startThenStop.1.retain startThenStop.2).pending[i]? = some earlier →
          earlier.unitName = "foo.service" →
            dispatchable startThenStop.2 ∅ ∅ earlier = false ∨
              (JobQueue.favour 1 pos ⟨2, .stop, "foo.service"⟩).beats
                (JobQueue.favour 1 i earlier) = true :=
  overtaken_job_unready_or_outscored startThenStop.1 startThenStop.2 ∅ ∅ (JobQueue.favour 1)
    ⟨2, .stop, "foo.service"⟩ ⟨[⟨1, .start, "foo.service"⟩]⟩ (by decide)

end Rustd.Jobs
