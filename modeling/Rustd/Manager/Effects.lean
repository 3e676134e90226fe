import Rustd.Manager.State
import Rustd.Service.Alters

/-!
# Effects of the manager

What a handler of the manager may have done to the state. `Evolves guard m m'` says that between
two manager states every loaded unit stays loaded with its configuration, every service only
makes lifecycle moves that the guard allows for it, and a unit that was loaded in between starts
out fresh. `Queues job unit lost m m'` is about the work that waits: the jobs of the two queues,
the markers of requested restarts and the timers of automatic ones. What waits in `m'` was waiting
in `m` or is among the given jobs and units, and no job of the main queue and no marker of other
units is lost.

`Tends P m m'` says both at once, for what the permits `P` allow, and which units came up and
which restarts were counted. Each handler has one lemma of this form, from which the invariants
of runs are derived.
-/

namespace Rustd.Manager

open Base Service UnitFile Jobs List Std

variable {W : Type} {guard : String → Label → Phase → Prop} {m m' m'' : Manager W}

theorem getElem?_update (m : Manager W) (u v : String) (f : UnitRecord → UnitRecord) :
    (m.update u f).units[v]? =
      if u = v then m.units[v]?.map f else m.units[v]? := by
  by_cases h : u = v
  · subst h
    cases hr : m.units[u]? <;> simp [update, hr]
  · cases hr : m.units[u]? <;> simp [update, hr, h, ExtTreeMap.getElem?_insert]

variable {α : Type}

@[simp] theorem units_ask (m : Manager W) (f : W → α × W) : (m.ask f).2.units = m.units := rfl

def freshPhase : Phase := ⟨.inactive, none, none, false, .success⟩

structure Evolves (guard : String → Label → Phase → Prop) (m m' : Manager W) : Prop where
  loaded : ∀ name r, m.units[name]? = some r → ∃ r', m'.units[name]? = some r' ∧
    r'.loaded = r.loaded ∧ (r.loaded.isService = true → Moves (guard name) r.phase r'.phase)
  fresh : ∀ name r', m.units[name]? = none → m'.units[name]? = some r' →
    r'.loaded.isService = true → Moves (guard name) freshPhase r'.phase

namespace Evolves

theorem of_units (h : m'.units = m.units) : Evolves guard m m' := by
  constructor
  · intro u r hr
    exact ⟨r, by rw [h]; exact hr, rfl, fun _ => Reaches.refl _⟩
  intro u r' hnn hsome
  rw [h, hnn] at hsome
  cases hsome

theorem trans (h : Evolves guard m m') (h' : Evolves guard m' m'') : Evolves guard m m'' := by
  constructor
  · intro u r hr
    obtain ⟨r', hr', hld, hmo⟩ := h.loaded u r hr
    obtain ⟨r'', hr'', hld', hmo'⟩ := h'.loaded u r' hr'
    refine ⟨r'', hr'', hld'.trans hld, ?_⟩
    intro hservice
    exact (hmo hservice).trans (hmo' (by rw [hld]; exact hservice))
  · intro u r'' hnn hr'' hservice
    cases hr' : m'.units[u]? with
    | none => exact h'.fresh u r'' hr' hr'' hservice
    | some r' =>
      obtain ⟨r₂, hr₂, hld, hmo⟩ := h'.loaded u r' hr'
      cases hr₂.symm.trans hr''
      rw [hld] at hservice
      exact (h.fresh u r' hnn hr' hservice).trans (hmo hservice)

theorem after_units (h : Evolves guard m' m'') (hun : m'.units = m.units) : Evolves guard m m'' :=
  (of_units hun).trans h

theorem phase_eq (h : Evolves guard m m')
    (hr : m.units[u]? = some r) (hservice : r.loaded.isService = true)
      (hnn : ∀ l, ¬guard u l r.phase) :
    ∃ r', m'.units[u]? = some r' ∧ r'.loaded = r.loaded ∧ r'.phase = r.phase := by
  obtain ⟨r', hr', hld, hmo⟩ := h.loaded u r hr
  refine ⟨r', hr', hld, ?_⟩
  apply (hmo hservice).invariant (I := fun p => p = r.phase) _ rfl
  rintro l p q rfl hl -
  exact absurd hl (hnn l)

end Evolves

def queues (m : Manager W) : JobQueue × JobQueue × ExtTreeSet String × List (Nat × String) :=
  (m.jobQueue, m.sharedQueue, m.restartPending, m.restartTimers)

theorem jobQueue_of_queues (h : m'.queues = m.queues) : m'.jobQueue = m.jobQueue := congrArg (·.1) h

def queued (m : Manager W) : List Job := m.jobQueue.pending ++ m.sharedQueue.pending

structure Queues (job : Job → Prop) (unit lost : String → Prop) (m m' : Manager W) : Prop where
  kept : ∀ j ∈ m.jobQueue.pending, j ∈ m'.jobQueue.pending
  queued : ∀ j ∈ m'.queued, j ∈ m.queued ∨ job j
  marked : ∀ name ∈ m'.restartPending, name ∈ m.restartPending ∨ unit name
  timed : ∀ timer ∈ m'.restartTimers, timer ∈ m.restartTimers ∨ unit timer.2
  unmarked : ∀ name ∈ m.restartPending, name ∈ m'.restartPending ∨ lost name

namespace Queues

variable {job : Job → Prop} {unit lost : String → Prop}

theorem of_queues (h : m'.queues = m.queues) : Queues job unit lost m m' := by
  simp only [Manager.queues, Prod.mk.injEq] at h
  obtain ⟨hma, hsh, hmarked, hts⟩ := h
  refine ⟨fun j hj => hma ▸ hj, fun j hj => .inl ?_, fun u hname => .inl (hmarked ▸ hname),
    fun t htm => .inl (hts ▸ htm), fun u hname => .inl (hmarked ▸ hname)⟩
  rw [Manager.queued, hma, hsh] at hj
  exact hj

theorem refl (m : Manager W) : Queues job unit lost m m := of_queues rfl

theorem trans (h : Queues job unit lost m m') (h' : Queues job unit lost m' m'') :
    Queues job unit lost m m'' := by
  refine ⟨fun j hj => h'.kept j (h.kept j hj), ?_, ?_, ?_, ?_⟩
  · intro j hj
    rcases h'.queued j hj with hj | hj
    · exact h.queued j hj
    · exact .inr hj
  · intro u hname
    rcases h'.marked u hname with hname | hname
    · exact h.marked u hname
    · exact .inr hname
  · intro t htm
    rcases h'.timed t htm with htm | htm
    · exact h.timed t htm
    · exact .inr htm
  intro u hname
  rcases h.unmarked u hname with hname | hname
  · exact h'.unmarked u hname
  · exact .inr hname

variable {name : String} (j : Job)

theorem mark (hunt : unit name) :
    Queues job unit lost m { m with restartPending := m.restartPending.insert name } := by
  refine ⟨fun _ hj => hj, fun _ hj => .inl hj, ?_, fun _ ht => .inl ht, ?_⟩
  · intro v hother
    have hin : name = v ∨ v ∈ m.restartPending := by simpa using hother
    rcases hin with rfl | hother
    · exact .inr hunt
    · exact .inl hother
  · intro v hother
    exact .inl (by simp [hother])

theorem unmark (hlos : name ∈ m.restartPending → lost name) :
    Queues job unit lost m { m with restartPending := m.restartPending.erase name } := by
  refine ⟨fun _ hj => hj, fun _ hj => .inl hj, ?_, fun _ ht => .inl ht, ?_⟩
  · intro v hother
    exact .inl (ExtTreeSet.mem_erase.mp hother).2
  intro v hother
  by_cases hname : name = v
  · subst hname
    exact .inr (hlos hother)
  · exact .inl (ExtTreeSet.mem_erase.mpr ⟨by simpa using hname, hother⟩)

theorem push (hj : job j) (hma : m'.jobQueue.pending = m.jobQueue.pending ++ [j])
    (hsh : m'.sharedQueue = m.sharedQueue) (hmarked : m'.restartPending = m.restartPending)
    (hts : m'.restartTimers = m.restartTimers) : Queues job unit lost m m' := by
  refine ⟨?_, ?_, fun name hname => .inl (hmarked ▸ hname),
    fun t htm => .inl (hts ▸ htm), fun name hname => .inl (hmarked ▸ hname)⟩
  · intro v hother
    rw [hma]
    exact mem_append_left _ hother
  intro v hother
  simp only [Manager.queued, hma, hsh, append_assoc, mem_append, mem_singleton] at hother ⊢
  rcases hother with h | rfl | h
  · exact .inl (.inl h)
  · exact .inr hj
  · exact .inl (.inr h)

theorem pushShared (hj : job j) (hma : m'.jobQueue = m.jobQueue)
    (hsh : m'.sharedQueue.pending = m.sharedQueue.pending ++ [j])
    (hmarked : m'.restartPending = m.restartPending)
    (hts : ∀ t ∈ m'.restartTimers, t ∈ m.restartTimers) : Queues job unit lost m m' := by
  refine ⟨fun v hother => hma ▸ hother, ?_, fun name hname => .inl (hmarked ▸ hname),
    fun t htm => .inl (hts t htm), fun name hname => .inl (hmarked ▸ hname)⟩
  intro v hother
  simp only [Manager.queued, hma, hsh, mem_append, mem_singleton] at hother ⊢
  rcases hother with h | h | rfl
  · exact .inl (.inl h)
  · exact .inl (.inr h)
  · exact .inr hj

end Queues

def ledger (m : Manager W) := (m.units, m.queues)

theorem units_of_ledger (h : m'.ledger = m.ledger) : m'.units = m.units := congrArg Prod.fst h

theorem queues_of_ledger (h : m'.ledger = m.ledger) : m'.queues = m.queues := congrArg Prod.snd h

@[simp] theorem ledger_ask (m : Manager W) (f : W → α × W) : (m.ask f).2.ledger = m.ledger := rfl

@[simp] theorem ledger_tell (m : Manager W) (f : W → W) : (m.tell f).ledger = m.ledger := rfl

@[simp] theorem ledger_onNotify (m : Manager W) (f : NotifyState → NotifyState) :
    (m.onNotify f).ledger = m.ledger := rfl

@[simp] theorem queues_ask (m : Manager W) (f : W → α × W) : (m.ask f).2.queues = m.queues := rfl

@[simp] theorem queues_update (m : Manager W) (name : String) (f : UnitRecord → UnitRecord) :
    (m.update name f).queues = m.queues := by
  unfold update
  split <;> rfl

@[simp] theorem queues_apply (m : Manager W) (name : String) (a : α)
    (f : UnitRecord → W → α × UnitRecord × W) : (m.apply name a f).2.queues = m.queues := by
  unfold apply
  split <;> rfl

def HasRestarted (name : String) (m : Manager W) : Prop :=
  ∃ r, m.units[name]? = some r ∧ Restarted r

/-- What changes of the manager may amount to: the moves of services, the other units that may
come up, the jobs that may be queued, the units that may be marked or timed for a restart, and
those whose marker may be lost. -/
structure Permits where
  move : String → Label → Phase → Prop
  rise : String → Prop
  job : Job → Prop
  unit : String → Prop
  lost : String → Prop

structure Tends (P : Permits) (m m' : Manager W) : Prop where
  loaded : ∀ name r, m.units[name]? = some r → ∃ r', m'.units[name]? = some r' ∧
    Alters (P.move name) (P.rise name) r r'
  fresh : ∀ name r', m.units[name]? = none → m'.units[name]? = some r' →
    ∃ loaded, Alters (P.move name) (P.rise name) { loaded } r'
  queues : Queues P.job P.unit P.lost m m'
  timed : ∀ name, (∀ p, ¬P.move name .reset p) → ∀ source, (source, name) ∈ m'.restartTimers →
    (source, name) ∈ m.restartTimers ∨ HasRestarted name m'

namespace Tends

variable {P : Permits}

theorem of_queues (hun : m'.units = m.units) (hqueues : Queues P.job P.unit P.lost m m')
    (hti : ∀ name s, (s, name) ∈ m'.restartTimers →
      (s, name) ∈ m.restartTimers ∨ HasRestarted name m') : Tends P m m' := by
  refine ⟨?_, ?_, hqueues, fun name _ => hti name⟩
  · intro name r hr
    exact ⟨r, by rw [hun]; exact hr, Alters.refl r⟩
  intro name r' hnn hsome
  rw [hun, hnn] at hsome
  cases hsome

theorem of_ledger (h : m'.ledger = m.ledger) : Tends P m m' := by
  have hts : m'.restartTimers = m.restartTimers := congrArg (·.2.2.2) (queues_of_ledger h)
  exact of_queues (units_of_ledger h) (Queues.of_queues (queues_of_ledger h))
    (fun _ _ hsc => .inl (hts ▸ hsc))

theorem refl (m : Manager W) : Tends P m m := of_ledger rfl

variable {α : Type} (name : String)

theorem ask (m : Manager W) (f : W → α × W) : Tends P m (m.ask f).2 := of_ledger rfl

theorem tell (m : Manager W) (f : W → W) : Tends P m (m.tell f) := of_ledger rfl

theorem hasRestarted {name : String} (h : Tends P m m') (hrst : ∀ p, ¬P.move name .reset p) :
    HasRestarted name m → HasRestarted name m' := by
  rintro ⟨r, hr, hres⟩
  obtain ⟨r', hr', hal⟩ := h.loaded name r hr
  exact ⟨r', hr', hal.counted hrst hres⟩

theorem trans (h : Tends P m m') (h' : Tends P m' m'') : Tends P m m'' := by
  refine ⟨?_, ?_, h.queues.trans h'.queues, ?_⟩
  · intro name r hr
    obtain ⟨r', hr', hal⟩ := h.loaded name r hr
    obtain ⟨r'', hr'', hal'⟩ := h'.loaded name r' hr'
    exact ⟨r'', hr'', hal.trans hal'⟩
  · intro name r'' hnn hr''
    cases hr' : m'.units[name]? with
    | none => exact h'.fresh name r'' hr' hr''
    | some r' =>
      obtain ⟨ld, hal⟩ := h.fresh name r' hnn hr'
      obtain ⟨r₂, hr₂, hal'⟩ := h'.loaded name r' hr'
      cases hr₂.symm.trans hr''
      exact ⟨ld, hal.trans hal'⟩
  · intro name hrst s hsc
    rcases h'.timed name hrst s hsc with hsc | hres
    · exact (h.timed name hrst s hsc).imp id (h'.hasRestarted hrst)
    · exact .inr hres

theorem after_ledger (h : Tends P m' m'') (hlg : m'.ledger = m.ledger) : Tends P m m'' :=
  (of_ledger hlg).trans h

theorem insert (r r' : UnitRecord) (hr : m.units[name]? = some r)
    (hun : m'.units = m.units.insert name r') (hqueues : m'.queues = m.queues)
    (hal : Alters (P.move name) (P.rise name) r r') : Tends P m m' := by
  have hts : m'.restartTimers = m.restartTimers := congrArg (·.2.2.2) hqueues
  refine ⟨?_, ?_, Queues.of_queues hqueues, fun _ _ _ hsc => .inl (hts ▸ hsc)⟩
  · intro other r₁ hr₁
    by_cases heq : name = other
    · subst heq
      cases hr.symm.trans hr₁
      exact ⟨r', by rw [hun]; simp, hal⟩
    refine ⟨r₁, ?_, Alters.refl r₁⟩
    rw [hun, ExtTreeMap.getElem?_insert]
    simp [heq, hr₁]
  · intro other r₁ hnn hsome
    have hne : name ≠ other := by
      rintro rfl
      cases hr.symm.trans hnn
    rw [hun, ExtTreeMap.getElem?_insert] at hsome
    simp [hne, hnn] at hsome

theorem update (f : UnitRecord → UnitRecord)
    (hf : ∀ r, m.units[name]? = some r → Alters (P.move name) (P.rise name) r (f r)) :
    Tends P m (m.update name f) := by
  unfold Manager.update
  cases hr : m.units[name]? with
  | none => exact refl m
  | some r => exact insert name r (f r) hr rfl rfl (hf r hr)

theorem apply (a : α) (f : UnitRecord → W → α × UnitRecord × W)
    (hf : ∀ r, m.units[name]? = some r → Alters (P.move name) (P.rise name) r (f r m.world).2.1) :
    Tends P m (m.apply name a f).2 := by
  unfold Manager.apply
  cases hr : m.units[name]? with
  | none => exact refl m
  | some r => exact insert name r _ hr rfl rfl (hf r hr)

theorem foldl (f : Manager W → α → Manager W) (as : List α) (hf : ∀ m, ∀ a ∈ as, Tends P m (f m a))
    (m : Manager W) : Tends P m (as.foldl f m) := by
  induction as generalizing m with
  | nil => exact refl m
  | cons a as ih =>
    exact (hf m a mem_cons_self).trans (ih (fun m a ha => hf m a (mem_cons_of_mem _ ha)) (f m a))

theorem loaded_eq {name : String} (h : Tends P m m')
    (hr : m.units[name]? = some r) (hr' : m'.units[name]? = some r') : r'.loaded = r.loaded := by
  obtain ⟨r₁, hr₁, hal⟩ := h.loaded name r hr
  cases hr₁.symm.trans hr'
  exact hal.loaded

theorem evolves (h : Tends P m m') : Evolves P.move m m' := by
  constructor
  · intro name r hr
    obtain ⟨r', hr', hal⟩ := h.loaded name r hr
    exact ⟨r', hr', hal.loaded, hal.moves⟩
  intro name r' hnn hr' hservice
  obtain ⟨ld, hal⟩ := h.fresh name r' hnn hr'
  rw [hal.loaded] at hservice
  exact hal.moves hservice

end Tends

def Permits.moves (guard : String → Label → Phase → Prop) : Permits :=
  ⟨guard, fun _ => True, fun _ => True, fun _ => True, fun _ => True⟩

def shared (m : Manager W) :=
  (m.config, m.socketRecords, m.pathSources, m.jobQueue, m.sharedQueue, m.jobRegistry,
    m.oomStopping, m.oomRecent, m.restartPending, m.restartTimers, m.isolateJobs)

structure Spares (unitName : String) (m m' : Manager W) : Prop where
  units : ∀ other, other ≠ unitName → m'.units[other]? = m.units[other]?
  startTimeouts : ∀ other, other ≠ unitName → m'.startTimeouts[other]? = m.startTimeouts[other]?
  stopTimeouts : ∀ other, other ≠ unitName → m'.stopTimeouts[other]? = m.stopTimeouts[other]?
  shared : m'.shared = m.shared

namespace Spares

variable {unitName un : String} {m m' m'' : Manager W}

theorem refl (m : Manager W) : Spares un m m :=
  ⟨fun _ _ => rfl, fun _ _ => rfl, fun _ _ => rfl, rfl⟩

theorem symm (h : Spares un m m') : Spares un m' m :=
  ⟨fun v hne => (h.units v hne).symm, fun v hne => (h.startTimeouts v hne).symm,
    fun v hne => (h.stopTimeouts v hne).symm, h.shared.symm⟩

theorem trans (h : Spares un m m') (h' : Spares un m' m'') : Spares un m m'' :=
  ⟨fun v hne => (h'.units v hne).trans (h.units v hne),
    fun v hne => (h'.startTimeouts v hne).trans (h.startTimeouts v hne),
    fun v hne => (h'.stopTimeouts v hne).trans (h.stopTimeouts v hne),
    h'.shared.trans h.shared⟩

theorem queues (h : Spares un m m') : m'.queues = m.queues := by
  have hsh := h.shared
  simp only [Manager.shared, Prod.mk.injEq] at hsh
  simp only [Manager.queues, Prod.mk.injEq]
  exact ⟨hsh.2.2.2.1, hsh.2.2.2.2.1, hsh.2.2.2.2.2.2.2.2.1, hsh.2.2.2.2.2.2.2.2.2.1⟩

theorem ask {α : Type} (m : Manager W) (f : W → α × W) : Spares un m (m.ask f).2 :=
  ⟨fun _ _ => rfl, fun _ _ => rfl, fun _ _ => rfl, rfl⟩

theorem tell (m : Manager W) (f : W → W) : Spares un m (m.tell f) :=
  ⟨fun _ _ => rfl, fun _ _ => rfl, fun _ _ => rfl, rfl⟩

theorem onNotify (m : Manager W) (f : NotifyState → NotifyState) : Spares un m (m.onNotify f) :=
  ⟨fun _ _ => rfl, fun _ _ => rfl, fun _ _ => rfl, rfl⟩

theorem update (m : Manager W) (f : UnitRecord → UnitRecord) : Spares un m (m.update un f) := by
  refine ⟨?_, ?_, ?_, ?_⟩
  · intro v hne
    rw [getElem?_update, if_neg (Ne.symm hne)]
  all_goals
    unfold Manager.update
    split <;> simp [Manager.shared]

theorem apply {α : Type} (m : Manager W) (a : α) (f : UnitRecord → W → α × UnitRecord × W) :
    Spares un m (m.apply un a f).2 := by
  unfold Manager.apply
  split
  · exact refl m
  refine ⟨?_, fun _ _ => rfl, fun _ _ => rfl, rfl⟩
  intro v hne
  simp [ExtTreeMap.getElem?_insert, Ne.symm hne]

end Spares
end Rustd.Manager
