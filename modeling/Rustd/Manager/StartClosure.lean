import Rustd.Manager.Loop

/-!
# What a start request asks for

At boot, a start of a unit is a transaction: the resolver of `src/deps.rs` finds the units it
requires and wants, and each gets a start job. A start over the control socket queues one job for
the unit itself.
-/

namespace Rustd.Manager

open Base Service UnitFile Jobs List Std.ExtTreeMap

variable {W : Type}

namespace Resolver

structure Below (name : String) (s s' : Resolver W) : Prop where
  onStack : s'.onStack.contains name = true
  order : ∃ new, s'.order = s.order ++ new ∧ name ∉ new

variable {s s' : Resolver W} {name : String}

theorem Below.refl (h : s.onStack.contains name = true) : Below name s s :=
    ⟨h, [], by simp, by simp⟩

theorem Below.trans (h : Below name s s') (h' : Below name s' s'') : Below name s s'' := by
  obtain ⟨new, hnew, hname⟩ := h.order
  obtain ⟨n', hnew', hnm'⟩ := h'.order
  refine ⟨h'.onStack, new ++ n', ?_, ?_⟩
  · rw [hnew', hnew, append_assoc]
  · simp [hname, hnm']

private theorem Below.order_ne_nil (h : Below name s s') (hs : s.order ≠ []) : s'.order ≠ [] := by
  obtain ⟨new, hnew, _⟩ := h.order
  rw [hnew]
  exact append_ne_nil_of_left_ne_nil hs new

variable [Kernel W]

private theorem ensureLoaded_below (dep : String) (h : s.onStack.contains name = true) :
    Below name s (s.ensureLoaded dep) := by
  simp only [ensureLoaded]
  split
  · exact Below.refl h
  · split <;> exact ⟨h, [], by simp, by simp⟩

theorem isLoaded_ensureLoaded (s : Resolver W) (dep : String)
    (h : s.known.contains dep = true ∨ (Kernel.loadUnit s.world dep).1.isOk = true) :
    (s.ensureLoaded dep).isLoaded dep = true := by
  simp only [ensureLoaded]
  split
  · next hld => exact hld
  rename_i hnew
  have hun : s.known.contains dep ≠ true := by
    intro hkw
    simp [isLoaded, hkw] at hnew
  have hok := h.resolve_left hun
  split
  · simp [isLoaded]
  · next hre => simp [hre, Except.isOk, Except.toBool] at hok

/-- The loop over the dependencies of a unit: one that cannot be loaded is passed over, unless it
is required. -/
def visitDeps (required : Bool) (visit : String → Resolver W → Except String Unit × Resolver W) :
    List String → Resolver W → Except String Unit × Resolver W
  | [], s => (.ok (), s)
  | dep :: rest, s =>
    let s := s.ensureLoaded dep
    if !s.isLoaded dep then
      if required then (.error s!"required dependency '{dep}' could not be loaded", s)
      else visitDeps required visit rest s
    else
      let visited := visit dep s
      match visited.1 with
      | .error error => (.error error, visited.2)
      | .ok () => visitDeps required visit rest visited.2

section

variable (visit : String → Resolver W → Except String Unit × Resolver W) {name : String}

theorem visitRequires_eq : visitRequires visit = visitDeps true visit := by
  funext deps s
  induction deps generalizing s with
  | nil => rfl
  | cons dep l ih =>
    cases hvi : (visit dep (s.ensureLoaded dep)).1 <;>
      simp only [visitRequires, visitDeps, ih, if_true, hvi]

theorem visitWants_eq : visitWants visit = visitDeps false visit := by
  funext deps s
  induction deps generalizing s with
  | nil => rfl
  | cons dep l ih =>
    cases hvi : (visit dep (s.ensureLoaded dep)).1 <;>
      simp only [visitWants, visitDeps, ih, Bool.false_eq_true, if_false, hvi]

variable {visit}

private theorem visitDeps_below (r : Bool)
    (hvs : ∀ dep s, s.onStack.contains name = true → Below name s (visit dep s).2)
    (d : List String) (s : Resolver W) (h : s.onStack.contains name = true) :
    Below name s (visitDeps r visit d s).2 := by
  induction d generalizing s with
  | nil => exact Below.refl h
  | cons dep l ih =>
    have hld := ensureLoaded_below dep h
    have hvi := hvs dep _ hld.onStack
    simp only [visitDeps]
    split
    · split
      · exact hld
      · exact hld.trans (ih _ hld.onStack)
    split
    · exact hld.trans hvi
    · exact (hld.trans hvi).trans (ih _ hvi.onStack)

end

private theorem resolve_below (k : Nat) (v : String) (s : Resolver W)
    (h : s.onStack.contains name = true) : Below name s (resolve k v s).2 := by
  induction k generalizing v s with
  | zero => exact Below.refl h
  | succ k ih =>
    simp only [resolve, visitRequires_eq, visitWants_eq]
    split
    · exact Below.refl h
    rename_i hnew
    have hne : v ≠ name := by
      rintro rfl
      simp [h] at hnew
    have hpu : Below name s { s with onStack := s.onStack.insert v } :=
      ⟨by simp [h], [], by simp, by simp⟩
    have hrr := hpu.trans
      (visitDeps_below true (fun dep s h => ih dep s h) (s.sectionFor v).requires _
        hpu.onStack)
    split
    · exact hrr
    have hwn := hrr.trans
      (visitDeps_below false (fun dep s h => ih dep s h) (s.sectionFor v).wants _
        hrr.onStack)
    split
    · exact hwn
    refine hwn.trans ⟨?_, [v], rfl, ?_⟩
    · simp [hne, hwn.onStack]
    · simpa using Ne.symm hne

private theorem mem_order_of_resolve (hok : (resolve k name s).1 = .ok ())
    (hvi : s.visited.contains name = false) (hsck : s.onStack.contains name = false) :
    name ∈ (resolve k name s).2.order := by
  cases k with
  | zero => cases hok
  | succ k =>
    simp only [resolve, hvi, hsck, Bool.or_self, Bool.false_eq_true, if_false] at hok ⊢
    split at hok
    · cases hok
    split at hok
    · cases hok
    · simp_all

def onlyLoadable (known : Std.ExtTreeMap String LoadedUnit) (target : String) :
    List String → W → Bool
  | [], _ => true
  | dep :: rest, w =>
    if dep = target then onlyLoadable known target rest w
    else !known.contains dep && !(Kernel.loadUnit w dep).1.isOk &&
      onlyLoadable known target rest (Kernel.loadUnit w dep).2

section

variable (known kn : Std.ExtTreeMap String LoadedUnit) (target tgt : String)

omit [Kernel W] in
def begun (w : W) : Resolver W :=
  { world := w, known := known, onStack := (∅ : Std.ExtTreeSet String).insert target }

omit [Kernel W] in
private theorem onStack_begun (w : W) : (begun kn tgt w).onStack.contains tgt = true := by
  simp [begun]

private theorem resolve_begun_self (k : Nat) (w : W) :
    resolve (k + 1) tgt (begun kn tgt w) = (.ok (), begun kn tgt w) := by
  simp [resolve, begun]

private theorem ensureLoaded_begun_self (h : kn.contains tgt = true) (w : W) :
    (begun kn tgt w).ensureLoaded tgt = begun kn tgt w ∧
      (begun kn tgt w).isLoaded tgt = true := by
  simp only [ensureLoaded, isLoaded, begun, h, Bool.true_or, if_true, and_self]

private theorem below_resolve_begun (k : Nat) (dep : String) (w : W) :
    Below tgt (begun kn tgt w) (resolve k dep ((begun kn tgt w).ensureLoaded dep)).2 := by
  have hld := ensureLoaded_below dep (onStack_begun kn tgt w)
  exact hld.trans (resolve_below k dep _ hld.onStack)

private theorem order_ne_nil_of_resolve {dep : String} (hne : dep ≠ tgt) (w : W)
    (hok : (resolve k dep ((begun kn tgt w).ensureLoaded dep)).1 = .ok ()) :
    (resolve k dep ((begun kn tgt w).ensureLoaded dep)).2.order ≠ [] := by
  have hmet : ((begun kn tgt w).ensureLoaded dep).visited.contains dep = false ∧
      ((begun kn tgt w).ensureLoaded dep).onStack.contains dep = false := by
    simp only [ensureLoaded]
    split
    · simp [begun, Ne.symm hne]
    · split <;> simp [begun, Ne.symm hne]
  exact ne_nil_of_mem (mem_order_of_resolve hok hmet.1 hmet.2)

private theorem visitRequires_begun (hkw : kn.contains tgt = true) (k : Nat) (d : List String)
    (w : W) :
    if (∀ dep ∈ d, dep = tgt) ∧ (tgt ∈ d → 0 < k) then
      visitDeps true (resolve k) d (begun kn tgt w) = (.ok (), begun kn tgt w)
    else (visitDeps true (resolve k) d (begun kn tgt w)).1 = .ok () →
      (visitDeps true (resolve k) d (begun kn tgt w)).2.order ≠ [] := by
  induction d with
  | nil => simp [visitDeps]
  | cons dep l ih =>
    by_cases hdep : dep = tgt
    · subst hdep
      obtain ⟨hlo, hld⟩ := ensureLoaded_begun_self kn dep hkw w
      simp only [visitDeps, hlo, hld, Bool.not_true, Bool.false_eq_true, if_false]
      cases k with
      | zero => simp [resolve]
      | succ k =>
        simp only [resolve_begun_self]
        simpa using ih
    · rw [if_neg (by simp [hdep])]
      simp only [visitDeps]
      split
      · intro hok
        cases hok
      split
      · intro hok
        cases hok
      next hok =>
      intro _
      have hbe := visitDeps_below true (fun dep s h => resolve_below k dep s h) l _
        (below_resolve_begun kn tgt k dep w).onStack
      exact hbe.order_ne_nil (order_ne_nil_of_resolve kn tgt hdep w hok)

private theorem visitWants_begun (hkw : kn.contains tgt = true) (k : Nat) (deps : List String)
    (w : W) :
    if onlyLoadable kn tgt deps w = true ∧ (tgt ∈ deps → 0 < k) then
      (visitDeps false (resolve k) deps (begun kn tgt w)).1 = .ok () ∧
        (visitDeps false (resolve k) deps (begun kn tgt w)).2.order = []
    else (visitDeps false (resolve k) deps (begun kn tgt w)).1 = .ok () →
      (visitDeps false (resolve k) deps (begun kn tgt w)).2.order ≠ [] := by
  induction deps generalizing w with
  | nil => simp [visitDeps, onlyLoadable, begun]
  | cons dep rest ih =>
    by_cases hdep : dep = tgt
    · subst hdep
      obtain ⟨hlo, hld⟩ := ensureLoaded_begun_self kn dep hkw w
      simp only [visitDeps, hlo, hld, Bool.not_true, Bool.false_eq_true, if_false,
        onlyLoadable, if_true]
      cases k with
      | zero => simp [resolve]
      | succ k =>
        simp only [resolve_begun_self]
        simpa using ih w
    · have hmem : tgt ∈ dep :: rest ↔ tgt ∈ rest := by simp [Ne.symm hdep]
      simp only [hmem]
      by_cases hsk : kn.contains dep = false ∧ (Kernel.loadUnit w dep).1.isOk = false
      · have hlo : (begun kn tgt w).ensureLoaded dep =
            begun kn tgt (Kernel.loadUnit w dep).2 := by
          simp only [ensureLoaded, isLoaded, begun, hsk.1]
          cases hre : (Kernel.loadUnit w dep).1 with
          | ok unit => simp [hre, Except.isOk, Except.toBool] at hsk
          | error error => simp
        have hld : (begun kn tgt (Kernel.loadUnit w dep).2).isLoaded dep = false := by
          simp [isLoaded, begun, hsk.1]
        simp only [visitDeps, hlo, hld, Bool.not_false, if_true, onlyLoadable, if_neg hdep,
          hsk.1, hsk.2, Bool.true_and]
        exact ih (Kernel.loadUnit w dep).2
      · simp only [not_and_or, Bool.not_eq_false] at hsk
        have hnot : onlyLoadable kn tgt (dep :: rest) w = false := by
          simp only [onlyLoadable, if_neg hdep]
          rcases hsk with hsk | hsk <;> simp [hsk]
        have hld := isLoaded_ensureLoaded (begun kn tgt w) dep hsk
        rw [hnot, if_neg (by simp)]
        simp only [visitDeps, hld, Bool.not_true, Bool.false_eq_true, if_false]
        split
        · intro hok
          cases hok
        rename_i hok
        intro _
        have hbe := visitDeps_below false (fun dep s h => resolve_below k dep s h) rest _
          (below_resolve_begun kn tgt k dep w).onStack
        exact hbe.order_ne_nil (order_ne_nil_of_resolve kn tgt hdep w hok)

private theorem order_resolve {k : Nat} {w : W}
    (hok : (resolve k tgt { world := w, known := kn }).1 = .ok ()) :
    ∃ before, (resolve k tgt { world := w, known := kn }).2.order = before ++ [tgt] ∧
      tgt ∉ before := by
  cases k with
  | zero => cases hok
  | succ k =>
    simp only [resolve, visitRequires_eq, visitWants_eq, Std.ExtTreeSet.contains_empty,
      Bool.or_self, Bool.false_eq_true, if_false] at hok ⊢
    have hrr := visitDeps_below true (fun dep s h => resolve_below k dep s h)
      (sectionFor { world := w, known := kn } tgt).requires (begun kn tgt w)
      (onStack_begun kn tgt w)
    have hwn := hrr.trans (visitDeps_below false
      (fun dep s h => resolve_below k dep s h)
      (sectionFor { world := w, known := kn } tgt).wants _ hrr.onStack)
    obtain ⟨before, hbf, hta⟩ := hwn.order
    refine ⟨before, ?_, hta⟩
    unfold begun at hbf
    split at hok
    · cases hok
    split at hok
    · cases hok
    · simp_all

/-- The target is ordered alone exactly when it requires only itself and wants nothing else that
can be loaded. -/
theorem resolve_alone_iff (hkw : kn.contains tgt = true) (k : Nat) (w : W) :
    ((resolve k tgt { world := w, known := kn }).1 = .ok () ∧
      (resolve k tgt { world := w, known := kn }).2.order = [tgt]) ↔
    0 < k ∧
      (∀ dep ∈ (sectionFor { world := w, known := kn } tgt).requires, dep = tgt) ∧
      onlyLoadable kn tgt (sectionFor { world := w, known := kn } tgt).wants w = true ∧
      (tgt ∈ (sectionFor { world := w, known := kn } tgt).requires ∨
        tgt ∈ (sectionFor { world := w, known := kn } tgt).wants → 1 < k) := by
  cases k with
  | zero => simp [resolve]
  | succ k =>
    simp only [resolve, visitRequires_eq, visitWants_eq, Std.ExtTreeSet.contains_empty,
      Bool.or_self, Bool.false_eq_true, if_false]
    generalize sectionFor { world := w, known := kn } tgt = unit
    have hrqr := visitRequires_begun kn tgt hkw k unit.requires w
    have hwnt := visitWants_begun kn tgt hkw k unit.wants w
    have hbe : ({
        world := w, known := kn, onStack := (∅ : Std.ExtTreeSet String).insert tgt }
      : Resolver W) = begun kn tgt w := rfl
    rw [hbe]
    split at hrqr
    · next hsf =>
      simp only [hrqr]
      split at hwnt
      · next hon =>
        simp only [hwnt.1, hwnt.2, nil_append, and_self, true_iff]
        refine ⟨Nat.succ_pos k, hsf.1, hon.1, ?_⟩
        rintro (hmem | hmem)
        · exact Nat.succ_lt_succ (hsf.2 hmem)
        · exact Nat.succ_lt_succ (hon.2 hmem)
      · next hon =>
        constructor
        · rintro ⟨hok, hord⟩
          split at hok
          · cases hok
          rename_i hwn
          simp only [hwn, append_eq_singleton_iff] at hord
          simp [hwnt hwn] at hord
        · rintro ⟨_, _, hlo, hdp⟩
          exact absurd ⟨hlo, fun hmem => Nat.lt_of_succ_lt_succ (hdp (.inr hmem))⟩ hon
    · next hsf =>
      constructor
      · rintro ⟨hok, hord⟩
        split at hok
        · cases hok
        rename_i hrr
        have hrequired_below := visitDeps_below true (fun dep s h => resolve_below k dep s h)
          unit.requires (begun kn tgt w) (onStack_begun kn tgt w)
        have hwn := visitDeps_below false (fun dep s h => resolve_below k dep s h)
          unit.wants _ hrequired_below.onStack
        split at hok
        · cases hok
        rename_i hok'
        simp only [hrr, hok', append_eq_singleton_iff] at hord
        simp [hwn.order_ne_nil (hrqr hrr)] at hord
      · rintro ⟨_, hall, _, hdp⟩
        exact absurd ⟨hall, fun hmem => Nat.lt_of_succ_lt_succ (hdp (.inl hmem))⟩ hsf

end

end Resolver

def startsAsked (m m' : Manager W) : List String :=
  ((m'.jobQueue.pending.drop m.jobQueue.pending.length ++
    m'.sharedQueue.pending.drop m.sharedQueue.pending.length).filter
      (·.kind == .start)).map Job.unitName

def IdLeft (m : Manager W) : Prop := m.jobRegistry.nextId + 1 ≤ u32Max

variable (m : Manager W) (target tgt name : String) (owner o : Option String)

private theorem startsAsked_submit (h : m.IdLeft) :
    startsAsked m (m.submit .start tgt o) = [tgt] := by
  unfold IdLeft at h
  simp [startsAsked, submit, JobQueue.enqueueOwned, JobRegistry.allocate, h]

private theorem startsAsked_submit_of_not_idLeft (h : ¬m.IdLeft) :
    startsAsked m (m.submit .start tgt o) = [] := by
  unfold IdLeft at h
  simp [startsAsked, submit, JobQueue.enqueueOwned, JobRegistry.allocate, h]

structure Asks (order : List String) (m m' : Manager W) : Prop where
  shared : m'.sharedQueue = m.sharedQueue
  pending : ∃ jobs, m'.jobQueue.pending = m.jobQueue.pending ++ jobs ∧
    (∀ job ∈ jobs, job.kind = .start) ∧ jobs.map Job.unitName <+: order ∧
    (¬m.IdLeft → jobs = []) ∧ (m.IdLeft → order ≠ [] → jobs ≠ [])

theorem Asks.asked {order : List String} {m m' : Manager W} (h : Asks order m m') :
    startsAsked m m' <+: order ∧ (¬m.IdLeft → startsAsked m m' = []) ∧
      (m.IdLeft → order ≠ [] → startsAsked m m' ≠ []) := by
  obtain ⟨jobs, hjb, hkn, hfr, hnn, hsome⟩ := h.pending
  have hak : startsAsked m m' = jobs.map Job.unitName := by
    have hall : jobs.filter (·.kind == .start) = jobs := by
      rw [filter_eq_self]
      intro job hjob
      rw [hkn job hjob]
      rfl
    simp [startsAsked, h.shared, hjb, hall]
  rw [hak]
  refine ⟨hfr, ?_, ?_⟩
  · intro hlf
    rw [hnn hlf, map_nil]
  · intro hlf hne
    simpa using hsome hlf hne

variable [Kernel W]

private theorem jobs_loadUnit :
    (m.loadUnit name).2.jobQueue = m.jobQueue ∧ (m.loadUnit name).2.sharedQueue = m.sharedQueue ∧
      (m.loadUnit name).2.jobRegistry = m.jobRegistry := by
  simp only [loadUnit]
  split
  · exact ⟨rfl, rfl, rfl⟩
  · split <;> exact ⟨rfl, rfl, rfl⟩

private theorem asks_enqueueExported (order : List String) (m : Manager W) :
    Asks order m (order.foldl (fun m name => (m.loadUnit name).2.enqueueExported name) m) := by
  induction order generalizing m with
  | nil =>
    exact ⟨rfl, [], by simp, by simp, prefix_refl [], fun _ => rfl, fun _ h => absurd rfl h⟩
  | cons name l ih =>
    rw [foldl_cons]
    obtain ⟨hqu, hsh, hrgs⟩ := m.jobs_loadUnit name
    by_cases hlf : m.IdLeft
    · have hex : ∃ n : Manager W, (m.loadUnit name).2.enqueueExported name = n ∧
          n.sharedQueue = m.sharedQueue ∧ n.jobQueue.pending =
            m.jobQueue.pending ++ [⟨m.jobRegistry.nextId, .start, name⟩] := by
        refine ⟨_, rfl, ?_⟩
        unfold IdLeft at hlf
        simp [enqueueExported, JobQueue.enqueue, JobQueue.enqueueOwned, JobRegistry.allocate,
          hqu, hrgs, hlf, hsh]
      obtain ⟨n, hnx, hn, hq⟩ := hex
      obtain ⟨hsa, j, hjb, hkn, hfr, _, _⟩ := ih n
      rw [hnx]
      refine ⟨hsa.trans hn, ⟨m.jobRegistry.nextId, .start, name⟩ :: j, ?_, ?_, ?_,
        fun h => absurd hlf h, fun _ _ => cons_ne_nil _ _⟩
      · rw [hjb, hq, append_assoc, singleton_append]
      · intro job hjob
        rcases mem_cons.mp hjob with rfl | hjob
        · rfl
        · exact hkn job hjob
      · simpa using hfr
    · have hfu : (m.loadUnit name).2.enqueueExported name = (m.loadUnit name).2 := by
        unfold IdLeft at hlf
        simp [enqueueExported, JobQueue.enqueue, JobQueue.enqueueOwned, JobRegistry.allocate,
          hrgs, hlf]
      rw [hfu]
      obtain ⟨hsa, j, hjb, hkn, _, hnn, _⟩ := ih (m.loadUnit name).2
      have hlf' : ¬(m.loadUnit name).2.IdLeft := by
        unfold IdLeft at hlf ⊢
        rw [hrgs]
        exact hlf
      refine ⟨hsa.trans hsh, [], ?_, by simp, nil_prefix, fun _ => rfl,
        fun h => absurd h hlf⟩
      rw [hjb, hnn hlf', hqu]

def bootOrder (m : Manager W) (target : String) : List String :=
  if (m.loadUnit target).1.isOk then m.startOrder target else []

private theorem asks_enqueueStart : Asks (m.bootOrder tgt) m (m.enqueueStart tgt).2 := by
  obtain ⟨hqu, hsh, hrgs⟩ := m.jobs_loadUnit tgt
  have hno : ∀ m' : Manager W, m'.jobQueue = m.jobQueue → m'.sharedQueue = m.sharedQueue →
      Asks [] m m' := by
    intro m' hqu' hsh'
    exact ⟨hsh', [], by rw [hqu', append_nil], by simp, prefix_refl [],
      fun _ => rfl, fun _ h => absurd rfl h⟩
  simp only [enqueueStart, bootOrder, startOrder]
  cases hlo : (m.loadUnit tgt).1 with
  | error error => exact hno _ hqu hsh
  | ok done =>
    simp only [Except.isOk, Except.toBool, if_true]
    cases hord : ((m.loadUnit tgt).2.resolveStartOrder tgt).1 with
    | error error => exact hno _ hqu hsh
    | ok order =>
      have hre : ∀ m' : Manager W, m'.jobQueue = m.jobQueue →
          m'.sharedQueue = m.sharedQueue → m'.jobRegistry = m.jobRegistry → Asks order m
            (order.foldl (fun m name => (m.loadUnit name).2.enqueueExported name) m') := by
        intro m' hqu' hsh' hrgs'
        obtain ⟨hsa, hpn⟩ := asks_enqueueExported order m'
        unfold IdLeft at hpn
        rw [hqu', hrgs'] at hpn
        exact ⟨hsa.trans hsh', hpn⟩
      exact hre _ hqu hsh hrgs

/-- A unit can be loaded, requires nothing but itself, and wants nothing else that can be loaded.
The resolver needs room for one nested call where the unit depends on itself. -/
def StandsAlone (m : Manager W) (target : String) : Prop :=
  let loaded := (m.loadUnit target).2
  ∃ r, loaded.units[target]? = some r ∧
    (∀ dep ∈ r.loaded.unitSection.requires, dep = target) ∧
    Resolver.onlyLoadable (loaded.units.map (fun _ r => r.loaded)) target
      r.loaded.unitSection.wants loaded.world = true ∧
    0 < Kernel.stackDepth loaded.world ∧
    (target ∈ r.loaded.unitSection.requires ∨ target ∈ r.loaded.unitSection.wants →
      1 < Kernel.stackDepth loaded.world)

private theorem isOk_loadUnit :
    (m.loadUnit name).1.isOk = (m.loadUnit name).2.units.contains name := by
  simp only [loadUnit]
  split
  · next h => simp [Except.isOk, Except.toBool, h]
  rename_i h
  split
  · rw [Bool.not_eq_true] at h
    simp only [Except.isOk, Except.toBool, Manager.ask, h]
  · simp [Except.isOk, Except.toBool]

private theorem bootOrder_eq :
    m.bootOrder tgt = [] ∨ ∃ before, m.bootOrder tgt = before ++ [tgt] ∧ tgt ∉ before := by
  simp only [bootOrder]
  split
  · simp only [startOrder, resolveStartOrder]
    cases hre : (Resolver.resolve (Kernel.stackDepth (m.loadUnit tgt).2.world) tgt
        { world := (m.loadUnit tgt).2.world
          known := (m.loadUnit tgt).2.units.map (fun _ r => r.loaded) }).1 with
    | error error => exact .inl rfl
    | ok done => exact .inr (Resolver.order_resolve _ tgt hre)
  · exact .inl rfl

private theorem bootOrder_alone_iff : m.bootOrder target = [target] ↔ m.StandsAlone target := by
  simp only [bootOrder, StandsAlone, isOk_loadUnit, startOrder, resolveStartOrder]
  generalize (m.loadUnit target).2 = loaded
  cases hr : loaded.units[target]? with
  | none =>
    have hnot : loaded.units.contains target = false := by
      rw [contains_eq_isSome_getElem?, hr]
      rfl
    simp [hnot]
  | some r =>
    have hct : loaded.units.contains target = true := by
      rw [contains_eq_isSome_getElem?, hr]
      rfl
    have hal := Resolver.resolve_alone_iff (loaded.units.map (fun _ r => r.loaded)) target
      (by simpa using hct) (Kernel.stackDepth loaded.world) loaded.world
    have hse : Resolver.sectionFor
        { world := loaded.world, known := loaded.units.map (fun _ r => r.loaded) } target =
          r.loaded.unitSection := by
      simp [Resolver.sectionFor, hr]
    rw [hse] at hal
    simp only [hct, if_true, Option.some.injEq, exists_eq_left']
    generalize Resolver.resolve (Kernel.stackDepth loaded.world) target
      { world := loaded.world, known := loaded.units.map (fun _ r => r.loaded) } = out at hal ⊢
    have hre : ((out.1.map (fun _ => out.2.order)).toOption.getD [] = [target]) ↔
        out.1 = .ok () ∧ out.2.order = [target] := by
      cases out.1 with
      | error | ok => simp [Except.map, Except.toOption]
    rw [hre, hal]
    tauto

/-- What a start request has to ask for: the units the boot-time start of the unit is for, so
that with the unit each unit it requires is asked to start. -/
structure PullsIn (m : Manager W) (target : String) (owner : Option String) : Prop where
  same : ∀ name, name ∈ startsAsked m (m.submit .start target owner) ↔
    name ∈ startsAsked m (m.enqueueStart target).2
  requires : ∀ r, (m.loadUnit target).2.units[target]? = some r →
    ∀ dep ∈ r.loaded.unitSection.requires,
      target ∈ startsAsked m (m.submit .start target owner) →
        dep ∈ startsAsked m (m.submit .start target owner)

/-- A start over the control socket asks for what the boot-time start of the unit asks for
exactly when the unit stands alone, or no job can be allocated at all. -/
theorem start_pulls_in_iff (m : Manager W) (target : String) (owner : Option String) :
    m.PullsIn target owner ↔ (m.IdLeft → m.StandsAlone target) := by
  obtain ⟨hfr, hnn, hsome⟩ := (m.asks_enqueueStart target).asked
  by_cases hlf : m.IdLeft
  · have hsu := startsAsked_submit m target owner hlf
    rw [← bootOrder_alone_iff]
    constructor
    · intro h _
      have hsa := h.same
      rw [hsu] at hsa
      rcases m.bootOrder_eq target with hnil | ⟨l, hbf, hta⟩
      · have hmem := (hsa target).mp mem_cons_self
        rw [hnil, prefix_nil] at hfr
        rw [hfr] at hmem
        cases hmem
      cases l with
      | nil => exact hbf
      | cons x t =>
        -- The first unit of the order gets a job, and it is not the target.
        exfalso
        cases hak : startsAsked m (m.enqueueStart target).2 with
        | nil => exact hsome hlf (by simp [hbf]) hak
        | cons a ot =>
          rw [hak, hbf, cons_append, cons_prefix_cons] at hfr
          have hmem : a ∈ [target] := by
            rw [hsa, hak]
            exact mem_cons_self
          rw [mem_singleton] at hmem
          rw [← hmem, hfr.1] at hta
          exact hta mem_cons_self
    · intro h
      have hbo := h hlf
      have hak : startsAsked m (m.enqueueStart target).2 = [target] := by
        rw [hbo] at hfr hsome
        have hne := hsome hlf (by simp)
        cases hsta : startsAsked m (m.enqueueStart target).2 with
        | nil => exact absurd hsta hne
        | cons a ot =>
          rw [hsta, cons_prefix_cons, prefix_nil] at hfr
          rw [hfr.1, hfr.2]
      rw [bootOrder_alone_iff] at hbo
      obtain ⟨r, hr, hrqr, _⟩ := hbo
      constructor
      · intro name
        rw [hsu, hak]
      intro r' hr' dep hdep _
      rw [hr] at hr'
      cases hr'
      rw [hsu, hrqr dep hdep]
      exact mem_cons_self
  · have hsu := startsAsked_submit_of_not_idLeft m target owner hlf
    refine ⟨fun _ h => absurd h hlf, fun _ => ⟨?_, ?_⟩⟩
    · intro name
      rw [hsu, hnn hlf]
    intro r _ dep _ hta
    rw [hsu] at hta
    cases hta

/-- A world with `a.service`, which requires `b.service`. -/
def requiring : Script :=
  { units := fun name =>
      if name = "a.service" then some (.service { requires := ["b.service"] }
        { execStart := [⟨"/bin/a", [], false⟩] })
      else if name = "b.service" then some (.service {} { execStart := [⟨"/bin/b", [], false⟩] })
      else none
    spawned := fun path => if path = "/bin/a" then some 10 else some 11 }

/-- A start of `a.service` over the control socket makes it active, and `b.service` is not even
loaded; the boot-time start asks for both. -/
theorem required_unit_not_asked :
    let m : Manager Script := Manager.new requiring {} none
    let started := run step m [.submit .start "a.service" none, .drainShared, .dispatch none]
    startsAsked m (m.submit .start "a.service" none) = ["a.service"] ∧
      startsAsked m (m.enqueueStart "a.service").2 = ["b.service", "a.service"] ∧
      started.stateOf "a.service" = some .active ∧ started.units["b.service"]?.isNone = true ∧
      started.queued = [] ∧ ¬m.PullsIn "a.service" none := by
  refine ⟨by decide, by decide, by decide, by decide, by decide, ?_⟩
  intro h
  have hak := (h.same "b.service").mpr (by decide)
  revert hak
  decide

end Rustd.Manager
