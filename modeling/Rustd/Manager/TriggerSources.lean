import Rustd.Manager.Stops
import Rustd.Service.Observed

/-!
# Sources of timer and path units

A timer or path unit registers event sources when it is started. The manager keeps the source of a
path unit in a table, to remove it when the unit is stopped; it keeps no record of the timers of a
timer unit.
-/

namespace Rustd.Service.Observed

open UnitFile List

variable {W : Type}

structure SourcesFresh (w : Observed W) : Prop where
  below : ∀ source ∈ w.sources, source.1 < w.nextSource
  nodup : (w.sources.map Prod.fst).Nodup

variable (w : Observed W) (name : String) (source : Nat)

private theorem mem_sourcesOf : source ∈ w.sourcesOf name ↔ (source, name) ∈ w.sources := by
  simp [sourcesOf]

def registered (w : Observed W) (name : String) (world : W) : Observed W :=
  { w with
    world := world
    nextSource := w.nextSource + 1
    sources := w.sources ++ [(w.nextSource, name)] }

private theorem sourcesOf_registered (other : String) (wo : W) :
    (w.registered name wo).sourcesOf other =
      if name = other then w.sourcesOf other ++ [w.nextSource] else w.sourcesOf other := by
  by_cases h : name = other <;> simp [registered, sourcesOf, filter_append, h]

theorem SourcesFresh.registered {w : Observed W} (h : w.SourcesFresh) (name : String) (wo : W) :
    (w.registered name wo).SourcesFresh := by
  constructor
  · intro source hsc
    rcases mem_append.mp hsc with hsc | hsc
    · exact Nat.lt_succ_of_lt (h.below source hsc)
    · rw [mem_singleton.mp hsc]
      exact Nat.lt_succ_self _
  · simp only [Observed.registered, map_append, map_cons, map_nil]
    rw [nodup_append]
    refine ⟨h.nodup, nodup_singleton _, ?_⟩
    intro a ha b hb
    obtain ⟨source, hsc, rfl⟩ := List.mem_map.mp ha
    rw [mem_singleton.mp hb]
    exact Nat.ne_of_lt (h.below source hsc)

theorem SourcesFresh.skip {w : Observed W} (h : w.SourcesFresh) {world : W} :
    SourcesFresh { w with world := world, nextSource := w.nextSource + 1 } :=
  ⟨fun source hsc => Nat.lt_succ_of_lt (h.below source hsc), h.nodup⟩

def unregistered (w : Observed W) (source : Nat) (world : W) : Observed W :=
  { w with world := world, sources := w.sources.filter (·.1 ≠ source) }

theorem SourcesFresh.unregistered {w : Observed W} (h : w.SourcesFresh) (source : Nat) (wo : W) :
    (w.unregistered source wo).SourcesFresh := by
  constructor
  · intro k hkp
    exact h.below k (mem_of_mem_filter hkp)
  · exact h.nodup.sublist (filter_sublist.map Prod.fst)

private theorem sourcesOf_unregistered (wo : W) (name : String) :
    (w.unregistered source wo).sourcesOf name =
      (w.sourcesOf name).filter (· ≠ source) := by
  simp only [unregistered, sourcesOf, List.filter_filter, List.filter_map]
  congr 1
  apply filter_congr
  intro k _
  simp [Bool.and_comm]

private theorem SourcesFresh.sourcesOf_unregistered_of_ne {w : Observed W} (h : w.SourcesFresh)
    {name other : String} {source : Nat} (hsc : source ∈ w.sourcesOf name) (hne : other ≠ name)
    (wo : W) : (w.unregistered source wo).sourcesOf other = w.sourcesOf other := by
  rw [sourcesOf_unregistered, filter_eq_self]
  intro k hkp
  rw [decide_eq_true_iff]
  rintro rfl
  rw [mem_sourcesOf] at hsc hkp
  have heq := inj_on_of_nodup_map h.nodup hkp hsc rfl
  exact hne (Prod.mk.inj heq).2

variable [Kernel W]

private theorem addTrigger_cases (target : String) (delay : Nat) :
    (∃ error world, Kernel.addTrigger w name target delay =
      (.error error, { w with world := world, nextSource := w.nextSource + 1 })) ∨
    ∃ world, Kernel.addTrigger w name target delay =
      (.ok w.nextSource, w.registered name world) := by
  simp only [Kernel.addTrigger, own, register]
  cases (Kernel.addTrigger w.world name target delay).1 with
  | error error => exact .inl ⟨_, _, rfl⟩
  | ok source => exact .inr ⟨_, rfl⟩

private theorem watchPaths_cases : (∃ error world, Kernel.watchPaths w name =
      (.error error, { w with world := world, nextSource := w.nextSource + 1 })) ∨
    ∃ met world, Kernel.watchPaths w name =
      (.ok (w.nextSource, met), w.registered name world) := by
  simp only [Kernel.watchPaths, own]
  cases (Kernel.watchPaths w.world name).1 with
  | error error => exact .inl ⟨_, _, rfl⟩
  | ok watched => exact .inr ⟨_, _, rfl⟩

end Rustd.Service.Observed

namespace Rustd.Manager

open Base Service UnitFile Jobs List Option
open Observed (SourcesFresh)

def armedTriggers {W : Type} [Kernel W] (name target : String) : List Nat → W → Nat
  | [], _ => 0
  | delay :: rest, w =>
    let armed := Kernel.addTrigger w name target delay
    match armed.1 with
    | .error _ => 0
    | .ok _ => armedTriggers name target rest armed.2 + 1

section

variable {W : Type} [Kernel W] (name target tgt : String) (de : List Nat)

private theorem armTriggers_ok_iff (w : W) : (armTriggers name tgt de w).1 = .ok () ↔
      armedTriggers name tgt de w = de.length := by
  induction de generalizing w with
  | nil => simp [armTriggers, armedTriggers]
  | cons delay rest ih =>
    simp only [armTriggers, armedTriggers]
    cases (Kernel.addTrigger w name tgt delay).1 with
    | error error => simp
    | ok source =>
      rw [length_cons, Nat.add_right_cancel_iff]
      exact ih _

private theorem armTriggers_sources (w : Observed W) (hfh : w.SourcesFresh) :
    ((armTriggers name tgt de w).2.sourcesOf name).length =
        (w.sourcesOf name).length + armedTriggers name tgt de w ∧
      (∀ v, v ≠ name →
        (armTriggers name tgt de w).2.sourcesOf v = w.sourcesOf v) ∧
      (armTriggers name tgt de w).2.SourcesFresh := by
  induction de generalizing w with
  | nil => exact ⟨rfl, fun _ _ => rfl, hfh⟩
  | cons d l ih =>
    simp only [armTriggers, armedTriggers]
    rcases w.addTrigger_cases name tgt d with ⟨err, wo, h⟩ | ⟨wo, h⟩
    · rw [h]
      exact ⟨rfl, fun _ _ => rfl,
        ⟨fun source hsc => Nat.lt_succ_of_lt (hfh.below source hsc), hfh.nodup⟩⟩
    rw [h]
    obtain ⟨hln, hos, hfh'⟩ := ih (w.registered name wo) (hfh.registered name wo)
    refine ⟨?_, ?_, hfh'⟩
    · rw [hln, Observed.sourcesOf_registered, if_pos rfl, length_append]
      simp only [length_singleton]
      omega
    · intro v hne
      rw [hos v hne, Observed.sourcesOf_registered, if_neg (Ne.symm hne)]

end

def triggerCount : LoadedUnit → Option Nat
  | .timer _ t => some (triggerDelays t).length
  | .path _ _ => some 1
  | _ => none

def triggerTarget (name : String) : LoadedUnit → Option String
  | .timer _ t => some (triggeredUnit name t.unit ".timer" "")
  | .path _ p => some (triggeredUnit name p.unit ".path" ".service")
  | _ => none

inductive TriggerEvent where
  | start (name : String)
  | stop (name : String)
  | fire (source : Nat)

variable {W : Type}

/-- A source fires: the unit it triggers is to be started. -/
def fire (m : Manager (Observed W)) (source : Nat) : Manager (Observed W) :=
  match m.world.sources.find? (·.1 == source) with
  | none => m
  | some (_, name) => match m.units[name]?.bind (triggerTarget name ·.loaded) with
    | none => m
    | some target => m.submit .start target none

def OwnsTriggers (m : Manager (Observed W)) (name : String) : Prop :=
  ∀ r count, m.units[name]? = some r → triggerCount r.loaded = some count →
    (r.state = .active → (m.world.sourcesOf name).length = count) ∧
      (r.state = .inactive → m.world.sourcesOf name = [])

/-- Every active timer or path unit owns one source for each of its triggers, an inactive one
owns none, and a source that starts a unit does not belong to an inactive one. -/
structure TriggersOwned (m : Manager (Observed W)) : Prop where
  owned : ∀ name, m.OwnsTriggers name
  fires : ∀ source, (m.fire source).sharedQueue ≠ m.sharedQueue →
    ∃ name r, (source, name) ∈ m.world.sources ∧ m.units[name]? = some r ∧ r.state ≠ .inactive

private theorem triggersOwned_iff (m : Manager (Observed W)) :
    m.TriggersOwned ↔ ∀ name, m.OwnsTriggers name := by
  refine ⟨TriggersOwned.owned, ?_⟩
  intro hod
  refine ⟨hod, ?_⟩
  intro source hfi
  unfold fire at hfi
  split at hfi
  · exact absurd rfl hfi
  rename_i found name hfn
  have hmem : (source, name) ∈ m.world.sources := by
    have hsc := find?_some hfn
    rw [beq_iff_eq] at hsc
    rw [← hsc]
    exact mem_of_find?_eq_some hfn
  split at hfi
  · exact absurd rfl hfi
  rename_i tgt hta
  obtain ⟨r, hr, hta⟩ := bind_eq_some_iff.mp hta
  refine ⟨name, r, hmem, hr, ?_⟩
  intro hic
  have hcn : ∃ count, triggerCount r.loaded = some count := by
    cases hld : r.loaded <;> simp_all [triggerTarget, triggerCount]
  obtain ⟨count, hcn⟩ := hcn
  have hnn := (hod name r count hr hcn).2 hic
  rw [← Observed.mem_sourcesOf, hnn] at hmem
  cases hmem

structure Tracks (m₀ m : Manager (Observed W)) : Prop where
  loaded : ∀ name : String,
    m.units[name]?.map UnitRecord.loaded = m₀.units[name]?.map UnitRecord.loaded
  states : ∀ (name : String) r, m.units[name]? = some r → (triggerCount r.loaded).isSome = true →
    r.state = .active ∨ r.state = .inactive
  paths : ∀ (name : String) r unit p, m.units[name]? = some r → r.loaded = .path unit p →
    (r.state = .active → ∃ source, m.pathSources[name]? = some source ∧
      m.world.sourcesOf name = [source]) ∧
    (r.state = .inactive → m.pathSources[name]? = none)
  fresh : m.world.SourcesFresh

structure Confined (name : String) (m m' : Manager (Observed W)) : Prop where
  units : ∀ other, other ≠ name → m'.units[other]? = m.units[other]?
  loaded : m'.units[name]?.map UnitRecord.loaded = m.units[name]?.map UnitRecord.loaded
  sources : ∀ other, other ≠ name → m'.world.sourcesOf other = m.world.sourcesOf other
  pathSources : ∀ other, other ≠ name → m'.pathSources[other]? = m.pathSources[other]?
  fresh : m'.world.SourcesFresh

variable {m m' : Manager (Observed W)} {name : String} {r : UnitRecord}

private theorem Confined.owned_iff (h : Confined name m m') (hod : m.TriggersOwned) :
    m'.TriggersOwned ↔ m'.OwnsTriggers name := by
  rw [triggersOwned_iff]
  refine ⟨fun hall => hall name, ?_⟩
  intro hname v
  by_cases heq : v = name
  · rw [heq]
    exact hname
  intro r n hr hcn
  rw [h.units v heq] at hr
  rw [h.sources v heq]
  exact hod.owned v r n hr hcn

private theorem Confined.tracks (h : Confined name m m') (htc : Tracks m₀ m)
    (hs : ∀ r, m'.units[name]? = some r → (triggerCount r.loaded).isSome = true →
      r.state = .active ∨ r.state = .inactive)
    (hpt : ∀ r unit p, m'.units[name]? = some r → r.loaded = .path unit p →
      (r.state = .active → ∃ source, m'.pathSources[name]? = some source ∧
        m'.world.sourcesOf name = [source]) ∧
      (r.state = .inactive → m'.pathSources[name]? = none)) : Tracks m₀ m' := by
  constructor
  · intro v
    by_cases heq : v = name
    · rw [heq, h.loaded, htc.loaded]
    · rw [h.units v heq, htc.loaded]
  · intro v r hr hcn
    by_cases heq : v = name
    · subst heq
      exact hs r hr hcn
    · rw [h.units v heq] at hr
      exact htc.states v r hr hcn
  · intro v r unit p hr hld
    by_cases heq : v = name
    · subst heq
      exact hpt r unit p hr hld
    rw [h.units v heq] at hr
    rw [h.pathSources v heq, h.sources v heq]
    exact htc.paths v r unit p hr hld
  · exact h.fresh

private theorem ownsTriggers_iff (hr : m.units[name]? = some r)
    (hcn : triggerCount r.loaded = some n) :
    m.OwnsTriggers name ↔
      (r.state = .active → (m.world.sourcesOf name).length = n) ∧
        (r.state = .inactive → m.world.sourcesOf name = []) := by
  constructor
  · intro h
    exact h r n hr hcn
  intro h r' n' hr' hcn'
  rw [hr] at hr'
  cases hr'
  rw [hcn] at hcn'
  cases hcn'
  exact h

theorem Confined.setState (h : Confined name m m') (hr : m'.units[name]? = some r)
    (st : UnitState) :
    Confined name m (m'.setState name st) := by
  constructor
  · intro v hother
    rw [getElem?_setState_of_ne _ _ hother, h.units v hother]
  · rw [getElem?_setState m' st hr, ← h.loaded, hr]
    rfl
  · rw [world_setState]
    exact h.sources
  · rw [pathSources_setState]
    exact h.pathSources
  · rw [world_setState]
    exact h.fresh

theorem Confined.of_units (hun : m'.units = m.units)
    (hsrc : ∀ v, v ≠ name → m'.world.sourcesOf v = m.world.sourcesOf v)
    (hpt : ∀ v, v ≠ name → m'.pathSources[v]? = m.pathSources[v]?)
    (hfh : m'.world.SourcesFresh) : Confined name m m' := by
  constructor
  · intro v _
    rw [hun]
  · rw [hun]
  · exact hsrc
  · exact hpt
  · exact hfh

/-- No trigger is armed at the outset. -/
structure Unarmed (m : Manager (Observed W)) : Prop where
  inactive : ∀ (name : String) r, m.units[name]? = some r → (triggerCount r.loaded).isSome = true →
    r.state = .inactive
  sources : m.world.sources = []
  pathSources : ∀ name : String, m.pathSources[name]? = none

theorem Unarmed.owned (h : m.Unarmed) : m.TriggersOwned := by
  rw [triggersOwned_iff]
  intro name r n hr hcn
  have hic := h.inactive name r hr (by rw [hcn]; rfl)
  have hnn : m.world.sourcesOf name = [] := by rw [Observed.sourcesOf, h.sources]; rfl
  rw [hic, hnn]
  simp

private theorem Unarmed.tracks (h : m.Unarmed) : Tracks m m := by
  constructor
  · exact fun _ => rfl
  · intro name r hr hcn
    exact .inr (h.inactive name r hr hcn)
  · intro name r unit p hr hld
    have hic := h.inactive name r hr (by rw [hld]; rfl)
    rw [hic]
    simp [h.pathSources name]
  · constructor <;> simp [h.sources]

variable [Kernel W]

def triggerStep (m : Manager (Observed W)) : TriggerEvent → Manager (Observed W)
  | .start name => (m.runJob .start name).2
  | .stop name => (m.runJob .stop name).2
  | .fire source => m.fire source

/-- The steps that keep sources and units in correspondence. A start of a timer unit arms all of
its timers while the unit is inactive, or none; a start of a path unit finds it inactive, or
fails; a stop of a timer unit finds it inactive or without timers; a stop of a path unit finds
it inactive, or its source is removed without an error. -/
def KeepsTriggers (m : Manager (Observed W)) : TriggerEvent → Prop
  | .start name => ∀ r, m.units[name]? = some r → match r.loaded with
    | .timer _ t =>
      let armed := armedTriggers name (triggeredUnit name t.unit ".timer" "") (triggerDelays t)
        m.world
      armed = 0 ∨ armed = (triggerDelays t).length ∧ r.state = .inactive
    | .path _ p => p.watches = [] ∨ (Kernel.watchPaths m.world name).1.isOk = false ∨
        r.state = .inactive
    | _ => True
  | .stop name => ∀ r, m.units[name]? = some r → match r.loaded with
    | .timer _ t => r.state = .inactive ∨ triggerDelays t = []
    | .path _ _ => r.state = .inactive ∨ ∀ source, m.pathSources[name]? = some source →
        (Kernel.removeInotify m.world source).1 = .ok ()
    | _ => True
  | .fire _ => True

def TriggerEvent.Concerns (m : Manager (Observed W)) : TriggerEvent → Prop
  | .start name | .stop name => ∃ r, m.units[name]? = some r ∧ (triggerCount r.loaded).isSome = true
  | .fire _ => True

section

variable {m₀ m : Manager (Observed W)} {name : String} {r : UnitRecord} {unit : UnitSection}
  {source : Nat} {t : TimerSection} {p : PathSection}

private theorem runJob_start_timer (hr : m.units[name]? = some r) (hld : r.loaded = .timer unit t) :
    m.runJob .start name = finishAttempt
      (m.ask (armTriggers name (triggeredUnit name t.unit ".timer" "") (triggerDelays t))) name
        .active := by
  simp only [runJob, runUnitJob, hr, hld, LoadedUnit.service?, startOther]

private theorem runJob_start_path (hr : m.units[name]? = some r) (hld : r.loaded = .path unit p) :
    m.runJob .start name = m.startPath name p := by
  simp only [runJob, runUnitJob, hr, hld, LoadedUnit.service?, startOther]

private theorem runJob_stop_timer (hr : m.units[name]? = some r) (hld : r.loaded = .timer unit t) :
    m.runJob .stop name = (.ok (), m.setState name .inactive) := by
  simp only [runJob, runUnitJob, hr, hld, LoadedUnit.service?, stopOther]

private theorem runJob_stop_path (hr : m.units[name]? = some r) (hld : r.loaded = .path unit p) :
    m.runJob .stop name = m.stopOther name r := by
  simp only [runJob, runUnitJob, hr, hld, LoadedUnit.service?]

/-- A step keeps the correspondence of sources and units exactly when the condition holds, and
then keeps what is known of such states. -/
structure Kept (m₀ m' : Manager (Observed W)) (keeps : Prop) : Prop where
  tracks : m'.TriggersOwned → Tracks m₀ m'
  owned_iff : m'.TriggersOwned ↔ keeps

omit [Kernel W] in
theorem Confined.kept {m' : Manager (Observed W)} {keeps : Prop}
    (h : Confined name m m') (htc : Tracks m₀ m) (hod : m.TriggersOwned)
    (hr' : m'.units[name]? = some r') (hcn : triggerCount r'.loaded = some n)
    (hst : r'.state = .active ∨ r'.state = .inactive)
    (hpth : keeps → ∀ unit p, r'.loaded = .path unit p →
      (r'.state = .active → ∃ source, m'.pathSources[name]? = some source ∧
        m'.world.sourcesOf name = [source]) ∧
      (r'.state = .inactive → m'.pathSources[name]? = none))
    (hke : ((r'.state = .active → (m'.world.sourcesOf name).length = n) ∧
      (r'.state = .inactive → m'.world.sourcesOf name = [])) ↔ keeps) : Kept m₀ m' keeps := by
  have hiff : m'.TriggersOwned ↔ keeps := by
    rw [h.owned_iff hod, ownsTriggers_iff hr' hcn, hke]
  refine ⟨?_, hiff⟩
  intro hod'
  apply h.tracks htc
  · intro r'' hr'' _
    rw [hr'] at hr''
    cases hr''
    exact hst
  intro r'' unit p hr'' hld
  rw [hr'] at hr''
  cases hr''
  exact hpth (hiff.mp hod') unit p hld

private theorem kept_start_timer (htc : Tracks m₀ m) (hod : m.TriggersOwned)
    (hr : m.units[name]? = some r) (hld : r.loaded = .timer unit t) :
    Kept m₀ (m.runJob .start name).2 (m.KeepsTriggers (.start name)) := by
  have hcn : triggerCount r.loaded = some (triggerDelays t).length := by rw [hld]; rfl
  have hst := htc.states name r hr (by rw [hcn]; rfl)
  have hbf := hod.owned name r _ hr hcn
  have hke : m.KeepsTriggers (.start name) ↔
      armedTriggers name (triggeredUnit name t.unit ".timer" "") (triggerDelays t) m.world = 0 ∨
        armedTriggers name (triggeredUnit name t.unit ".timer" "") (triggerDelays t) m.world =
          (triggerDelays t).length ∧ r.state = .inactive := by
    simp only [KeepsTriggers, hr, Option.some.injEq, forall_eq', hld]
  rw [runJob_start_timer hr hld, hke]
  generalize triggeredUnit name t.unit ".timer" "" = tgt
  have hok := armTriggers_ok_iff name tgt (triggerDelays t) m.world
  have hsrc := armTriggers_sources name tgt (triggerDelays t) m.world htc.fresh
  simp only [finishAttempt, Manager.ask]
  generalize armedTriggers name tgt (triggerDelays t) m.world = armed at *
  generalize armTriggers name tgt (triggerDelays t) m.world = out at *
  obtain ⟨hln, hos, hfh⟩ := hsrc
  have hpth : ∀ unit' p, r.loaded ≠ .path unit' p := by
    intro unit' p hp
    rw [hld] at hp
    cases hp
  have hcf : Confined name m { m with world := out.2 } :=
    Confined.of_units rfl hos (fun _ _ => rfl) hfh
  cases hamd : out.1 with
  | error error =>
    -- The timers armed before the failure are kept, the state of the unit is not changed.
    have hnot : armed ≠ (triggerDelays t).length := by
      intro heq
      rw [hok.mpr heq] at hamd
      cases hamd
    apply hcf.kept htc hod hr hcn hst (fun _ unit' p hp => absurd hp (hpth unit' p))
    rcases hst with hav | hic
    · have := hbf.1 hav
      simp only [hav, true_implies, reduceCtorEq, false_implies, and_true, and_false, or_false]
      omega
    have := hbf.2 hic
    rw [this, length_nil, Nat.zero_add] at hln
    simp only [hic, true_implies, reduceCtorEq, false_implies, true_and, and_true,
      ← length_eq_zero_iff]
    omega
  | ok done =>
    have hall := hok.mp (by rw [hamd])
    apply (hcf.setState hr .active).kept htc hod (getElem?_setState _ .active hr) hcn (.inl rfl)
      (fun _ unit' p hp => absurd hp (hpth unit' p))
    rw [world_setState]
    rcases hst with hav | hic
    · have := hbf.1 hav
      simp only [hav, true_implies, reduceCtorEq, false_implies, and_true, and_false, or_false]
      omega
    have := hbf.2 hic
    rw [this, length_nil, Nat.zero_add] at hln
    simp only [hic, true_implies, reduceCtorEq, false_implies, and_true]
    omega

private theorem kept_stop_timer (htc : Tracks m₀ m) (hod : m.TriggersOwned)
    (hr : m.units[name]? = some r) (hld : r.loaded = .timer unit t) :
    Kept m₀ (m.runJob .stop name).2 (m.KeepsTriggers (.stop name)) := by
  have hcn : triggerCount r.loaded = some (triggerDelays t).length := by rw [hld]; rfl
  have hbf := hod.owned name r _ hr hcn
  have hke : m.KeepsTriggers (.stop name) ↔ r.state = .inactive ∨ triggerDelays t = [] := by
    simp only [KeepsTriggers, hr, Option.some.injEq, forall_eq', hld]
  rw [runJob_stop_timer hr hld, hke]
  have hcf : Confined name m m := .of_units rfl (fun _ _ => rfl) (fun _ _ => rfl) htc.fresh
  apply (hcf.setState hr .inactive).kept htc hod (getElem?_setState m .inactive hr) hcn (.inr rfl)
  · intro _ u' p hp
    rw [hld] at hp
    cases hp
  rw [world_setState]
  rcases htc.states name r hr (by rw [hcn]; rfl) with hav | hic
  · have := hbf.1 hav
    simp only [hav, true_implies, reduceCtorEq, false_implies, true_and, false_or,
      ← length_eq_zero_iff]
    omega
  · simp only [hic, hbf.2 hic, true_implies, reduceCtorEq, false_implies, true_and, true_or]

private theorem startPath_watched {W : Type} [Kernel W] (m : Manager W) {met : Bool} {world : W}
    (hws : p.watches ≠ []) (hwc : Kernel.watchPaths m.world name = (.ok (source, met), world)) :
    ∃ q re, m.startPath name p = (.ok (), Manager.setState
      { m with
        world := world
        pathSources := m.pathSources.insert name source
        sharedQueue := q
        jobRegistry := re } name .active) := by
  simp only [startPath, if_neg hws, Manager.ask, hwc]
  split
  · split
    · exact ⟨_, _, rfl⟩
    · exact ⟨_, _, rfl⟩
  · exact ⟨_, _, rfl⟩

private theorem kept_start_path (htc : Tracks m₀ m) (hod : m.TriggersOwned)
    (hr : m.units[name]? = some r) (hld : r.loaded = .path unit p) :
    Kept m₀ (m.runJob .start name).2 (m.KeepsTriggers (.start name)) := by
  have hcn : triggerCount r.loaded = some 1 := by rw [hld]; rfl
  have hbf := hod.owned name r _ hr hcn
  have hst := htc.states name r hr (by rw [hcn]; rfl)
  have hke : m.KeepsTriggers (.start name) ↔ p.watches = [] ∨
      (Kernel.watchPaths m.world name).1.isOk = false ∨ r.state = .inactive := by
    simp only [KeepsTriggers, hr, Option.some.injEq, forall_eq', hld]
  rw [runJob_start_path hr hld, hke]
  by_cases hws : p.watches = []
  · rw [startPath, if_pos hws]
    exact ⟨fun _ => htc, by simp [hod, hws]⟩
  simp only [hws, false_or]
  rcases Observed.watchPaths_cases m.world name with ⟨err, world, hwc⟩ | ⟨met, world, hwc⟩
  · simp only [startPath, if_neg hws, Manager.ask, hwc]
    have hcf : Confined name m
        { m with world := { m.world with world := world, nextSource := m.world.nextSource + 1 } } :=
      Confined.of_units rfl (fun _ _ => rfl) (fun _ _ => rfl) htc.fresh.skip
    apply hcf.kept htc hod hr hcn hst (fun _ u' p' hp => htc.paths name r u' p' hr hp)
    simp only [Except.isOk, Except.toBool, true_or, iff_true]
    exact hbf
  · -- The unit is active with one source more than it had.
    obtain ⟨q, re, hstr⟩ := m.startPath_watched hws hwc
    rw [hstr]
    have hsrc := m.world.sourcesOf_registered name
    have hcf : Confined name m
        { m with
          world := m.world.registered name world
          pathSources := m.pathSources.insert name m.world.nextSource
          sharedQueue := q
          jobRegistry := re } := by
      refine Confined.of_units rfl ?_ ?_ (htc.fresh.registered name world)
      · intro v hother
        rw [hsrc, if_neg (Ne.symm hother)]
      · intro v hother
        simp [Std.ExtTreeMap.getElem?_insert, Ne.symm hother]
    apply (hcf.setState hr .active).kept htc hod (getElem?_setState _ .active hr) hcn (.inl rfl)
    · intro hic u' p' _
      simp only [hwc, Except.isOk, Except.toBool, Bool.true_eq_false, false_or] at hic
      simp [hsrc, hbf.2 hic]
    simp only [hwc, world_setState, hsrc, Except.isOk, Except.toBool]
    rcases hst with hav | hic
    · simp [hav, hbf.1 hav]
    · simp [hic, hbf.2 hic]

omit [Kernel W] in
/-- A path unit without registered source is inactive. -/
private theorem inactive_of_no_pathSource (htc : Tracks m₀ m) (hr : m.units[name]? = some r)
    (hld : r.loaded = .path unit p) (hsc : m.pathSources[name]? = none) : r.state = .inactive := by
  have hcn : triggerCount r.loaded = some 1 := by rw [hld]; rfl
  rcases htc.states name r hr (by rw [hcn]; rfl) with hav | hic
  · obtain ⟨source, hsome, _⟩ := (htc.paths name r unit p hr hld).1 hav
    rw [hsc] at hsome
    cases hsome
  · exact hic

omit [Kernel W] in
/-- A path unit with a registered source is active and has no other. -/
private theorem active_of_pathSource (htc : Tracks m₀ m) (hr : m.units[name]? = some r)
    (hld : r.loaded = .path unit p) (hsc : m.pathSources[name]? = some source) :
    r.state = .active ∧ m.world.sourcesOf name = [source] := by
  have hcn : triggerCount r.loaded = some 1 := by rw [hld]; rfl
  have hpt := htc.paths name r unit p hr hld
  rcases htc.states name r hr (by rw [hcn]; rfl) with hav | hic
  · obtain ⟨kn, hkw, how⟩ := hpt.1 hav
    rw [hsc] at hkw
    exact ⟨hav, by rw [how, Option.some.inj hkw]⟩
  · rw [hpt.2 hic] at hsc
    cases hsc

private theorem kept_stop_path (htc : Tracks m₀ m) (hod : m.TriggersOwned)
    (hr : m.units[name]? = some r) (hld : r.loaded = .path unit p) :
    Kept m₀ (m.runJob .stop name).2 (m.KeepsTriggers (.stop name)) := by
  have hcn : triggerCount r.loaded = some 1 := by rw [hld]; rfl
  have hbf := hod.owned name r _ hr hcn
  have hst := htc.states name r hr (by rw [hcn]; rfl)
  have hke : m.KeepsTriggers (.stop name) ↔ r.state = .inactive ∨
      ∀ source, m.pathSources[name]? = some source →
        (Kernel.removeInotify m.world source).1 = .ok () := by
    simp only [KeepsTriggers, hr, Option.some.injEq, forall_eq', hld]
  rw [runJob_stop_path hr hld, hke]
  simp only [stopOther, hld]
  cases hsc : m.pathSources[name]? with
  | none =>
    have hic := inactive_of_no_pathSource htc hr hld hsc
    have hcf : Confined name m m := .of_units rfl (fun _ _ => rfl) (fun _ _ => rfl) htc.fresh
    apply (hcf.setState hr .inactive).kept htc hod (getElem?_setState m .inactive hr) hcn (.inr rfl)
    · intro _ unit' p' _
      simp [hsc]
    · simp [hbf.2 hic, hic]
  | some source =>
    obtain ⟨hav, how⟩ := active_of_pathSource htc hr hld hsc
    have hmem : source ∈ m.world.sourcesOf name := by
      rw [how]
      exact mem_singleton_self source
    have hrv : (Kernel.removeInotify m.world source).2 =
        m.world.unregistered source (Kernel.removeInotify m.world.world source).2 := rfl
    simp only [finishAttempt, Manager.ask, hrv]
    generalize (Kernel.removeInotify m.world.world source).2 = world
    have hos : ∀ other, other ≠ name →
        (m.world.unregistered source world).sourcesOf other = m.world.sourcesOf other :=
      fun other hother => htc.fresh.sourcesOf_unregistered_of_ne hmem hother world
    have hnn : (m.world.unregistered source world).sourcesOf name = [] := by
      simp [Observed.sourcesOf_unregistered, how]
    have htb : ∀ other, other ≠ name →
        (m.pathSources.erase name)[other]? = m.pathSources[other]? := by
      intro other hother
      simp [Std.ExtTreeMap.getElem?_erase, Ne.symm hother]
    have hcf : Confined name m
        { m with
          pathSources := m.pathSources.erase name
          world := m.world.unregistered source world } :=
      Confined.of_units rfl hos htb (htc.fresh.unregistered source world)
    cases hrmv : (Kernel.removeInotify m.world source).1 with
    | error error =>
      apply hcf.kept htc hod hr hcn hst
      · intro hke
        simp [hav, hrmv] at hke
      · simp [hav, hnn, hrmv]
    | ok done =>
      apply (hcf.setState hr .inactive).kept htc hod (getElem?_setState _ _ hr) hcn (.inr rfl)
      · intro _ unit' p' _
        simp
      · simp [hnn, hrmv]

omit [Kernel W] in
private theorem kept_fire (htc : Tracks m₀ m) (hod : m.TriggersOwned) (source : Nat) :
    Kept m₀ (m.fire source) True := by
  have hsa : (m.fire source).units = m.units ∧ (m.fire source).world = m.world ∧
      (m.fire source).pathSources = m.pathSources := by
    unfold fire
    split
    · exact ⟨rfl, rfl, rfl⟩
    split
    · exact ⟨rfl, rfl, rfl⟩
    · unfold submit
      split <;> exact ⟨rfl, rfl, rfl⟩
  obtain ⟨hun, hwo, hpt⟩ := hsa
  have hod' : (m.fire source).TriggersOwned := by
    rw [triggersOwned_iff]
    intro name r n hr hcn
    rw [hun] at hr
    rw [hwo]
    exact hod.owned name r n hr hcn
  refine ⟨fun _ => ?_, iff_true_intro hod'⟩
  constructor
  · rw [hun]
    exact htc.loaded
  · rw [hun]
    exact htc.states
  · rw [hun, hpt, hwo]
    exact htc.paths
  · rw [hwo]
    exact htc.fresh

/-- Every step about timer and path units keeps sources and units in correspondence exactly when
the condition holds. -/
theorem kept_triggerStep (htc : Tracks m₀ m) (hod : m.TriggersOwned) (e : TriggerEvent)
    (he : e.Concerns m₀) : Kept m₀ (m.triggerStep e) (m.KeepsTriggers e) := by
  have hrecord : ∀ name : String, (∃ r₀, m₀.units[name]? = some r₀ ∧
      (triggerCount r₀.loaded).isSome = true) → ∃ r, m.units[name]? = some r ∧
        ((∃ unit t, r.loaded = .timer unit t) ∨ ∃ unit p, r.loaded = .path unit p) := by
    rintro name ⟨r₀, hr₀, hcn⟩
    have hld := htc.loaded name
    rw [hr₀] at hld
    obtain ⟨r, hr, hsa⟩ := map_eq_some_iff.mp hld
    refine ⟨r, hr, ?_⟩
    rw [← hsa] at hcn
    cases hkn : r.loaded with
    | timer unit t => exact .inl ⟨unit, t, rfl⟩
    | path unit p => exact .inr ⟨unit, p, rfl⟩
    | _ => simp [hkn, triggerCount] at hcn
  cases e with
  | start name =>
    obtain ⟨r, hr, ⟨unit, t, hld⟩ | ⟨unit, p, hld⟩⟩ := hrecord name he
    · exact kept_start_timer htc hod hr hld
    · exact kept_start_path htc hod hr hld
  | stop name =>
    obtain ⟨r, hr, ⟨unit, t, hld⟩ | ⟨unit, p, hld⟩⟩ := hrecord name he
    · exact kept_stop_timer htc hod hr hld
    · exact kept_stop_path htc hod hr hld
  | fire source => exact kept_fire htc hod source

end

/-- Over all jobs of timer and path units and all firing sources, an active unit owns one source
for each trigger, an inactive one owns none, and no source of a stopped unit starts anything,
exactly in the runs whose steps all meet `KeepsTriggers`. -/
theorem triggers_owned_iff (m : Manager (Observed W)) (h : m.Unarmed) (es : List TriggerEvent)
    (hes : ∀ e ∈ es, e.Concerns m) :
    (∀ fs, fs <+: es → (run triggerStep m fs).TriggersOwned) ↔
      AllSteps triggerStep KeepsTriggers m es := by
  apply forall_run_iff_allSteps (I := Tracks m) (D := TriggerEvent.Concerns m)
  · intro s e he htc hod hod'
    exact (kept_triggerStep htc hod e he).tracks hod'
  · intro s e he htc hod
    exact (kept_triggerStep htc hod e he).owned_iff
  · exact hes
  · exact h.tracks
  · exact h.owned

def timerLoaded : Manager (Observed Script) :=
  { world := { world := {} }
    units := (∅ : Std.ExtTreeMap String UnitRecord).insert "a.timer"
      { loaded := .timer {} { onActiveSec := some 5000000000 } } }

private theorem unarmed_timerLoaded : timerLoaded.Unarmed := by
  constructor
  · intro name r hr _
    simp only [timerLoaded, Std.ExtTreeMap.getElem?_insert] at hr
    split at hr
    · cases hr
      rfl
    · simp at hr
  · rfl
  · intro name
    rfl

theorem triggers_owned_started :
    (run triggerStep timerLoaded [.start "a.timer"]).TriggersOwned ∧
      (run triggerStep timerLoaded [.start "a.timer", .fire 1]).TriggersOwned := by
  have hld : timerLoaded.units["a.timer"]? =
      some { loaded := .timer {} { onActiveSec := some 5000000000 } } := by
    simp [timerLoaded]
  have hod := (triggers_owned_iff timerLoaded unarmed_timerLoaded
    [.start "a.timer", .fire 1] ?_).mpr ?_
  · exact ⟨hod _ (prefix_append _ [_]), hod _ (prefix_refl _)⟩
  · intro e he
    simp only [mem_cons, not_mem_nil, or_false] at he
    rcases he with rfl | rfl
    · exact ⟨_, hld, rfl⟩
    · trivial
  · refine ⟨?_, trivial, trivial⟩
    intro r hr
    rw [hld] at hr
    cases hr
    exact .inr ⟨by decide, rfl⟩

/-- A timer unit is started and stopped: it is inactive, still owns its timer, and the timer
queues the start of the service. -/
theorem stopped_timer_fires :
    let m := run triggerStep timerLoaded [.start "a.timer", .stop "a.timer"]
    m.stateOf "a.timer" = some .inactive ∧ m.world.sourcesOf "a.timer" = [1] ∧
      (m.fire 1).sharedQueue.pending.map (fun job => (job.kind, job.unitName)) =
        [(.start, "a.service")] ∧ ¬m.TriggersOwned := by
  have hspp : (run triggerStep timerLoaded
      [.start "a.timer", .stop "a.timer"]).units["a.timer"]?.any (fun r =>
        r.state == .inactive && triggerCount r.loaded == some 1) = true := by decide
  refine ⟨by decide, by decide, by decide, ?_⟩
  intro hod
  obtain ⟨r, hr, hfl⟩ := (Option.any_eq_true _ _).mp hspp
  simp only [Bool.and_eq_true, beq_iff_eq] at hfl
  have hnn := (hod.owned "a.timer" r 1 hr hfl.2).2 hfl.1
  revert hnn
  decide

end Rustd.Manager
