import Rustd.Base.Settling
import Rustd.Manager.Jobs

/-!
# Target activation

Each round of the main loop tries to activate the pending targets, in the order in which its hash
table lists them and each against the current states of the other units. A target's verdict reads
settled units only, so it stands when others settle: the passes are a settling of the unit states
and end in the same states for every order.
-/

namespace Rustd.Manager

open Base Service UnitFile List Option Std

variable {W : Type}

section

variable {σ τ : String → Option UnitState} {re : List String} {state st : UnitState}

theorem targetState_settled (h : targetState σ re = some st) : st = .active ∨ st = .failed := by
  induction re with
  | nil => exact .inl (some.inj h).symm
  | cons dep l ih =>
    rw [targetState] at h
    split at h
    · exact ih h
    · exact ih h
    · exact ih h
    · exact .inr (some.inj h).symm
    · exact .inr (some.inj h).symm
    · cases h
    · cases h

private theorem targetState_stands (hστ : ∀ u, σ u ≠ some .activating → τ u = σ u)
    (h : targetState σ re = some state) : targetState τ re = some state := by
  induction re with
  | nil => exact h
  | cons dep l ih =>
    have hdep : σ dep ≠ some .activating := by
      intro hdep
      rw [targetState, hdep] at h
      cases h
    rw [targetState, hστ dep hdep]
    rw [targetState] at h
    revert h
    cases σ dep with
    | none => exact ih
    | some fo => cases fo <;> first | exact ih | exact id

def isTarget (m : Manager W) (name : String) : Bool :=
  m.units[name]?.any (·.loaded.isTarget)

variable {m : Manager W} {name : String}

theorem isTarget_iff :
    m.isTarget name = true ↔ ∃ r, m.units[name]? = some r ∧ r.loaded.isTarget = true :=
  Option.any_eq_true ..

/-- Part of `try_activate_target`, `src/target.rs:22`. -/
def verdict (m : Manager W) (σ : String → Option UnitState) (name : String) : Option UnitState :=
  match m.units[name]? with
  | none => none
  | some r =>
    if r.loaded.isTarget then
      targetState (fun dep => if dep = name then none else σ dep) r.loaded.unitSection.requires
    else none

theorem verdict_of_target (hr : m.units[name]? = some r) (hta : r.loaded.isTarget = true) :
    m.verdict σ name = targetState (fun dep => if dep = name then none else σ dep)
      r.loaded.unitSection.requires := by
  rw [verdict, hr]
  exact if_pos hta

theorem verdict_eq_some (h : m.verdict σ name = some state) :
    ∃ r, m.units[name]? = some r ∧ r.loaded.isTarget = true ∧
      targetState (fun dep => if dep = name then none else σ dep) r.loaded.unitSection.requires =
        some state := by
  unfold verdict at h
  split at h
  · cases h
  rename_i r hr
  split at h
  · rename_i hta
    exact ⟨r, hr, hta, h⟩
  · cases h

def targetRules (m : Manager W) : Settling String (Option UnitState) where
  isOpen state := decide (state = some .activating)
  sites := m.units.keys.toFinset.filter fun name => m.isTarget name = true
  rule σ name := (m.verdict σ name).map some
  decided {σ name b} h := by
    obtain ⟨state, hstate, rfl⟩ := map_eq_some_iff.mp h
    obtain ⟨r, -, -, hverdict⟩ := verdict_eq_some hstate
    rcases targetState_settled hverdict with rfl | rfl <;> rfl
  site {σ name b} h := by
    obtain ⟨state, hstate, rfl⟩ := map_eq_some_iff.mp h
    obtain ⟨r, hr, htarget, -⟩ := verdict_eq_some hstate
    rw [Finset.mem_filter, List.mem_toFinset, ExtTreeMap.mem_keys,
      ExtTreeMap.mem_iff_isSome_getElem?, hr]
    exact ⟨rfl, isTarget_iff.mpr ⟨r, hr, htarget⟩⟩
  stands {σ τ name b} hστ h := by
    obtain ⟨state, hstate, rfl⟩ := map_eq_some_iff.mp h
    obtain ⟨r, hr, htarget, hverdict⟩ := verdict_eq_some hstate
    rw [verdict_of_target hr htarget, targetState_stands ?_ hverdict, map_some]
    intro dep hdep
    by_cases hself : dep = name
    · rw [if_pos hself, if_pos hself]
    rw [if_neg hself] at hdep
    rw [if_neg hself, if_neg hself]
    exact hστ dep (decide_eq_false hdep)

end

section

def restate (m : Manager W) (σ : String → Option UnitState) : Manager W :=
  { m with units := m.units.map fun name r => { r with state := (σ name).getD r.state } }

def CoversUnits (m : Manager W) (σ : String → Option UnitState) : Prop :=
  ∀ name, (σ name).isSome = (m.units[name]?).isSome

variable {m : Manager W} {σ : String → Option UnitState} {name : String}

theorem getElem?_restate (m : Manager W) (σ : String → Option UnitState) (name : String) :
    (m.restate σ).units[name]? =
      m.units[name]?.map (fun r => { r with state := (σ name).getD r.state }) :=
  ExtTreeMap.getElem?_map ..

theorem stateOf_restate (h : CoversUnits m σ) (name : String) :
    (m.restate σ).stateOf name = σ name := by
  rw [stateOf, getElem?_restate]
  have hname := h name
  cases hr : m.units[name]? with
  | none =>
    rw [hr] at hname
    exact (not_isSome_iff_eq_none.mp (by simp [hname])).symm
  | some r =>
    rw [hr] at hname
    obtain ⟨st, hst⟩ := isSome_iff_exists.mp (hname.trans rfl)
    simp [hst]

private theorem eq_restate (units : ExtTreeMap String UnitRecord) (h : ∀ name, units[name]? =
      m.units[name]?.map (fun r : UnitRecord => { r with state := (σ name).getD r.state })) :
    { m with units := units } = m.restate σ := by
  have hun : units = (m.restate σ).units :=
    ExtTreeMap.ext_getElem? fun {name} => (h name).trans (getElem?_restate m σ name).symm
  rw [hun]
  rfl

private theorem restate_stateOf (m : Manager W) : m.restate m.stateOf = m := by
  refine (eq_restate m.units fun name => ?_).symm
  rw [stateOf]
  cases m.units[name]? <;> rfl

private theorem covers_stateOf (m : Manager W) : CoversUnits m m.stateOf := by
  intro name
  rw [stateOf, isSome_map]

theorem CoversUnits.visit (h : CoversUnits m σ) : CoversUnits m (m.targetRules.visit σ name) := by
  intro v
  rcases Settling.visit_cases m.targetRules σ name with ⟨state, hon, hrl, hvs⟩ | ⟨-, hvs⟩
  · rw [hvs]
    by_cases hother : v = name
    · subst hother
      obtain ⟨ve, -, rfl⟩ := map_eq_some_iff.mp hrl
      rw [Function.update_self, ← h v, of_decide_eq_true hon]
      rfl
    · rw [Function.update_of_ne hother, h v]
  · rw [hvs, h v]

private theorem tryActivateTarget_restate (h : CoversUnits m σ)
    (hname : σ name = some .activating) :
    (m.restate σ).tryActivateTarget name = m.restate (m.targetRules.visit σ name) := by
  have hld : m.units[name]?.isSome = true := by rw [← h name, hname, isSome_some]
  obtain ⟨r, hr⟩ := isSome_iff_exists.mp hld
  have hst : (fun dep => if dep = name then none else (m.restate σ).stateOf dep) =
      fun dep => if dep = name then none else σ dep := by
    funext dep
    rw [stateOf_restate h]
  have hve : m.verdict σ name = if r.loaded.isTarget then
      targetState (fun dep => if dep = name then none else σ dep) r.loaded.unitSection.requires
      else none := by
    rw [verdict, hr]
  have hon : m.targetRules.isOpen (σ name) = true := decide_eq_true hname
  rw [tryActivateTarget, getElem?_restate, hr, Settling.visit, if_pos hon]
  simp only [map_some, hst]
  have hrl : m.targetRules.rule σ name = (m.verdict σ name).map some := rfl
  rw [hrl, hve]
  cases hta : r.loaded.isTarget with
  | false => rfl
  | true =>
    simp only [Bool.not_true, Bool.false_eq_true, if_false, if_true]
    cases targetState (fun dep => if dep = name then none else σ dep)
        r.loaded.unitSection.requires with
    | none => rfl
    | some state =>
      simp only [map_some, setState, update, getElem?_restate, hr]
      refine eq_restate (m := m) _ fun v => ?_
      rw [ExtTreeMap.getElem?_insert]
      split
      · rename_i hother
        rw [Std.LawfulEqCmp.compare_eq_iff_eq] at hother
        subst hother
        rw [hr, Function.update_self]
        rfl
      · rename_i hother
        rw [Std.LawfulEqCmp.compare_eq_iff_eq] at hother
        rw [getElem?_restate, Function.update_of_ne (Ne.symm hother)]

variable {order : List String}

theorem foldl_tryActivateTarget (h : CoversUnits m σ) (hnp : order.Nodup)
    (hord : ∀ name ∈ order, σ name = some .activating) :
    order.foldl tryActivateTarget (m.restate σ) =
        m.restate (order.foldl m.targetRules.visit σ) ∧
      CoversUnits m (order.foldl m.targetRules.visit σ) := by
  induction order generalizing σ with
  | nil => exact ⟨rfl, h⟩
  | cons name l ih =>
    obtain ⟨hfh, hrest⟩ := nodup_cons.mp hnp
    rw [foldl_cons, foldl_cons, tryActivateTarget_restate h (hord name (mem_cons_self ..))]
    refine ih h.visit hrest ?_
    intro v hother
    have hne : v ≠ name := fun heq => hfh (heq ▸ hother)
    have hkp := hord v (mem_cons_of_mem _ hother)
    rcases Settling.visit_cases m.targetRules σ name with ⟨st, -, -, hvs⟩ | ⟨-, hvs⟩
    · rw [hvs, Function.update_of_ne hne, hkp]
    · rw [hvs, hkp]

end

section

variable [Kernel W]

/-- Targets that wait for activation. -/
def activatingTargets (m : Manager W) : List String :=
  (m.unitsIn [.activating]).filter (fun name => m.units[name]?.any (·.loaded.isTarget))

/-- A pass over the waiting targets, in any order. -/
def TargetPass (m m' : Manager W) : Prop :=
  ∃ order : List String, order.Perm m.activatingTargets ∧ order.foldl tryActivateTarget m = m'

theorem mem_activatingTargets (m : Manager W) (name : String) :
    name ∈ m.activatingTargets ↔
      ∃ r, m.units[name]? = some r ∧ r.loaded.isTarget = true ∧ r.state = .activating := by
  simp only [activatingTargets, unitsIn, mem_filter, mem_unitNames]
  constructor
  · rintro ⟨⟨⟨r, hr⟩, hst⟩, hta⟩
    simp only [hr, any_some, contains_iff_mem, mem_singleton] at hst hta
    exact ⟨r, hr, hta, hst⟩
  · rintro ⟨r, hr, hta, hst⟩
    simp [hr, hta, hst]

theorem nodup_activatingTargets (m : Manager W) : m.activatingTargets.Nodup :=
  ((nodup_unitNames m).filter _).filter _

variable {m : Manager W} {σ : String → Option UnitState} {name : String}

theorem mem_activatingTargets_restate (h : CoversUnits m σ) :
    name ∈ (m.restate σ).activatingTargets ↔
      m.isTarget name = true ∧ σ name = some .activating := by
  rw [mem_activatingTargets, isTarget_iff]
  constructor
  · rintro ⟨r, hr, hta, hst⟩
    have hσ := stateOf_restate h name
    rw [stateOf, hr, map_some, hst] at hσ
    rw [getElem?_restate] at hr
    obtain ⟨r', hr', rfl⟩ := map_eq_some_iff.mp hr
    exact ⟨⟨r', hr', hta⟩, hσ.symm⟩
  · rintro ⟨⟨r, hr, hta⟩, hσ⟩
    refine ⟨{ r with state := .activating }, ?_, hta, rfl⟩
    rw [getElem?_restate, hr, hσ]
    rfl

theorem TargetPass.pass (h : CoversUnits m σ) (hps : TargetPass (m.restate σ) m') :
    ∃ τ, m.targetRules.Pass σ τ ∧ m' = m.restate τ ∧ CoversUnits m τ := by
  obtain ⟨order, hpe, rfl⟩ := hps
  have hord : ∀ name, name ∈ order ↔ m.isTarget name = true ∧ σ name = some .activating := by
    intro name
    rw [hpe.mem_iff, mem_activatingTargets_restate h]
  obtain ⟨hfol, hcv⟩ := foldl_tryActivateTarget h
    (hpe.nodup_iff.mpr (nodup_activatingTargets _)) fun name hname => ((hord name).mp hname).2
  refine ⟨_, ⟨order, ?_, rfl⟩, hfol, hcv⟩
  intro name hsi hon
  exact (hord name).mpr ⟨(Finset.mem_filter.mp hsi).2, of_decide_eq_true hon⟩

private theorem openSites_le (m : Manager W) :
    m.targetRules.openSites m.stateOf ≤ m.activatingTargets.length := by
  refine (Finset.card_le_card ?_).trans (toFinset_card_le m.activatingTargets)
  intro name hname
  obtain ⟨hsi, hon⟩ := Finset.mem_filter.mp hname
  have hwg := (mem_activatingTargets_restate (covers_stateOf m)).mpr
    ⟨(Finset.mem_filter.mp hsi).2, of_decide_eq_true hon⟩
  rw [restate_stateOf] at hwg
  exact List.mem_toFinset.mpr hwg

section

variable {f : Nat → Manager W}

theorem passes_of_targetPasses (hps : ∀ i, TargetPass (f i) (f (i + 1))) (i : Nat) :
    f i = (f 0).restate (f i).stateOf ∧ CoversUnits (f 0) (f i).stateOf ∧
      (f 0).targetRules.Pass (f i).stateOf (f (i + 1)).stateOf := by
  have hnx : ∀ i, f i = (f 0).restate (f i).stateOf → CoversUnits (f 0) (f i).stateOf →
      (f (i + 1) = (f 0).restate (f (i + 1)).stateOf ∧ CoversUnits (f 0) (f (i + 1)).stateOf) ∧
        (f 0).targetRules.Pass (f i).stateOf (f (i + 1)).stateOf := by
    intro i hrtt hcv
    have hi := hps i
    rw [hrtt] at hi
    obtain ⟨τ, hτ, heq, h⟩ := hi.pass hcv
    have hst : (f (i + 1)).stateOf = τ := by
      rw [heq]
      exact funext (stateOf_restate h)
    rw [hst]
    exact ⟨⟨heq, h⟩, hτ⟩
  induction i with
  | zero =>
    have hrtt := (restate_stateOf (f 0)).symm
    have hcv := covers_stateOf (f 0)
    exact ⟨hrtt, hcv, (hnx 0 hrtt hcv).2⟩
  | succ i ih =>
    obtain ⟨⟨hrtt, hcv⟩, -⟩ := hnx i ih.1 ih.2.1
    exact ⟨hrtt, hcv, (hnx (i + 1) hrtt hcv).2⟩

end

/-- The passes over the waiting targets stop, in the same state of the manager for every order in
which the targets are visited, and a pass that changes nothing has reached it. -/
theorem target_passes_confluent (m : Manager W) :
    ∃ final : Manager W, ∀ f : Nat → Manager W, f 0 = m → (∀ i, TargetPass (f i) (f (i + 1))) →
      (∃ n, n ≤ m.activatingTargets.length ∧ ∀ k, n ≤ k → f k = final) ∧
        ∀ i, f (i + 1) = f i → f i = final := by
  obtain ⟨states, -, hfi⟩ := Settling.exists_final m.targetRules m.stateOf
  refine ⟨m.restate states, ?_⟩
  rintro f rfl hps
  have hpss := passes_of_targetPasses hps
  obtain ⟨n, hn, hst⟩ := hfi (fun i => (f i).stateOf) rfl (fun i => (hpss i).2.2)
  have hend : ∀ k, n ≤ k → f k = (f 0).restate states := by
    intro k hk
    rw [(hpss k).1, hst k hk]
  refine ⟨⟨n, hn.trans (openSites_le _), hend⟩, ?_⟩
  intro i hsa
  have hps' := (hpss i).2.2
  rw [hsa] at hps'
  have hkp : (f (max n i)).stateOf = (f i).stateOf :=
    Settling.eq_of_stuck_le (f := fun i => (f i).stateOf) (fun i => (hpss i).2.2) hps'.stuck
      (le_max_right n i)
  rw [(hpss i).1, ← hkp, hst _ (le_max_left n i)]

end

end Rustd.Manager
