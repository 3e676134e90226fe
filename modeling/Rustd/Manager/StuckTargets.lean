import Rustd.Manager.Targets

/-!
# Targets that wait for each other

Once the units that are no targets have settled, a target can only wait for another target. The
passes settle every target exactly when no two targets require each other along a cycle; a target
that requires itself is harmless, since it is judged against the other units only.
-/

namespace Rustd.Manager

open Base Service UnitFile List Option Std.ExtTreeMap

variable {W : Type}

section

variable {σ : String → Option UnitState} {requires : List String} {state st : UnitState}

private theorem exists_pending_of_targetState (h : targetState σ requires = none) :
    ∃ dep ∈ requires, σ dep = some .activating ∨ σ dep = some .deactivating := by
  induction requires with
  | nil => cases h
  | cons dep l ih =>
    have hrest : targetState σ l = none →
        ∃ d ∈ dep :: l, σ d = some .activating ∨ σ d = some .deactivating := by
      intro hnn
      obtain ⟨d, hd, hpn⟩ := ih hnn
      exact ⟨d, mem_cons_of_mem _ hd, hpn⟩
    rw [targetState] at h
    split at h
    · exact hrest h
    · exact hrest h
    · exact hrest h
    · cases h
    · cases h
    · exact ⟨dep, mem_cons_self .., .inl ‹_›⟩
    · exact ⟨dep, mem_cons_self .., .inr ‹_›⟩

private theorem targetState_of_failed {dep : String} (hdep : dep ∈ requires)
    (hfa : σ dep = some .failed) (h : targetState σ requires = some st) : st = .failed := by
  induction requires with
  | nil => cases hdep
  | cons a l ih =>
    have hrest : σ a ≠ some .failed → targetState σ l = some st → st = .failed := by
      intro hfr
      refine ih ((mem_cons.mp hdep).resolve_left ?_)
      rintro rfl
      exact hfr hfa
    rw [targetState] at h
    split at h <;> rename_i hfr
    · exact hrest (by simp [hfr]) h
    · exact hrest (by simp [hfr]) h
    · exact hrest (by simp [hfr]) h
    · exact (some.inj h).symm
    · exact (some.inj h).symm
    · cases h
    · cases h

private theorem targetState_of_activating {dep : String} (hdep : dep ∈ requires)
    (hatv : σ dep = some .activating)
    (hfi : ∀ d ∈ requires, σ d ≠ some .failed ∧ σ d ≠ some .maintenance) :
    targetState σ requires = none := by
  induction requires with
  | nil => cases hdep
  | cons a l ih =>
    have hrest : σ a ≠ some .activating → targetState σ l = none := by
      intro hfr
      refine ih ((mem_cons.mp hdep).resolve_left ?_) (fun d hd => hfi d (mem_cons_of_mem _ hd))
      rintro rfl
      exact hfr hatv
    obtain ⟨hfa, h⟩ := hfi a (mem_cons_self ..)
    rw [targetState]
    split <;> rename_i hfr
    · exact hrest (by simp [hfr])
    · exact hrest (by simp [hfr])
    · exact hrest (by simp [hfr])
    · exact absurd hfr hfa
    · exact absurd hfr h
    · rfl
    · rfl

end

def SameUnits (m m' : Manager W) : Prop :=
  ∀ name : String, m'.units[name]?.map UnitRecord.loaded = m.units[name]?.map UnitRecord.loaded

/-- The units that are no targets have settled. No target is ever deactivating: stopping a target
is immediate. -/
def OthersSettled (m : Manager W) : Prop :=
  ∀ (name : String) (r : UnitRecord), m.units[name]? = some r →
    r.state ≠ .deactivating ∧ (r.state = .activating → r.loaded.isTarget = true)

def RequiresTarget (m : Manager W) (name other : String) : Prop :=
  other ≠ name ∧ m.isTarget other = true ∧
    ∃ r, m.units[name]? = some r ∧ r.loaded.isTarget = true ∧
      other ∈ r.loaded.unitSection.requires

private theorem SameUnits.requiresTarget (h : SameUnits m m') {name other : String}
    (hrqr : m'.RequiresTarget name other) : m.RequiresTarget name other := by
  have hld : ∀ (n : String) (r' : UnitRecord), m'.units[n]? = some r' →
      ∃ r, m.units[n]? = some r ∧ r.loaded = r'.loaded := by
    intro n r' hr'
    have hn := h n
    rw [hr', map_some] at hn
    exact map_eq_some_iff.mp hn.symm
  obtain ⟨hne, hother, r', hr', hta, hmem⟩ := hrqr
  obtain ⟨s', hs', hst⟩ := isTarget_iff.mp hother
  obtain ⟨r, hr, hreq⟩ := hld name r' hr'
  obtain ⟨s, hs, hseq⟩ := hld other s' hs'
  exact ⟨hne, isTarget_iff.mpr ⟨s, hs, hseq ▸ hst⟩, r, hr, hreq ▸ hta, hreq ▸ hmem⟩

section

variable [Kernel W]

/-- However the passes go on, no target stays in its start. -/
def TargetsSettle (m : Manager W) : Prop :=
  ∀ f : Nat → Manager W, f 0 = m → (∀ i, TargetPass (f i) (f (i + 1))) →
    ∃ n, ∀ k, n ≤ k → (f k).activatingTargets = [] ∧
      ∀ name ∈ m.activatingTargets, ∀ r, m.units[name]? = some r →
        ∀ dep ∈ r.loaded.unitSection.requires, (f k).stateOf dep = some .failed →
          (f k).stateOf name = some .failed

variable {m : Manager W} {σ : String → Option UnitState} {name : String}

omit [Kernel W] in
private theorem settled_of_changed (hrh : m.targetRules.Justified m.stateOf σ)
    (hc : σ name ≠ m.stateOf name) :
    ∃ r state, m.units[name]? = some r ∧ σ name = some state ∧
      (state = .active ∨ state = .failed) ∧
      targetState (fun dep => if dep = name then none else σ dep) r.loaded.unitSection.requires =
        some state := by
  obtain ⟨state, hst, heq⟩ := map_eq_some_iff.mp (hrh.rule_eq name hc)
  obtain ⟨r, hr, -, h⟩ := verdict_eq_some hst
  exact ⟨r, state, hr, heq.symm, targetState_settled h, h⟩

omit [Kernel W] in
private theorem exists_requiresTarget (hse : OthersSettled m)
    (hrh : m.targetRules.Justified m.stateOf σ) (hstc : m.targetRules.Stuck σ)
    (hta : m.isTarget name = true) (hname : σ name = some .activating) :
    ∃ v, m.RequiresTarget name v ∧ σ v = some .activating := by
  obtain ⟨r, hr, hld⟩ := isTarget_iff.mp hta
  have hnn : m.verdict σ name = none := map_eq_none_iff.mp (hstc name (decide_eq_true hname))
  rw [verdict_of_target hr hld] at hnn
  obtain ⟨dep, hdep, hpn⟩ := exists_pending_of_targetState hnn
  by_cases hsf : dep = name
  · simp [hsf] at hpn
  simp only [if_neg hsf] at hpn
  -- A unit on its way has not been decided, so it was on its way from the start.
  have hsa : σ dep = m.stateOf dep := by
    by_contra hch
    obtain ⟨-, st, -, hσ, hst, -⟩ := settled_of_changed hrh hch
    rcases hst with rfl | rfl <;> simp [hσ] at hpn
  have hld' : ∃ r', m.units[dep]? = some r' ∧ σ dep = some r'.state := by
    rcases hpn with hpn | hpn <;>
    · rw [hsa, stateOf] at hpn
      obtain ⟨r', hr', hst⟩ := map_eq_some_iff.mp hpn
      exact ⟨r', hr', by rw [hsa, stateOf, hr', map_some]⟩
  obtain ⟨r', hr', hσ⟩ := hld'
  obtain ⟨hsto, hother⟩ := hse dep r' hr'
  have hatv : r'.state = .activating := by
    rw [hσ, some.injEq, some.injEq] at hpn
    exact hpn.resolve_right hsto
  refine ⟨dep, ⟨hsf, isTarget_iff.mpr ⟨r', hr', hother hatv⟩, r, hr, hld, hdep⟩, ?_⟩
  rw [hσ, hatv]

omit [Kernel W] in
private theorem not_stuck_of_acyclic (hacy : ∀ name, ¬Relation.TransGen m.RequiresTarget name name)
    (hse : OthersSettled m) (hrh : m.targetRules.Justified m.stateOf σ)
    (hstc : m.targetRules.Stuck σ) (hta : m.isTarget name = true) : σ name ≠ some .activating := by
  intro hname
  let waiting : Set String := { n | m.isTarget n = true ∧ σ n = some .activating }
  have hfi : waiting.Finite := by
    refine (m.units.keys.toFinset.finite_toSet).subset ?_
    rintro n ⟨hta, -⟩
    obtain ⟨r, hr, -⟩ := isTarget_iff.mp hta
    rw [Finset.mem_coe, List.mem_toFinset, Std.ExtTreeMap.mem_keys,
      mem_iff_isSome_getElem?, hr, isSome_some]
  have : IsStrictOrder String (fun a b => Relation.TransGen m.RequiresTarget b a) :=
    { irrefl := hacy
      trans := fun a b c hab hbc => hbc.trans hab }
  have hwf : waiting.WellFoundedOn (fun a b => Relation.TransGen m.RequiresTarget b a) :=
    hfi.wellFoundedOn
  -- Each waiting target has one that it waits for, further down the finite order.
  refine hwf.induction (P := fun _ => False) ⟨hta, hname⟩ ?_
  rintro n ⟨hn, hwa⟩ ih
  obtain ⟨v, hrqr, hother⟩ := exists_requiresTarget hse hrh hstc hn hwa
  exact ih v ⟨hrqr.2.1, hother⟩ (Relation.TransGen.single hrqr)

private theorem exists_stuck_pass {f : Nat → Manager W} (hps : ∀ i, TargetPass (f i) (f (i + 1))) :
    ∃ n, ∀ k, n ≤ k → (f 0).targetRules.Stuck (f k).stateOf ∧
      (f 0).targetRules.Justified (f 0).stateOf (f k).stateOf := by
  have hpss := fun i => (passes_of_targetPasses hps i).2.2
  obtain ⟨n, -, hstc⟩ := Settling.exists_stuck (f := fun i => (f i).stateOf) hpss
  refine ⟨n, fun k hk => ⟨?_, ?_⟩⟩
  · have hsa := Settling.eq_of_stuck_le (f := fun i => (f i).stateOf) hpss hstc hk
    have hsa : (f k).stateOf = (f n).stateOf := hsa
    rw [hsa]
    exact hstc
  obtain ⟨v, hvt⟩ := Settling.visits_of_passes (f := fun i => (f i).stateOf) hpss k
  have hvt : v.foldl (f 0).targetRules.visit (f 0).stateOf = (f k).stateOf := hvt
  rw [← hvt]
  exact Settling.justified_of_visits

private theorem targetsSettle_of_acyclic
    (hacy : ∀ name, ¬Relation.TransGen m.RequiresTarget name name)
    (hse : OthersSettled m) : TargetsSettle m := by
  rintro f rfl hps
  obtain ⟨n, hstc⟩ := exists_stuck_pass hps
  refine ⟨n, fun k hk => ?_⟩
  obtain ⟨hstc, hrh⟩ := hstc k hk
  have hdn : ∀ name, (f 0).isTarget name = true → (f k).stateOf name ≠ some .activating :=
    fun name hta => not_stuck_of_acyclic hacy hse hrh hstc hta
  obtain ⟨hrtt, hcv, -⟩ := passes_of_targetPasses hps k
  constructor
  · refine eq_nil_iff_forall_not_mem.mpr fun name hname => ?_
    rw [hrtt, mem_activatingTargets_restate hcv] at hname
    exact hdn name hname.1 hname.2
  intro name hname r hr dep hdep hfa
  obtain ⟨r', hr', hta, hst⟩ := (mem_activatingTargets _ name).mp hname
  cases hr.symm.trans hr'
  by_cases hsf : dep = name
  · rw [← hsf]
    exact hfa
  have hch : (f k).stateOf name ≠ (f 0).stateOf name := by
    have hbf : (f 0).stateOf name = some .activating := by
      rw [stateOf, hr, map_some, hst]
    rw [hbf]
    exact hdn name (isTarget_iff.mpr ⟨r, hr, hta⟩)
  obtain ⟨r', state, hr', hσ, -, h⟩ := settled_of_changed hrh hch
  cases hr.symm.trans hr'
  rw [hσ, targetState_of_failed hdep (by rw [if_neg hsf, hfa]) h]

section

variable {start : String}

/-- The states in which the targets on the cycles through one of them wait, and all other units are
active. -/
noncomputable def waitingStates (m : Manager W) (start name : String) : Option UnitState :=
  open Classical in
  m.units[name]?.map fun _ =>
    if Relation.TransGen m.RequiresTarget start name ∧ Relation.TransGen m.RequiresTarget name start
    then .activating else .active

omit [Kernel W] in
private theorem waitingStates_eq_activating :
    m.waitingStates start name = some .activating ↔
      (∃ r, m.units[name]? = some r) ∧ Relation.TransGen m.RequiresTarget start name ∧
        Relation.TransGen m.RequiresTarget name start := by
  classical
  unfold waitingStates
  cases m.units[name]? <;> simp

omit [Kernel W] in
private theorem waitingStates_cases (h : m.waitingStates start name ≠ some .activating) :
    m.waitingStates start name = none ∨ m.waitingStates start name = some .active := by
  classical
  cases hr : m.units[name]? with
  | none => simp [waitingStates, hr]
  | some r =>
    right
    rw [waitingStates, hr, map_some, if_neg]
    exact fun hcc => h (waitingStates_eq_activating.mpr ⟨⟨r, hr⟩, hcc⟩)

omit [Kernel W] in
private theorem covers_waitingStates : CoversUnits m (m.waitingStates start) := by
  intro name
  rw [waitingStates, isSome_map]

omit [Kernel W] in
private theorem stuck_waitingStates : m.targetRules.Stuck (m.waitingStates start) := by
  intro name hon
  obtain ⟨-, hto, hba⟩ := waitingStates_eq_activating.mp (of_decide_eq_true hon)
  obtain ⟨n, hrqr, hrest⟩ := Relation.TransGen.head'_iff.mp hba
  have ⟨hsf, hnx, r, hr, hta, hmem⟩ := hrqr
  have hwa : m.waitingStates start n = some .activating := by
    obtain ⟨r', hr', -⟩ := isTarget_iff.mp hnx
    refine waitingStates_eq_activating.mpr ⟨⟨r', hr'⟩, hto.tail hrqr, ?_⟩
    rcases Relation.reflTransGen_iff_eq_or_transGen.mp hrest with heq | hrest
    · rw [heq] at hto hba ⊢
      exact hto.trans hba
    · exact hrest
  have hnn : m.verdict (m.waitingStates start) name = none := by
    rw [verdict_of_target hr hta]
    refine targetState_of_activating hmem (by rw [if_neg hsf, hwa]) ?_
    intro dep _
    by_cases hdep : dep = name
    · simp [hdep]
    rw [if_neg hdep]
    by_cases hatv : m.waitingStates start dep = some .activating
    · simp [hatv]
    · rcases waitingStates_cases hatv with hst | hst <;> simp [hst]
  exact map_eq_none_iff.mpr hnn

omit [Kernel W] in
private theorem othersSettled_waitingStates :
    OthersSettled (m.restate (m.waitingStates start)) := by
  intro name r hr
  have hcv : CoversUnits m (m.waitingStates start) := covers_waitingStates
  have hst := stateOf_restate hcv name
  rw [stateOf, hr, map_some] at hst
  rw [getElem?_restate] at hr
  obtain ⟨r', hr', heq⟩ := map_eq_some_iff.mp hr
  have hld : r.loaded = r'.loaded := by rw [← heq]
  by_cases hwa : m.waitingStates start name = some .activating
  · rw [hwa, some.injEq] at hst
    rw [hst]
    refine ⟨by decide, fun _ => ?_⟩
    obtain ⟨-, hto, -⟩ := waitingStates_eq_activating.mp hwa
    obtain ⟨l, -, hrqr⟩ := Relation.TransGen.tail'_iff.mp hto
    obtain ⟨r'', hr'', hta⟩ := isTarget_iff.mp hrqr.2.1
    cases hr'.symm.trans hr''
    rw [hld]
    exact hta
  · rcases waitingStates_cases hwa with hnn | hav
    · rw [hnn] at hst
      cases hst
    · rw [hav, some.injEq] at hst
      rw [hst]
      exact ⟨by decide, fun h => by cases h⟩

omit [Kernel W] in
private theorem sameUnits_restate : SameUnits m (m.restate σ) := by
  intro name
  rw [getElem?_restate, Option.map_map]
  rfl

private theorem not_targetsSettle_of_cycle (hcc : Relation.TransGen m.RequiresTarget start start) :
    ¬TargetsSettle (m.restate (m.waitingStates start)) := by
  intro h
  have hcv : CoversUnits m (m.waitingStates start) := covers_waitingStates
  have hps : TargetPass (m.restate (m.waitingStates start))
      (m.restate (m.waitingStates start)) := by
    refine ⟨_, List.Perm.refl _, ?_⟩
    rw [(foldl_tryActivateTarget hcv (nodup_activatingTargets _) ?_).1,
      Settling.foldl_of_stuck stuck_waitingStates]
    exact fun name hname => ((mem_activatingTargets_restate hcv).mp hname).2
  obtain ⟨n, hn⟩ := h (fun _ => m.restate (m.waitingStates start)) rfl (fun _ => hps)
  have hnil := (hn n (Nat.le_refl n)).1
  obtain ⟨l, -, hrqr⟩ := Relation.TransGen.tail'_iff.mp hcc
  have hstr : m.isTarget start = true := hrqr.2.1
  obtain ⟨r, hr, -⟩ := isTarget_iff.mp hstr
  have hmem : start ∈ (m.restate (m.waitingStates start)).activatingTargets :=
    (mem_activatingTargets_restate hcv).mpr
      ⟨hstr, waitingStates_eq_activating.mpr ⟨⟨r, hr⟩, hcc, hcc⟩⟩
  rw [hnil] at hmem
  cases hmem

end

/-- For the units of a manager: the passes settle all targets, whatever the states once the other
units have settled, exactly when no targets require each other along a cycle. -/
theorem targets_settle_iff (m : Manager W) :
    (∀ m' : Manager W, SameUnits m m' → OthersSettled m' → TargetsSettle m') ↔
      ∀ name, ¬Relation.TransGen m.RequiresTarget name name := by
  constructor
  · intro hst start hcc
    exact not_targetsSettle_of_cycle hcc (hst _ sameUnits_restate othersSettled_waitingStates)
  intro hacy m' hsa hse
  refine targetsSettle_of_acyclic (fun name hcc => hacy name ?_) hse
  exact Relation.TransGen.mono (fun _ _ h => hsa.requiresTarget h) _ _ hcc

def waitingPair : Manager Script :=
  let target (other : String) : UnitRecord :=
    { loaded := .target { requires := [other] }, state := .activating }
  { Manager.new {} {} none with
    units := (∅ : Std.ExtTreeMap String UnitRecord).insert "a.target" (target "b.target")
      |>.insert "b.target" (target "a.target") }

/-- Both stay activating for ever. -/
theorem mutual_targets_wait : OthersSettled waitingPair ∧ ¬TargetsSettle waitingPair := by
  constructor
  · intro name r hr
    simp only [waitingPair, Std.ExtTreeMap.getElem?_insert] at hr
    split_ifs at hr
    · cases hr
      exact ⟨by decide, fun _ => rfl⟩
    · cases hr
      exact ⟨by decide, fun _ => rfl⟩
    · simp at hr
  · intro hse
    have hps : TargetPass waitingPair waitingPair := ⟨_, List.Perm.refl _, by rfl⟩
    obtain ⟨n, hn⟩ := hse (fun _ => waitingPair) rfl (fun _ => hps)
    exact absurd (hn n (Nat.le_refl n)).1 (by decide)

end

end Rustd.Manager
