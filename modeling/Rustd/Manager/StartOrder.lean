import Rustd.Base.DepthFirst
import Rustd.Manager.StartClosure

/-!
# The order of a start transaction

The resolver of `src/deps.rs` over a fixed graph of units. A search that succeeds is a depth-first
walk of the graph (`resolve_walk`); with room for as many nested calls as there are units to be
reached, it ends with an order or with a requirement that cannot be loaded (`resolve_settles`).
-/

namespace Rustd.Manager

open Base Service UnitFile Jobs List Option Std.ExtTreeMap

structure UnitGraph where
  units : String → Option UnitSection

namespace UnitGraph

variable (g : UnitGraph) (name : String)

/-- `deps_for`. -/
def sectionOf : UnitSection := (g.units name).getD {}

def requirements : List String := (g.sectionOf name).requires

/-- The dependencies that are followed: every requirement, and what is wanted if it can be
loaded. -/
def children : List String :=
  g.requirements name ++ (g.sectionOf name).wants.filter fun dep => (g.units dep).isSome

/-- All requirements of the unit exist. -/
def Satisfied : Prop := ∀ dep ∈ g.requirements name, (g.units dep).isSome = true

end UnitGraph

/-- The graph of a start request: the known units, and those that can be loaded. The target is only
looked up among the known ones. -/
def startGraph (known : Std.ExtTreeMap String LoadedUnit) (load : String → Option LoadedUnit)
    (target : String) : UnitGraph where
  units name :=
    (known[name]?.or (if name = target then none else load name)).map LoadedUnit.unitSection

/-- The error for a requirement that cannot be loaded. -/
def missingRequirement (dep : String) : String :=
  s!"required dependency '{dep}' could not be loaded"

variable {W : Type} [Kernel W]

/-- Loading gives the same units at all times. -/
def Steady (load : String → Option LoadedUnit) (w : W) : Prop :=
  ∃ p : W → Prop, p w ∧ ∀ w, p w → ∀ name,
    (Kernel.loadUnit w name).1.toOption = load name ∧ p (Kernel.loadUnit w name).2

theorem Steady.loadUnit {load : String → Option LoadedUnit} {w : W} (h : Steady load w)
    (name : String) : (Kernel.loadUnit w name).1.toOption = load name ∧
      Steady load (Kernel.loadUnit w name).2 := by
  obtain ⟨p, hp, hsp⟩ := h
  exact ⟨(hsp w hp name).1, p, (hsp w hp name).2, hsp⟩

namespace Resolver

structure Agrees (load : String → Option LoadedUnit) (g : UnitGraph) (s : Resolver W) : Prop where
  steady : Steady load s.world
  loaded : ∀ name, s.isLoaded name = true →
    (s.known[name]?.or s.extra[name]?).map LoadedUnit.unitSection = g.units name
  fresh : ∀ name, s.isLoaded name = false →
    (load name).map LoadedUnit.unitSection = g.units name

/-- The resolver with the units of the stack open: it agrees with the graph, and the visited units
are those that are ordered. -/
structure Models (load : String → Option LoadedUnit) (g : UnitGraph) (stack : List String)
    (s : Resolver W) : Prop extends Agrees load g s where
  visited : ∀ name, s.visited.contains name = true ↔ name ∈ s.order
  onStack : ∀ name, s.onStack.contains name = true ↔ name ∈ stack

variable {load : String → Option LoadedUnit} {g : UnitGraph} {stack : List String}
  {s s' : Resolver W} {name dep error err : String} {depth k : Nat}

omit [Kernel W] in
private theorem isLoaded_iff :
    s.isLoaded name = true ↔ (s.known[name]?.or s.extra[name]?).isSome = true := by
  rw [isLoaded, Bool.or_eq_true, ← isSome_getElem?_eq_contains,
    ← isSome_getElem?_eq_contains, isSome_or, Bool.or_eq_true]

theorem Agrees.isSome (h : Agrees load g s) (hld : s.isLoaded name = true) :
    (g.units name).isSome = true := by
  rw [← h.loaded name hld, isSome_map]
  exact isLoaded_iff.mp hld

theorem Agrees.sectionFor (h : Agrees load g s) (hld : s.isLoaded name = true) :
    s.sectionFor name = g.sectionOf name := by
  rw [Resolver.sectionFor, UnitGraph.sectionOf, ← h.loaded name hld]

/-! ### Loading a dependency -/

private theorem search_ensureLoaded (s : Resolver W) (dep : String) :
    (s.ensureLoaded dep).visited = s.visited ∧ (s.ensureLoaded dep).onStack = s.onStack ∧
      (s.ensureLoaded dep).order = s.order := by
  simp only [ensureLoaded]
  split
  · exact ⟨rfl, rfl, rfl⟩
  · split <;> exact ⟨rfl, rfl, rfl⟩

theorem Agrees.ensureLoaded (h : Agrees load g s) (dep : String) :
    Agrees load g (s.ensureLoaded dep) ∧
      (s.ensureLoaded dep).isLoaded dep = (g.units dep).isSome := by
  by_cases hdep : s.isLoaded dep = true
  · rw [Resolver.ensureLoaded, if_pos hdep]
    exact ⟨h, hdep.trans (h.isSome hdep).symm⟩
  obtain ⟨ha, hstd⟩ := h.steady.loadUnit dep
  have hfh := h.fresh dep (Bool.not_eq_true _ ▸ hdep)
  rw [← ha] at hfh
  simp only [Resolver.ensureLoaded, if_neg hdep]
  cases hlo : (Kernel.loadUnit s.world dep).1 with
  | error error =>
    simp only [hlo, Except.toOption, map_none] at hfh ⊢
    refine ⟨⟨hstd, h.loaded, h.fresh⟩, ?_⟩
    rw [← hfh, isSome_none]
    exact Bool.eq_false_iff.mpr hdep
  | ok un =>
    simp only [hlo, Except.toOption, map_some] at hfh ⊢
    have hnn : s.known[dep]? = none ∧ s.extra[dep]? = none := by
      rw [isLoaded_iff, Bool.not_eq_true, isSome_eq_false_iff, isNone_iff_eq_none,
        or_eq_none_iff] at hdep
      exact hdep
    refine ⟨⟨hstd, ?_, ?_⟩, ?_⟩
    · intro v hother
      by_cases heq : v = dep
      · subst heq
        rw [hnn.1, none_or, getElem?_insert_self, map_some, hfh]
      have hoh' : s.isLoaded v = true := by
        rw [isLoaded_iff] at hother ⊢
        rwa [Std.ExtTreeMap.getElem?_insert, if_neg (by simpa using Ne.symm heq)] at hother
      rw [Std.ExtTreeMap.getElem?_insert, if_neg (by simpa using Ne.symm heq)]
      exact h.loaded v hoh'
    · intro v hother
      refine h.fresh v ?_
      rw [← Bool.not_eq_true, isLoaded_iff] at hother ⊢
      intro hsome
      apply hother
      by_cases heq : v = dep
      · subst heq
        simp [hnn] at hsome
      · rwa [Std.ExtTreeMap.getElem?_insert, if_neg (by simpa using Ne.symm heq)]
    · rw [← hfh, isSome_some, isLoaded_iff, hnn.1, none_or, getElem?_insert_self, isSome_some]

theorem Models.ensureLoaded (h : Models load g stack s) (dep : String) :
    Models load g stack (s.ensureLoaded dep) := by
  obtain ⟨hvi, ho, hord⟩ := search_ensureLoaded s dep
  refine ⟨(h.toAgrees.ensureLoaded dep).1, ?_, ?_⟩
  · intro name
    rw [hvi, hord]
    exact h.visited name
  intro name
  rw [ho]
  exact h.onStack name

theorem Models.isLoaded_ensureLoaded (h : Models load g stack s) (dep : String) :
    (s.ensureLoaded dep).isLoaded dep = (g.units dep).isSome :=
  (h.toAgrees.ensureLoaded dep).2

/-! ### One call of the search -/

def entered (s : Resolver W) (name : String) : Resolver W :=
  { s with onStack := s.onStack.insert name }

def left (s : Resolver W) (name : String) : Resolver W :=
  { s with
    onStack := s.onStack.erase name
    visited := s.visited.insert name
    order := s.order ++ [name] }

def met (s : Resolver W) (name : String) : Bool :=
  s.visited.contains name || s.onStack.contains name

theorem Models.met_iff (h : Models load g stack s) : s.met name = true ↔ name ∈ s.order ∨ name ∈
    stack := by
  rw [met, Bool.or_eq_true, h.visited, h.onStack]

private theorem resolve_succ (k : Nat) (name : String) (s : Resolver W) :
    resolve (k + 1) name s =
      if s.met name then (.ok (), s)
      else
        let required := visitDeps true (resolve k) (s.sectionFor name).requires (s.entered name)
        match required.1 with
        | .error err => (.error err, required.2)
        | .ok () =>
          let wanted := visitDeps false (resolve k) (s.sectionFor name).wants required.2
          match wanted.1 with
          | .error err => (.error err, wanted.2)
          | .ok () => (.ok (), wanted.2.left name) := by
  rw [← visitRequires_eq, ← visitWants_eq]
  rfl

private theorem Models.entered (h : Models load g stack s) (name : String) :
    Models load g (name :: stack) (s.entered name) := by
  refine ⟨⟨h.steady, h.loaded, h.fresh⟩, h.visited, ?_⟩
  intro v
  rw [Resolver.entered, Std.ExtTreeSet.contains_insert, Bool.or_eq_true, h.onStack, mem_cons,
    beq_iff_eq, Std.LawfulEqCmp.compare_eq_iff_eq, eq_comm]

theorem Models.left (h : Models load g (name :: stack) s) (hname : name ∉ stack) :
    Models load g stack (s.left name) := by
  refine ⟨⟨h.steady, h.loaded, h.fresh⟩, ?_, ?_⟩
  · intro v
    rw [Resolver.left, Std.ExtTreeSet.contains_insert, Bool.or_eq_true, h.visited, mem_append,
      mem_singleton, beq_iff_eq, Std.LawfulEqCmp.compare_eq_iff_eq, or_comm, eq_comm]
  intro v
  rw [Resolver.left, Std.ExtTreeSet.contains_erase, Bool.and_eq_true, h.onStack, mem_cons,
    bne_iff_ne, ne_eq, Std.LawfulEqCmp.compare_eq_iff_eq]
  constructor
  · rintro ⟨hne, rfl | hmem⟩
    · exact absurd rfl hne
    · exact hmem
  intro hmem
  refine ⟨?_, .inr hmem⟩
  rintro rfl
  exact hname hmem

/-! ### Searches that succeed -/

def Walks (load : String → Option LoadedUnit) (g : UnitGraph) (stack : List String)
    (visit : String → Resolver W → Except String Unit × Resolver W) : Prop :=
  ∀ dep s s', Models load g stack s → s.isLoaded dep = true → visit dep s = (.ok (), s') →
    Walk g.children g.Satisfied stack s.order [dep] s'.order ∧ Models load g stack s'

section

variable {visit : String → Resolver W → Except String Unit × Resolver W} {deps : List String}

private theorem visitDeps_walk (hvs : Walks load g stack visit)
    (h : Models load g stack s) (hok : visitDeps r visit deps s = (.ok (), s')) :
    Walk g.children g.Satisfied stack s.order (deps.filter fun dep => (g.units dep).isSome)
      s'.order ∧ Models load g stack s' ∧
        (r = true → ∀ dep ∈ deps, (g.units dep).isSome = true) := by
  induction deps generalizing s with
  | nil =>
    cases hok
    exact ⟨.nil, h, fun _ dep hdep => by cases hdep⟩
  | cons dep l ih =>
    have hlo := h.ensureLoaded dep
    rw [visitDeps] at hok
    simp only [h.isLoaded_ensureLoaded dep] at hok
    split at hok
    · next hnn =>
      split at hok
      · cases hok
      rename_i hwn
      rw [filter_cons_of_neg (by simpa using hnn)]
      obtain ⟨hwl, hml, -⟩ := ih hlo hok
      rw [(search_ensureLoaded s dep).2.2] at hwl
      exact ⟨hwl, hml, fun hrr => absurd hrr hwn⟩
    · next hsome =>
      have hsome : (g.units dep).isSome = true := by
        rwa [Bool.not_eq_true', Bool.not_eq_false] at hsome
      rw [filter_cons_of_pos (p := fun dep => (g.units dep).isSome) hsome]
      cases hre : visit dep (s.ensureLoaded dep) with
      | mk re s₁ =>
        rw [hre] at hok
        cases re with
        | error error => cases hok
        | ok va =>
          obtain ⟨hwl, hml⟩ := hvs dep _ s₁ hlo ((h.isLoaded_ensureLoaded dep).trans hsome) hre
          obtain ⟨hrest, hml', hl⟩ := ih hml hok
          rw [(search_ensureLoaded s dep).2.2] at hwl
          refine ⟨hwl.append hrest, hml', ?_⟩
          intro hrr v hother
          rcases mem_cons.mp hother with rfl | hother
          · exact hsome
          · exact hl hrr v hother

end

/-- A search that succeeds is a depth-first walk, and it only enters units whose requirements can be
loaded. -/
theorem resolve_walk (h : Models load g stack s) (hld : s.isLoaded name = true)
    (hok : resolve k name s = (.ok (), s')) :
    Walk g.children g.Satisfied stack s.order [name] s'.order ∧ Models load g stack s' := by
  induction k generalizing name stack s s' with
  | zero => cases hok
  | succ k ih =>
    rw [resolve_succ] at hok
    split at hok
    · next hmet =>
      cases hok
      exact ⟨.seen (h.met_iff.mp hmet) .nil, h⟩
    next hmet =>
    rw [h.met_iff, not_or] at hmet
    cases hrr : visitDeps true (resolve k) (s.sectionFor name).requires (s.entered name)
    with
    | mk r s₁ =>
      rw [hrr] at hok
      cases r with
      | error error => cases hok
      | ok v =>
        obtain ⟨hrqr, h₁, hl⟩ := visitDeps_walk
          (fun dep t t' ht hdep hre => ih ht hdep hre) (h.entered name) hrr
        rw [filter_eq_self.mpr (hl rfl)] at hrqr
        cases hwn : visitDeps false (resolve k) (s.sectionFor name).wants s₁ with
        | mk r s₂ =>
          simp only [hwn] at hok
          cases r with
          | error error => cases hok
          | ok v =>
            obtain ⟨hwnt, h₂, -⟩ := visitDeps_walk
              (fun dep t t' ht hdep hre => ih ht hdep hre) h₁ hwn
            rw [h.toAgrees.sectionFor hld] at hrqr hwnt hl
            obtain rfl : s₂.left name = s' := by
              cases hok
              rfl
            exact ⟨.enter hmet.1 hmet.2 (hl rfl) (hrqr.append hwnt) .nil, h₂.left hmet.2⟩

private theorem walks_resolve (k : Nat) : Walks load g stack (resolve (W := W) k) :=
  fun _ _ _ h hdep hok => resolve_walk h hdep hok

/-! ### Searches that fail -/

def Keeps (load : String → Option LoadedUnit) (g : UnitGraph) (stack : List String)
    (visit : String → Resolver W → Except String Unit × Resolver W) : Prop :=
  ∀ dep s s', Models load g stack s → s.isLoaded dep = true → visit dep s = (.ok (), s') →
    Models load g stack s'

private theorem keeps_resolve (k : Nat) : Keeps load g stack (resolve (W := W) k) :=
  fun _ _ _ h hdep hok => (resolve_walk h hdep hok).2

section

variable {visit : String → Resolver W → Except String Unit × Resolver W} {deps : List String}

/-- What holds of every nested call holds of the loop: one outcome for both searches, with an error
that `P` allows. -/
theorem visitDeps_settles (r : Bool) (deps : List String) {P : String → Prop}
    {v' : String → Resolver W → Except String Unit × Resolver W} (h : Models load g stack s)
    (hvs : Keeps load g stack visit)
    (hmg : r = true → ∀ dep ∈ deps, g.units dep = none → P (missingRequirement dep))
    (hbe : ∀ dep ∈ deps.filter (fun dep => (g.units dep).isSome), ∀ t, Models load g stack t →
      t.isLoaded dep = true → visit dep t = v' dep t ∧
        ∀ error, (visit dep t).1 = .error error → P error) :
    visitDeps r visit deps s = visitDeps r v' deps s ∧
      ∀ error, (visitDeps r visit deps s).1 = .error error → P error := by
  induction deps generalizing s with
  | nil => exact ⟨rfl, nofun⟩
  | cons dep l ih =>
    have hlo := h.ensureLoaded dep
    have hrest {t : Resolver W} (ht : Models load g stack t) := ih ht
      (fun hrr v hother => hmg hrr v (mem_cons_of_mem _ hother))
      (fun v hother => hbe v (((sublist_cons_self ..).filter _).mem hother))
    rw [visitDeps, visitDeps]
    simp only [h.isLoaded_ensureLoaded dep]
    split
    · next hnn =>
      split
      · next hrr =>
        refine ⟨rfl, ?_⟩
        rintro _ ⟨⟩
        exact hmg hrr dep mem_cons_self (by simpa using hnn)
      · exact hrest hlo
    · next hsome =>
      rw [Bool.not_eq_true', Bool.not_eq_false] at hsome
      have hdep := (h.isLoaded_ensureLoaded dep).trans hsome
      obtain ⟨heq, herr⟩ := hbe dep (mem_filter.mpr ⟨mem_cons_self, hsome⟩) _ hlo hdep
      rw [← heq]
      cases hre : visit dep (s.ensureLoaded dep) with
      | mk re s₁ =>
        cases re with
        | error v =>
          rw [hre] at herr
          exact ⟨rfl, herr⟩
        | ok va => exact hrest (hvs dep _ s₁ hlo hdep hre)

end

/-! ### Room for the nested calls -/

section

variable {ns : Finset String} (hclosed : ∀ n ∈ ns, ∀ c ∈ g.children n, c ∈ ns)

private theorem card_entered_lt (hname : name ∈ ns) (hsck : name ∉ stack) :
    (ns.filter (· ∉ name :: stack)).card < (ns.filter (· ∉ stack)).card := by
  refine Finset.card_lt_card ⟨?_, ?_⟩
  · intro v hother
    rw [Finset.mem_filter, mem_cons, not_or] at hother
    exact Finset.mem_filter.mpr ⟨hother.1, hother.2.2⟩
  intro hsub
  have hsf := hsub (Finset.mem_filter.mpr ⟨hname, hsck⟩)
  rw [Finset.mem_filter, mem_cons, not_or] at hsf
  exact hsf.2.1 rfl

include hclosed

/-- With room for the units that can be entered, more room changes nothing, and a search fails for a
requirement that cannot be loaded. -/
theorem resolve_settles {depth' : Nat} (h : Models load g stack s) (hname : name ∈ ns)
    (hld : s.isLoaded name = true) (hrm : (ns.filter (· ∉ stack)).card < k)
    (hrm' : (ns.filter (· ∉ stack)).card < depth') :
    resolve k name s = resolve depth' name s ∧
      ∀ error, (resolve k name s).1 = .error error → ∃ n, Reach g.children name n ∧
        ∃ dep ∈ g.requirements n, g.units dep = none ∧ error = missingRequirement dep := by
  induction k generalizing depth' name stack s with
  | zero => exact absurd hrm (Nat.not_lt_zero _)
  | succ k ih =>
    cases depth' with
    | zero => exact absurd hrm' (Nat.not_lt_zero _)
    | succ depth' =>
      rw [resolve_succ, resolve_succ]
      split
      · exact ⟨rfl, nofun⟩
      rename_i hmet
      rw [h.met_iff, not_or] at hmet
      have hlss := card_entered_lt hname hmet.2
      -- The nested searches settle, since less can be entered below this unit.
      have hbe : ∀ dep ∈ g.children name, ∀ t : Resolver W, Models load g (name :: stack) t →
          t.isLoaded dep = true → resolve k dep t = resolve depth' dep t ∧
            ∀ error, (resolve k dep t).1 = .error error → ∃ n, Reach g.children name n ∧
              ∃ dep ∈ g.requirements n, g.units dep = none ∧ error = missingRequirement dep := by
        intro dep hdep t ht hlo
        obtain ⟨hsa, hfai⟩ := ih ht (hclosed name hname dep hdep) hlo
          (by omega) (show _ < depth' by omega)
        refine ⟨hsa, fun error herr => ?_⟩
        obtain ⟨n, hrc, hmg⟩ := hfai error herr
        exact ⟨n, (Reach.child hdep).trans hrc, hmg⟩
      rw [h.toAgrees.sectionFor hld]
      obtain ⟨hsa, hfai⟩ := visitDeps_settles true (g.sectionOf name).requires
        (h.entered name) (keeps_resolve k)
        (fun _ dep hdep hnn => ⟨name, Reach.refl name, dep, hdep, hnn, rfl⟩)
        (fun dep hdep => hbe dep (mem_append_left _ (mem_of_mem_filter hdep)))
      rw [← hsa]
      cases hre : visitDeps true (resolve k) (g.sectionOf name).requires (s.entered name)
      with
      | mk result s₁ =>
        rw [hre] at hfai
        cases result with
        | error error => exact ⟨rfl, hfai⟩
        | ok value =>
          have hml := (visitDeps_walk (walks_resolve k) (h.entered name) hre).2.1
          obtain ⟨hsa, hfai⟩ := visitDeps_settles false (g.sectionOf name).wants hml
            (keeps_resolve k) nofun (fun dep hdep => hbe dep (mem_append_right _ hdep))
          simp only [← hsa]
          cases hwn : visitDeps false (resolve k) (g.sectionOf name).wants s₁ with
          | mk result s₂ =>
            rw [hwn] at hfai
            cases result with
            | error error => exact ⟨trivial, hfai⟩
            | ok value => exact ⟨trivial, nofun⟩

end

/-! ### Start requests -/

omit [Kernel W] in
/-- The resolver of a start request. -/
def initial (w : W) (known : Std.ExtTreeMap String LoadedUnit) : Resolver W :=
  { world := w, known := known }

section

variable {w : W} {known kn : Std.ExtTreeMap String LoadedUnit} {target tgt : String}

private theorem models_initial (hstd : Steady load w) (hkw : kn.contains target = true) :
    Models load (startGraph kn load target) [] (initial w kn) := by
  refine ⟨⟨hstd, ?_, ?_⟩, ?_, ?_⟩
  · intro name hname
    rw [isLoaded_iff] at hname
    obtain ⟨unit, hunt⟩ := isSome_iff_exists.mp hname
    have hsome : kn[name]? = some unit := by simpa [initial] using hunt
    simp [startGraph, initial, hsome]
  · intro name hname
    have hnn : kn[name]? = none := by
      refine getElem?_eq_none_of_contains_eq_false ?_
      simpa [isLoaded, initial] using hname
    have hne : name ≠ target := by
      rintro rfl
      rw [← isSome_getElem?_eq_contains, hnn] at hkw
      cases hkw
    simp [startGraph, hnn, hne]
  · intro name
    simp [initial]
  · intro name
    simp [initial]

private theorem sectionOf_unknown (load : String → Option LoadedUnit)
    (hkw : kn.contains tgt = false) :
    (startGraph kn load tgt).sectionOf tgt = {} := by
  have hnn := getElem?_eq_none_of_contains_eq_false hkw
  simp [UnitGraph.sectionOf, startGraph, hnn]

private theorem resolve_unknown (w : W) (hkw : kn.contains tgt = false) (k : Nat) :
    resolve (k + 1) tgt (initial w kn) = (.ok (), ((initial w kn).entered tgt).left tgt) := by
  have hse : (initial w kn).sectionFor tgt = {} := by
    have hnn := getElem?_eq_none_of_contains_eq_false hkw
    simp [sectionFor, initial, hnn]
  have hmet : ¬(initial w kn).met tgt = true := by simp [met, initial]
  rw [resolve_succ, if_neg hmet, hse]
  rfl

private theorem walk_initial (hstd : Steady load w)
    (hok : resolve k tgt (initial w kn) = (.ok (), s')) :
    Walk (startGraph kn load tgt).children (startGraph kn load tgt).Satisfied [] []
      [tgt] s'.order := by
  by_cases hkw : kn.contains tgt = true
  · have hld : (initial w kn).isLoaded tgt = true := by
      simp [isLoaded, initial, hkw]
    exact (resolve_walk (models_initial hstd hkw) hld hok).1
  rw [Bool.not_eq_true] at hkw
  have hse := sectionOf_unknown load hkw
  cases k with
  | zero => cases hok
  | succ k =>
    rw [resolve_unknown w hkw] at hok
    obtain rfl : ((initial w kn).entered tgt).left tgt = s' := by
      cases hok
      rfl
    refine .enter not_mem_nil not_mem_nil ?_ ?_ .nil
    · intro dep hdep
      rw [UnitGraph.requirements, hse] at hdep
      cases hdep
    · rw [UnitGraph.children, UnitGraph.requirements, hse]
      exact .nil

structure Settles (g : UnitGraph) (target : String) (s : Resolver W) (bound : Nat) : Prop where
  same : ∀ depth, bound ≤ depth → resolve depth target s = resolve bound target s
  missing : ∀ error, (resolve bound target s).1 = .error error →
    ∃ n, Reach g.children target n ∧ ∃ dep ∈ g.requirements n, g.units dep = none ∧
      error = missingRequirement dep

private theorem exists_settles (hstd : Steady load w)
    (hfi : {n | Reach (startGraph kn load tgt).children tgt n}.Finite) :
    ∃ bound, Settles (startGraph kn load tgt) tgt (initial w kn) bound := by
  by_cases hkw : kn.contains tgt = true
  · have hml := models_initial hstd hkw
    have hld : (initial w kn).isLoaded tgt = true := by
      simp [isLoaded, initial, hkw]
    have hta : tgt ∈ hfi.toFinset := hfi.mem_toFinset.mpr (Reach.refl tgt)
    have hclosed : ∀ n ∈ hfi.toFinset, ∀ c ∈ (startGraph kn load tgt).children n,
        c ∈ hfi.toFinset := by
      intro n hn c hc
      rw [hfi.mem_toFinset] at hn ⊢
      exact Reach.trans hn (Reach.child hc)
    refine ⟨(hfi.toFinset.filter (· ∉ ([] : List String))).card + 1, ?_, ?_⟩
    · intro k hdp
      exact (resolve_settles hclosed hml hta hld hdp (Nat.lt_succ_self _)).1
    · exact (resolve_settles hclosed hml hta hld (Nat.lt_succ_self _) (Nat.lt_succ_self _)).2
  · rw [Bool.not_eq_true] at hkw
    refine ⟨1, ?_, ?_⟩
    · intro k hdp
      obtain ⟨k, rfl⟩ := Nat.exists_eq_add_of_le' hdp
      rw [resolve_unknown w hkw, resolve_unknown w hkw]
    intro err herr
    rw [resolve_unknown w hkw] at herr
    cases herr

end

end Resolver

open Resolver

def knownUnits (m : Manager W) : Std.ExtTreeMap String LoadedUnit := m.units.map fun _ r => r.loaded

/-- For every graph of units, a resolved order is the depth-first order of the target: without
duplicates, with the target last, with exactly the units that can be reached, and with each
dependency before its unit unless it can itself reach the unit. The search ends whenever finitely
many units can be reached: from some depth on it has one outcome, an order or a requirement that
cannot be loaded. -/
theorem start_order_resolved (m : Manager W) (target : String) (load : String → Option LoadedUnit)
    (hsteady : Steady load m.world) :
    (∀ order, (m.resolveStartOrder target).1 = .ok order →
      DepthFirst (startGraph m.knownUnits load target).children target order) ∧
    ({n | Reach (startGraph m.knownUnits load target).children target n}.Finite →
      ∃ bound, ∀ depth, bound ≤ depth →
        resolve depth target (initial m.world m.knownUnits) =
          resolve bound target (initial m.world m.knownUnits) ∧
        ((resolve depth target (initial m.world m.knownUnits)).1 = .ok () ∨
          ∃ dep, (resolve depth target (initial m.world m.knownUnits)).1 =
            .error (missingRequirement dep))) := by
  constructor
  · intro order hord
    change (resolve (Kernel.stackDepth m.world) target (initial m.world m.knownUnits)).1.map
      (fun _ => (resolve (Kernel.stackDepth m.world) target
        (initial m.world m.knownUnits)).2.order) = .ok order at hord
    cases hre : resolve (Kernel.stackDepth m.world) target (initial m.world m.knownUnits) with
    | mk r s =>
      rw [hre] at hord
      cases r with
      | error error => cases hord
      | ok v =>
        cases hord
        exact (walk_initial hsteady hre).depthFirst
  · intro hfi
    obtain ⟨bound, hbn⟩ := exists_settles hsteady hfi
    refine ⟨bound, fun depth hdp => ⟨hbn.same depth hdp, ?_⟩⟩
    rw [hbn.same depth hdp]
    cases hre : (resolve bound target (initial m.world m.knownUnits)).1 with
    | ok v => exact .inl rfl
    | error error =>
      obtain ⟨-, -, dep, -, -, rfl⟩ := hbn.missing error hre
      exact .inr ⟨dep, rfl⟩

private theorem steady_script (w : Script) : Steady w.units w := by
  refine ⟨fun w' => w' = w, rfl, ?_⟩
  rintro w' rfl name
  refine ⟨?_, rfl⟩
  cases h : w'.units name with
  | none => simp [Kernel.loadUnit, h, Except.toOption]
  | some l => simp [Kernel.loadUnit, h, Except.toOption]

def mutualTargets : Script :=
  { units := fun name =>
      if name = "a.target" then some (.target { wants := ["b.target"] })
      else if name = "b.target" then some (.target { wants := ["a.target"] })
      else none }

/-- The cycle is broken at the target. -/
theorem start_order_resolved_cycle :
    let m : Manager Script := (Manager.new mutualTargets {} none).loadUnits ["a.target"]
    DepthFirst (startGraph m.knownUnits mutualTargets.units "a.target").children "a.target"
      ["b.target", "a.target"] :=
  (start_order_resolved _ "a.target" mutualTargets.units (steady_script mutualTargets)).1 _
    (by decide)

/-- A request fails only for a unit that the target needs: the target itself, or one that can be
reached through `Requires=` alone. -/
def BrokenByNeed (g : UnitGraph) (target : String) (result : Except String Unit) : Prop :=
  ∀ error, result = .error error → ∃ n, Reach g.requirements target n ∧ g.units n = none

/-- With room for the nested calls, a start request fails only for a unit that the target needs
exactly when, with all needed units there, every unit behind a `Wants=` has its requirements
too. -/
theorem broken_by_need_iff (m : Manager W) (target : String) (load : String → Option LoadedUnit)
    (hsteady : Steady load m.world)
    (hfinite : {n | Reach (startGraph m.knownUnits load target).children target n}.Finite) :
    ∃ bound, ∀ depth, bound ≤ depth →
      (BrokenByNeed (startGraph m.knownUnits load target) target
          (resolve depth target (initial m.world m.knownUnits)).1 ↔
        ((∀ n, Reach (startGraph m.knownUnits load target).requirements target n →
            ((startGraph m.knownUnits load target).units n).isSome = true) →
          ∀ n, Reach (startGraph m.knownUnits load target).children target n →
            (startGraph m.knownUnits load target).Satisfied n)) := by
  obtain ⟨bound, hbn⟩ := exists_settles hsteady hfinite
  refine ⟨bound, fun depth hdp => ?_⟩
  rw [hbn.same depth hdp]
  constructor
  · intro hbr hnd n hrc
    cases hre : resolve bound target (initial m.world m.knownUnits) with
    | mk r s =>
      cases r with
      | error error =>
        obtain ⟨ne, hne, hnn⟩ := hbr error (by rw [hre])
        have hsome := hnd ne hne
        rw [hnn] at hsome
        cases hsome
      | ok v =>
        have hwl := walk_initial hsteady hre
        exact hwl.ok_of_mem ((hwl.depthFirst.mem_iff n).mpr hrc)
  · intro hco error herr
    by_contra hnn
    have hnd : ∀ n, Reach (startGraph m.knownUnits load target).requirements target n →
        ((startGraph m.knownUnits load target).units n).isSome = true := by
      intro n hrc
      rw [isSome_iff_ne_none]
      exact fun heq => hnn ⟨n, hrc, heq⟩
    obtain ⟨n, hrc, dep, hdep, hmg, -⟩ := hbn.missing error herr
    have hsome := hco hnd n hrc dep hdep
    rw [hmg] at hsome
    cases hsome

def wantingTarget : Script :=
  { units := fun name =>
      if name = "a.target" then some (.target { wants := ["b.service"] })
      else if name = "b.service" then some (.service { requires := ["gone.service"] } {})
      else none }

def wantingManager : Manager Script :=
  (Manager.new wantingTarget {} none).loadUnits ["a.target"]

private theorem finite_reach_wanting :
    {n | Reach (startGraph wantingManager.knownUnits wantingTarget.units "a.target").children
      "a.target" n}.Finite := by
  refine Set.Finite.subset (Set.toFinite {"a.target", "b.service", "gone.service"}) ?_
  intro n hrc
  refine Reach.closed hrc (.inl rfl) ?_
  rintro n (rfl | rfl | rfl) c hc
  · have hc : c ∈ ["b.service"] := hc
    exact .inr (.inl (mem_singleton.mp hc))
  · have hc : c ∈ ["gone.service"] := hc
    exact .inr (.inr (mem_singleton.mp hc))
  · have hc : c ∈ [] := hc
    cases hc

private theorem requirements_wanting (n : String)
    (h : Reach (startGraph wantingManager.knownUnits wantingTarget.units "a.target").requirements
      "a.target" n) : n = "a.target" := by
  refine Reach.closed (p := fun n => n = "a.target") h rfl ?_
  rintro n rfl c hc
  have hc : c ∈ [] := hc
  cases hc

theorem broken_by_need_iff_wanting :
    ∃ bound, ∀ depth, bound ≤ depth →
      ¬BrokenByNeed (startGraph wantingManager.knownUnits wantingTarget.units "a.target") "a.target"
        (resolve depth "a.target" (initial wantingTarget wantingManager.knownUnits)).1 := by
  obtain ⟨bound, hbn⟩ := broken_by_need_iff wantingManager "a.target" wantingTarget.units
    (steady_script wantingTarget) finite_reach_wanting
  refine ⟨bound, fun depth hdp hbr => ?_⟩
  have hsa := (hbn depth hdp).mp hbr
    (fun n hn => by rw [requirements_wanting n hn]; rfl) "b.service"
    (Reach.child (mem_singleton.mpr rfl))
  have hsome := hsa "gone.service" (mem_singleton.mpr rfl)
  cases hsome

/-- The target requires nothing and its wanted service is there, but the request fails, since a unit
that the service requires is not there. -/
theorem wanted_unit_breaks_request :
    (wantingManager.resolveStartOrder "a.target").1 =
        .error "required dependency 'gone.service' could not be loaded" ∧
      ∀ n, Reach (startGraph wantingManager.knownUnits wantingTarget.units "a.target").requirements
          "a.target" n →
        ((startGraph wantingManager.knownUnits wantingTarget.units "a.target").units n).isSome =
          true := by
  refine ⟨by decide, ?_⟩
  intro n hn
  rw [requirements_wanting n hn]
  rfl

end Rustd.Manager
