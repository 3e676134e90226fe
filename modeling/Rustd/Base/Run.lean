import Mathlib

/-!
# Runs of a transition function

Finite runs of a total or partial transition function, and sequences of moves of a labelled
transition relation. In each case an invariant kept by every step that meets a guard holds
after every run whose steps all meet it.
-/

namespace Rustd.Base

open List

variable {S E : Type}

/-- The state after a list of events. -/
def run (step : S → E → S) (s : S) (es : List E) : S := es.foldl step s

/-- Every event meets a condition on the state it is met in. -/
def AllSteps (step : S → E → S) (guard : S → E → Prop) : S → List E → Prop
  | _, [] => True
  | s, e :: es => guard s e ∧ AllSteps step guard (step s e) es

instance AllSteps.decidable {step : S → E → S} {guard : S → E → Prop}
    [∀ s e, Decidable (guard s e)] : (s : S) → (es : List E) → Decidable (AllSteps step guard s es)
  | _, [] => isTrue trivial
  | s, e :: es =>
    have : Decidable (AllSteps step guard (step s e) es) := AllSteps.decidable (step s e) es
    inferInstanceAs (Decidable (guard s e ∧ AllSteps step guard (step s e) es))

/-- A run that ends where a step has no result. -/
def runPartial (step : S → E → Option S) : S → List E → Option S
  | s, [] => some s
  | s, e :: es => (step s e).bind (runPartial step · es)

@[simp] theorem run_nil (step : S → E → S) (s : S) : run step s [] = s := rfl

@[simp] theorem run_cons (step : S → E → S) (s : S) (e : E) (es : List E) :
    run step s (e :: es) = run step (step s e) es := rfl

theorem run_append (step : S → E → S) (s : S) (es fs : List E) :
    run step s (es ++ fs) = run step (run step s es) fs := foldl_append

theorem allSteps_append (step : S → E → S) (guard : S → E → Prop) (s : S) (es fs : List E) :
    AllSteps step guard s (es ++ fs) ↔
      AllSteps step guard s es ∧ AllSteps step guard (run step s es) fs := by
  induction es generalizing s with
  | nil => simp [AllSteps]
  | cons e es ih => simp [AllSteps, ih, and_assoc]

variable {step : S → E → S} {guard : S → E → Prop} {I P : S → Prop} {D : E → Prop}

theorem allSteps_congr (h : ∀ s e, guard s e ↔ g' s e) (s : S)
    (es : List E) : AllSteps step guard s es ↔ AllSteps step g' s es := by
  induction es generalizing s with
  | nil => exact Iff.rfl
  | cons e es ih => exact and_congr (h s e) (ih (step s e))

theorem run_preserves (hsp : ∀ s e, I s → I (step s e)) (s : S) (es : List E) (hs : I s) :
    I (run step s es) := by
  induction es generalizing s with
  | nil => exact hs
  | cons e es ih => exact ih (step s e) (hsp s e hs)

theorem run_invariant (hsp : ∀ s e, I s → guard s e → I (step s e)) (s : S) (es : List E)
    (hs : I s) (hes : AllSteps step guard s es) : I (run step s es) := by
  induction es generalizing s with
  | nil => exact hs
  | cons e es ih => exact ih (step s e) (hsp s e hs hes.1) hes.2

theorem allSteps_of_invariant {P : S → E → Prop}
    (hsp : ∀ s e, I s → guard s e → I (step s e) ∧ P s e) (s : S) (es : List E) (hs : I s)
    (hes : AllSteps step guard s es) : AllSteps step P s es := by
  induction es generalizing s with
  | nil => trivial
  | cons e es ih =>
    obtain ⟨hnx, hP⟩ := hsp s e hs hes.1
    exact ⟨hP, ih (step s e) hnx hes.2⟩

/-- Two guards that agree on the steps from states of an invariant, which the first of them
keeps, agree on runs. -/
theorem allSteps_iff_of_invariant {P Q : S → E → Prop} (hiff : ∀ s e, D e → I s → (P s e ↔ Q s e))
    (hinv : ∀ s e, D e → I s → P s e → I (step s e)) (s : S) (es : List E) (hes : ∀ e ∈ es, D e)
    (hs : I s) : AllSteps step P s es ↔ AllSteps step Q s es := by
  induction es generalizing s with
  | nil => exact Iff.rfl
  | cons e es ih =>
    have he : D e := hes e mem_cons_self
    have hrest : ∀ e ∈ es, D e := fun e he => hes e (mem_cons_of_mem _ he)
    constructor
    · rintro ⟨hP, hla⟩
      exact ⟨(hiff s e he hs).mp hP, (ih (step s e) hrest (hinv s e he hs hP)).mp hla⟩
    rintro ⟨hQ, hla⟩
    have hP := (hiff s e he hs).mpr hQ
    exact ⟨hP, (ih (step s e) hrest (hinv s e he hs hP)).mpr hla⟩

/-- A property that every guarded step keeps or trades for a second one holds throughout a
guarded run, unless there is a step that traded it. -/
theorem run_holds_until {Q : S → Prop}
    (hsp : ∀ s e, P s → guard s e → P (step s e) ∨ Q (step s e)) (s : S) (es : List E) (hs : P s)
    (hes : AllSteps step guard s es) :
    P (run step s es) ∨ ∃ ea e l, es = ea ++ e :: l ∧ P (run step s ea) ∧
      Q (step (run step s ea) e) := by
  induction es generalizing s with
  | nil => exact .inl hs
  | cons e es ih =>
    rcases hsp s e hs hes.1 with hnx | hnx
    · rcases ih (step s e) hnx hes.2 with h | ⟨ea, e', l, rfl, h⟩
      · exact .inl h
      · exact .inr ⟨e :: ea, e', l, rfl, h⟩
    · exact .inr ⟨[], e, es, rfl, hs, hnx⟩

/-- What holds after a run held before it, or a step of the run brought it about. -/
theorem run_cause {C : S → E → Prop} (hsp : ∀ s e, P (step s e) → P s ∨ C s e) (s : S)
    (es : List E) (hP : P (run step s es)) :
    P s ∨ ∃ ea e l, es = ea ++ e :: l ∧ C (run step s ea) e := by
  induction es generalizing s with
  | nil => exact .inl hP
  | cons e es ih =>
    rcases ih (step s e) hP with h | ⟨ea, e', l, rfl, h⟩
    · exact (hsp s e h).imp_right fun h => ⟨[], e, es, rfl, h⟩
    · exact .inr ⟨e :: ea, e', l, rfl, h⟩

/-- When a guard says exactly which steps keep a property, given what is known of the states
reached with it, the runs that never lose the property are those whose steps all meet the
guard. -/
theorem forall_run_iff_allSteps (hinv : ∀ s e, D e → I s → P s → P (step s e) → I (step s e))
    (hsp : ∀ s e, D e → I s → P s → (P (step s e) ↔ guard s e)) (s : S) (es : List E)
    (hes : ∀ e ∈ es, D e) (hI : I s) (hP : P s) :
    (∀ fs, fs <+: es → P (run step s fs)) ↔ AllSteps step guard s es := by
  induction es generalizing s with
  | nil =>
    simp only [prefix_nil, forall_eq, run_nil, AllSteps, iff_true]
    exact hP
  | cons e es ih =>
    have he : D e := hes e mem_cons_self
    have hrest : ∀ e ∈ es, D e := fun e he => hes e (mem_cons_of_mem _ he)
    constructor
    · intro h
      have hnx : P (step s e) := h [e] (by simp)
      refine ⟨(hsp s e he hI hP).mp hnx, (ih (step s e) hrest (hinv s e he hI hP hnx) hnx).mp ?_⟩
      intro fs hfs
      exact h (e :: fs) (cons_prefix_cons.mpr ⟨rfl, hfs⟩)
    · rintro ⟨hgu, hla⟩ fs hfs
      have hnx : P (step s e) := (hsp s e he hI hP).mpr hgu
      cases fs with
      | nil => exact hP
      | cons f fs =>
        obtain ⟨rfl, htl⟩ := cons_prefix_cons.mp hfs
        exact (ih (step s f) hrest (hinv s f he hI hP hnx) hnx).mpr hla fs htl

theorem runPartial_invariant {step : S → E → Option S}
    (hsp : ∀ s e t, I s → step s e = some t → I t) (s t : S) (es : List E) (hs : I s)
    (hrun : runPartial step s es = some t) : I t := by
  induction es generalizing s with
  | nil =>
    cases hrun
    exact hs
  | cons e es ih =>
    obtain ⟨u, hu, ht⟩ := Option.bind_eq_some_iff.mp hrun
    exact ih u (hsp s e u hs hu) ht

/-- A fold that extends a predicate by one condition for each element extends it by the
condition for some element of the list. -/
theorem foldl_or_iff {Q : E → Prop} (f : S → E → S) (hf : ∀ s e, P (f s e) ↔ P s ∨ Q e) (s : S)
    (es : List E) : P (es.foldl f s) ↔ P s ∨ ∃ e ∈ es, Q e := by
  induction es generalizing s with
  | nil => simp
  | cons e es ih =>
    rw [foldl_cons, ih, hf]
    simp [or_assoc]

theorem foldl_keeps (g : S → Prop) (hke : ∀ s b, g s → g (step s b)) (xs : List E) (hs : g s) : g
    (xs.foldl step s) := by
  induction xs generalizing s with
  | nil => exact hs
  | cons b xs ih => exact ih (hke s b hs)

theorem foldl_establishes (step : S → E → S) (g : E → S → Prop)
    (hsp : ∀ s b, g b (step s b)) (hke : ∀ s b b', g b' s → g b' (step s b))
    (xs : List E) (s : S) : ∀ b ∈ xs, g b (xs.foldl step s) := by
  induction xs generalizing s with
  | nil => exact fun b hb => by cases hb
  | cons a l ih =>
    intro b hb
    rw [foldl_cons]
    rcases mem_cons.mp hb with rfl | hb
    · exact foldl_keeps (g b) (fun s b' => hke s b' b) l (hsp s b)
    · exact ih (step s a) b hb

section

variable {L : Type} {move : L → S → S → Prop} {guard g' : L → S → Prop} {s t u : S}

def Reaches (move : L → S → S → Prop) (guard : L → S → Prop) : S → S → Prop :=
  Relation.ReflTransGen (fun s t => ∃ l, guard l s ∧ move l s t)

theorem Reaches.refl (s : S) : Reaches move guard s s := Relation.ReflTransGen.refl

theorem Reaches.of_eq (h : t = s) : Reaches move guard s t := by
  rw [h]
  exact Reaches.refl s

theorem Reaches.single (l : L) (hgu : guard l s) (hmv : move l s t) : Reaches move guard s t :=
  Relation.ReflTransGen.single ⟨l, hgu, hmv⟩

theorem Reaches.trans (h : Reaches move guard s t) (h' : Reaches move guard t u) :
    Reaches move guard s u :=
  Relation.ReflTransGen.trans h h'

theorem Reaches.invariant {I : S → Prop}
    (hmv : ∀ l a b, I a → guard l a → move l a b → I b) (h : Reaches move guard s t) (hs : I s) :
    I t := by
  induction h with
  | refl => exact hs
  | tail _ hsp ih =>
    obtain ⟨l, hl, hab⟩ := hsp
    exact hmv l _ _ ih hl hab

end

end Rustd.Base
