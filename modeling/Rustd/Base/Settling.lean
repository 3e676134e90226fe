import Mathlib

/-!
# Settling by passes

Open positions are decided one after the other, each by a rule that reads the values at all
positions. A rule that keeps its decision when further positions are decided makes the result
independent of the order: every sequence of passes over the open positions stops, and all stop at
the same values.
-/

namespace Rustd.Base

open List Function

/-- Rules that decide open positions. Only finitely many positions are ever decided, and a decision
stands when more of the others are decided. -/
structure Settling (α β : Type) where
  isOpen : β → Bool
  sites : Finset α
  rule : (α → β) → α → Option β
  decided : ∀ {σ : α → β} {a : α} {b : β}, rule σ a = some b → isOpen b = false
  site : ∀ {σ : α → β} {a : α} {b : β}, rule σ a = some b → a ∈ sites
  stands : ∀ {σ τ : α → β} {a : α} {b : β}, (∀ c, isOpen (σ c) = false → τ c = σ c) →
    rule σ a = some b → rule τ a = some b

namespace Settling

variable {α β : Type} (S : Settling α β)

def Extends (σ τ : α → β) : Prop := ∀ a, S.isOpen (σ a) = false → τ a = σ a

def Stuck (σ : α → β) : Prop := ∀ a, S.isOpen (σ a) = true → S.rule σ a = none

def openSites (σ : α → β) : Nat := (S.sites.filter fun a => S.isOpen (σ a) = true).card

variable {S} {σ τ υ : α → β}

theorem Extends.refl (σ : α → β) : S.Extends σ σ := fun _ _ => rfl

theorem Extends.trans (h : S.Extends σ τ) (h' : S.Extends τ υ) : S.Extends σ υ := by
  intro a ha
  have hτ := h a ha
  rw [h' a (by rw [hτ]; exact ha), hτ]

variable [DecidableEq α] (S)

def visit (σ : α → β) (a : α) : α → β :=
  if S.isOpen (σ a) then
    match S.rule σ a with
    | some b => update σ a b
    | none => σ
  else σ

def Pass (σ τ : α → β) : Prop :=
  ∃ order : List α, (∀ a ∈ S.sites, S.isOpen (σ a) = true → a ∈ order) ∧ order.foldl S.visit σ = τ

variable {S} {a : α} {v : List α}

theorem visit_cases (S : Settling α β) (σ : α → β) (a : α) :
    (∃ b, S.isOpen (σ a) = true ∧ S.rule σ a = some b ∧ S.visit σ a = update σ a b) ∨
      (S.isOpen (σ a) = true → S.rule σ a = none) ∧ S.visit σ a = σ := by
  unfold visit
  cases hon : S.isOpen (σ a) with
  | false => simp
  | true =>
    cases hrl : S.rule σ a with
    | none | some => simp

private theorem extends_visit : S.Extends σ (S.visit σ a) := by
  intro c hc
  rcases visit_cases S σ a with ⟨b, hon, -, hvs⟩ | ⟨-, hvs⟩
  · rw [hvs, update_of_ne]
    rintro rfl
    rw [hon] at hc
    cases hc
  · rw [hvs]

variable (S) in
structure Justified (σ τ : α → β) : Prop where
  kept : S.Extends σ τ
  rule_eq : ∀ a, τ a ≠ σ a → S.rule τ a = some (τ a)

theorem Justified.visit (h : S.Justified σ τ) : S.Justified σ (S.visit τ a) := by
  refine ⟨h.kept.trans extends_visit, ?_⟩
  intro c hc
  rcases visit_cases S τ a with ⟨b, -, hrl, hvs⟩ | ⟨-, hvs⟩
  · have hst : S.rule (S.visit τ a) a = some b := S.stands extends_visit hrl
    by_cases hca : c = a
    · subst hca
      rw [hst, hvs, update_self]
    have hsa : S.visit τ a c = τ c := by rw [hvs, update_of_ne hca]
    rw [hsa] at hc ⊢
    exact S.stands extends_visit (h.rule_eq c hc)
  · rw [hvs] at hc ⊢
    exact h.rule_eq c hc

private theorem justified_foldl (h : S.Justified σ τ) : S.Justified σ (v.foldl S.visit τ) := by
  induction v generalizing τ with
  | nil => exact h
  | cons a l ih => exact ih h.visit

theorem justified_of_visits : S.Justified σ (v.foldl S.visit σ) :=
  justified_foldl ⟨Extends.refl σ, fun _ h => absurd rfl h⟩

private theorem extends_of_stuck (hτ : S.Justified σ τ) (hstc : S.Stuck τ) (v : List α)
    (υ : α → β) (hυ : S.Extends σ υ) (h : S.Extends υ τ) : S.Extends (v.foldl S.visit υ) τ := by
  induction v generalizing υ with
  | nil => exact h
  | cons a l ih =>
    refine ih (S.visit υ a) (hυ.trans extends_visit) ?_
    rcases visit_cases S υ a with ⟨b, hon, hrl, hvs⟩ | ⟨-, hvs⟩
    · have hst : S.rule τ a = some b := S.stands h hrl
      -- The position is decided in `τ`, by the same rule and so to the same value.
      have hch : τ a ≠ σ a := by
        intro hsa
        cases hbf : S.isOpen (σ a) with
        | false =>
          rw [hυ a hbf, hbf] at hon
          cases hon
        | true =>
          rw [hstc a (by rw [hsa]; exact hbf)] at hst
          cases hst
      have hva : τ a = b := by
        have hown := hτ.rule_eq a hch
        rw [hst] at hown
        exact (Option.some.inj hown).symm
      intro c hc
      by_cases hca : c = a
      · subst hca
        rw [hvs, update_self, hva]
      · rw [hvs, update_of_ne hca] at hc ⊢
        exact h c hc
    · rw [hvs]
      exact h

private theorem eq_of_stuck {v v' : List α} (hστ : v.foldl S.visit σ = τ)
    (hσυ : v'.foldl S.visit σ = υ) (hτ : S.Stuck τ) (hυ : S.Stuck υ) : τ = υ := by
  have hjτ : S.Justified σ τ := hστ ▸ justified_of_visits
  have hjυ : S.Justified σ υ := hσυ ▸ justified_of_visits
  have hto : S.Extends τ υ := hστ ▸ extends_of_stuck hjυ hυ v σ (Extends.refl σ) hjυ.kept
  have hba : S.Extends υ τ := hσυ ▸ extends_of_stuck hjτ hτ v' σ (Extends.refl σ) hjτ.kept
  funext a
  cases hon : S.isOpen (τ a) with
  | false => exact (hto a hon).symm
  | true =>
    cases hon' : S.isOpen (υ a) with
    | false => exact hba a hon'
    | true =>
      have hsa : ∀ {ρ : α → β}, S.Justified σ ρ → S.isOpen (ρ a) = true → ρ a = σ a := by
        intro ρ hρ h
        by_contra hne
        rw [S.decided (hρ.rule_eq a hne)] at h
        cases h
      rw [hsa hjτ hon, hsa hjυ hon']

private theorem visit_of_stuck (h : S.Stuck σ) : S.visit σ a = σ := by
  rcases visit_cases S σ a with ⟨b, hon, hrl, -⟩ | ⟨-, hvs⟩
  · rw [h a hon] at hrl
    cases hrl
  · exact hvs

theorem foldl_of_stuck (h : S.Stuck σ) : v.foldl S.visit σ = σ := by
  induction v with
  | nil => rfl
  | cons a l ih => rw [foldl_cons, visit_of_stuck h, ih]

private theorem openSites_visit (S : Settling α β) (σ : α → β) (a : α) :
    S.visit σ a = σ ∨ S.openSites (S.visit σ a) < S.openSites σ := by
  rcases visit_cases S σ a with ⟨b, hon, hrl, hvs⟩ | ⟨-, hvs⟩
  · right
    refine Finset.card_lt_card (Finset.ssubset_iff_of_subset ?_ |>.mpr ⟨a, ?_, ?_⟩)
    · intro c hc
      rw [Finset.mem_filter] at hc ⊢
      refine ⟨hc.1, ?_⟩
      by_contra hcs
      rw [Bool.not_eq_true] at hcs
      have hkp := extends_visit (S := S) (a := a) c hcs
      rw [hkp, hcs] at hc
      exact Bool.false_ne_true hc.2
    · exact Finset.mem_filter.mpr ⟨S.site hrl, hon⟩
    · rw [Finset.mem_filter, hvs, update_self, S.decided hrl]
      exact fun h => Bool.false_ne_true h.2
  · exact .inl hvs

private theorem openSites_foldl (S : Settling α β) (v : List α) (σ : α → β) :
    S.openSites (v.foldl S.visit σ) ≤ S.openSites σ := by
  induction v generalizing σ with
  | nil => exact Nat.le_refl _
  | cons a l ih =>
    refine Nat.le_trans (ih (S.visit σ a)) ?_
    rcases openSites_visit S σ a with hsa | hlt
    · rw [hsa]
    · exact Nat.le_of_lt hlt

private theorem Pass.stuck_or_lt (h : S.Pass σ τ) : S.Stuck σ ∨ S.openSites τ < S.openSites σ := by
  obtain ⟨o, hcv, rfl⟩ := h
  by_cases hlt : S.openSites (o.foldl S.visit σ) < S.openSites σ
  · exact .inr hlt
  left
  have hvi : ∀ a ∈ o, S.isOpen (σ a) = true → S.rule σ a = none := by
    clear hcv
    induction o with
    | nil => simp
    | cons c l ih =>
      have hsa : S.visit σ c = σ := by
        rcases openSites_visit S σ c with hsa | hlss
        · exact hsa
        · exact absurd (Nat.lt_of_le_of_lt (openSites_foldl S l _) hlss) hlt
      rw [foldl_cons, hsa] at hlt
      intro a ha
      rcases mem_cons.mp ha with rfl | ha
      · rcases visit_cases S σ a with ⟨b, hon, hrl, hvs⟩ | ⟨hnn, -⟩
        · have hcs := S.decided hrl
          rw [hsa] at hvs
          have hva : σ a = b := by
            rw [hvs, update_self]
          rw [hva, hcs] at hon
          cases hon
        · exact hnn
      · exact ih hlt a ha
  intro a ha
  cases hrl : S.rule σ a with
  | none => rfl
  | some b => rw [← hrl, hvi a (hcv a (S.site hrl) ha) ha]

theorem Pass.stuck (h : S.Pass σ σ) : S.Stuck σ :=
  h.stuck_or_lt.resolve_right (Nat.lt_irrefl _)

private theorem Pass.eq_of_stuck (h : S.Pass σ τ) (hstc : S.Stuck σ) : τ = σ := by
  obtain ⟨o, -, rfl⟩ := h
  exact foldl_of_stuck hstc

section

variable {f : Nat → α → β}

theorem visits_of_passes (hps : ∀ i, S.Pass (f i) (f (i + 1))) (n : Nat) :
    ∃ v : List α, v.foldl S.visit (f 0) = f n := by
  induction n with
  | zero => exact ⟨[], rfl⟩
  | succ n ih =>
    obtain ⟨v, hvt⟩ := ih
    obtain ⟨o, -, hord⟩ := hps n
    exact ⟨v ++ o, by rw [foldl_append, hvt, hord]⟩

theorem exists_stuck (hps : ∀ i, S.Pass (f i) (f (i + 1))) :
    ∃ n, n ≤ S.openSites (f 0) ∧ S.Stuck (f n) := by
  by_contra hne
  simp only [not_exists, not_and] at hne
  have hdr : ∀ n, n ≤ S.openSites (f 0) + 1 → S.openSites (f n) + n ≤ S.openSites (f 0) := by
    intro n
    induction n with
    | zero => simp
    | succ n ih =>
      intro hn
      have hlt := (hps n).stuck_or_lt.resolve_left (hne n (by omega))
      have hle := ih (by omega)
      omega
  have hls := hdr (S.openSites (f 0) + 1) (Nat.le_refl _)
  omega

theorem eq_of_stuck_le (hps : ∀ i, S.Pass (f i) (f (i + 1))) (hstc : S.Stuck (f n))
    (hle : n ≤ k) : f k = f n := by
  induction k, hle using Nat.le_induction with
  | base => rfl
  | succ k hle ih =>
    rw [← ih] at hstc ⊢
    exact (hps k).eq_of_stuck hstc

theorem exists_final (S : Settling α β) (σ : α → β) :
    ∃ final, S.Stuck final ∧ ∀ f : Nat → α → β, f 0 = σ → (∀ i, S.Pass (f i) (f (i + 1))) →
      ∃ n, n ≤ S.openSites σ ∧ ∀ k, n ≤ k → f k = final := by
  have hro : ∀ i, S.Pass ((fun τ => S.sites.toList.foldl S.visit τ)^[i] σ)
      ((fun τ => S.sites.toList.foldl S.visit τ)^[i + 1] σ) := by
    intro i
    refine ⟨S.sites.toList, fun a ha _ => Finset.mem_toList.mpr ha, ?_⟩
    rw [iterate_succ_apply']
  obtain ⟨n, -, hstc⟩ := exists_stuck hro
  obtain ⟨v, hvt⟩ := visits_of_passes hro n
  refine ⟨_, hstc, ?_⟩
  intro f hzr hps
  obtain ⟨k, hk, h⟩ := exists_stuck hps
  rw [hzr] at hk
  refine ⟨k, hk, fun j hj => ?_⟩
  obtain ⟨v', hvt'⟩ := visits_of_passes hps k
  rw [hzr] at hvt'
  rw [eq_of_stuck_le hps h hj]
  exact eq_of_stuck hvt' hvt h hstc

end

end Settling

end Rustd.Base
