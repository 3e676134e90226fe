import Mathlib

/-!
# Linked lists in a store

`Linked next head l` says that following the links from `head` passes through the addresses of `l`
and ends at the null address. A list grows by a change of one link, at its end or at its head.
-/

namespace Rustd.Base

open List

theorem pairwise_cases {β : Type} {R : β → β → Prop} {l : List β} (h : l.Pairwise R) {a b : β}
    (ha : a ∈ l) (hb : b ∈ l) : a = b ∨ R a b ∨ R b a := by
  induction h with
  | nil => exact absurd ha not_mem_nil
  | cons hfr _ ih =>
    rcases mem_cons.mp ha with rfl | ha' <;> rcases mem_cons.mp hb with rfl | hb'
    · exact .inl rfl
    · exact .inr (.inl (hfr _ hb'))
    · exact .inr (.inr (hfr _ ha'))
    · exact ih ha' hb'

variable {α : Type} [Zero α]

def Linked (next : α → α) : α → List α → Prop
  | head, [] => head = 0
  | head, p :: l => head = p ∧ p ≠ 0 ∧ Linked next (next p) l

namespace Linked

variable {next n' : α → α} {head p q : α} {l : List α}

theorem head_eq (h : Linked next head l) : head = l.headD 0 := by
  cases l with
  | nil => exact h
  | cons p l => exact h.1

private theorem ne_zero (h : Linked next head l) (hp : p ∈ l) : p ≠ 0 := by
  induction l generalizing head with
  | nil => exact absurd hp not_mem_nil
  | cons q l ih =>
    rcases mem_cons.mp hp with rfl | hp
    · exact h.2.1
    · exact ih h.2.2 hp

theorem eq_nil_iff (h : Linked next head l) : head = 0 ↔ l = [] := by
  cases l with
  | nil => exact iff_of_true h rfl
  | cons p l =>
    refine iff_of_false ?_ (cons_ne_nil p l)
    rw [h.1]
    exact h.2.1

theorem getLastD_mem {l : List α} (h : l ≠ []) : l.getLastD 0 ∈ l := by
  cases l with
  | nil => exact absurd rfl h
  | cons p l =>
    rw [getLastD_cons]
    exact getLastD_mem_cons

theorem getLastD_eq_zero_iff (h : Linked next head l) : l.getLastD 0 = 0 ↔ l = [] := by
  constructor
  · intro hls
    by_contra hnil
    exact h.ne_zero (getLastD_mem hnil) hls
  · rintro rfl
    rfl

theorem congr (h : Linked next head l) (hnx : ∀ p ∈ l, n' p = next p) : Linked n' head l := by
  induction l generalizing head with
  | nil => exact h
  | cons p l ih =>
    refine ⟨h.1, h.2.1, ?_⟩
    rw [hnx p mem_cons_self]
    exact ih h.2.2 (fun q hq => hnx q (mem_cons_of_mem p hq))

variable [DecidableEq α]

theorem update (h : Linked next head l) (hp : p ∉ l) (q : α) :
    Linked (Function.update next p q) head l := by
  apply h.congr
  intro p' hp'
  have hne : p' ≠ p := by
    rintro rfl
    exact hp hp'
  exact Function.update_of_ne hne q next

theorem concat (h : Linked next head l) (hnp : (l ++ [q]).Nodup) (hq : q ≠ 0)
    (hend : next q = 0) (hnil : l ≠ []) :
    Linked (Function.update next (l.getLastD 0) q) head (l ++ [q]) := by
  induction l generalizing head with
  | nil => exact absurd rfl hnil
  | cons p l ih =>
    rw [cons_append, nodup_cons] at hnp
    cases l with
    | nil =>
      have hne : q ≠ p := by
        rintro rfl
        exact hnp.1 (mem_singleton_self q)
      refine ⟨h.1, h.2.1, ?_⟩
      show Linked (Function.update next p q) (Function.update next p q p) [q]
      rw [Function.update_self]
      refine ⟨rfl, hq, ?_⟩
      rw [Function.update_of_ne hne, hend]
      rfl
    | cons p' l =>
      have hls : (p :: p' :: l).getLastD 0 = (p' :: l).getLastD 0 := rfl
      have hmem : (p' :: l).getLastD 0 ∈ p' :: l := getLastD_mem (cons_ne_nil p' l)
      have hne : p ≠ (p' :: l).getLastD 0 := by
        intro heq
        exact hnp.1 (heq ▸ mem_append_left [q] hmem)
      refine ⟨h.1, h.2.1, ?_⟩
      rw [hls, Function.update_of_ne hne]
      exact ih h.2.2 hnp.2 (cons_ne_nil p' l)

theorem cons (h : Linked next head l) (hq : q ≠ 0) (hmem : q ∉ l) :
    Linked (Function.update next q head) q (q :: l) := by
  refine ⟨rfl, hq, ?_⟩
  rw [Function.update_self]
  exact h.update hmem head

end Linked

end Rustd.Base
