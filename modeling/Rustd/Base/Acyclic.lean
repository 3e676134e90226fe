import Mathlib

/-!
# Acyclic relations

Acyclicity is irreflexivity of the transitive closure. Two rules are used by ordered
schedulers: a relation whose edges follow an acyclic relation forwards on one class of
vertices and backwards on the other is itself acyclic, and an acyclic relation has a
vertex without outgoing edges in every nonempty finite set.
-/

namespace Rustd.Base

variable {α β : Type}

/-- No element is above itself. -/
def Acyclic (r : α → α → Prop) : Prop := ∀ a, ¬Relation.TransGen r a a

namespace Acyclic

variable {r : α → α → Prop} {q : β → β → Prop} (f : α → β) (re : α → Prop)

theorem mono {q : α → α → Prop} (h : Acyclic q) (hrq : ∀ a b, r a b → q a b) : Acyclic r :=
  fun a ha => h a (Relation.TransGen.mono hrq a a ha)

theorem irrefl (h : Acyclic r) (a : α) : ¬r a a :=
  fun ha => h a (.single ha)

theorem of_rank (ra : α → Nat) (h : ∀ a b, r a b → ra b < ra a) : Acyclic r := by
  have lower (a b : α) (hab : Relation.TransGen r a b) : ra b < ra a := by
    induction hab with
    | single hab => exact h _ _ hab
    | tail _ hbc ih => exact Nat.lt_trans (h _ _ hbc) ih
  intro a ha
  exact Nat.lt_irrefl _ (lower a a ha)

-- The two halves of the polarity argument. From a reversed vertex every further edge
-- leads to a reversed vertex, and into a forward vertex every earlier edge comes from one.
private theorem chain_from_reversed
    (hr : ∀ a b, r a b → (¬re a ∧ q (f a) (f b)) ∨ (re b ∧ q (f b) (f a))) (a b : α)
    (h : Relation.TransGen r a b) (ha : re a) : re b ∧ Relation.TransGen q (f b) (f a) := by
  induction h with
  | single hab =>
    obtain ⟨hn, -⟩ | ⟨hb, hq⟩ := hr _ _ hab
    · exact absurd ha hn
    · exact ⟨hb, .single hq⟩
  | tail _ hbc ih =>
    obtain ⟨hn, -⟩ | ⟨hc, hq⟩ := hr _ _ hbc
    · exact absurd ih.1 hn
    · exact ⟨hc, .head hq ih.2⟩

private theorem chain_into_forward
    (hr : ∀ a b, r a b → (¬re a ∧ q (f a) (f b)) ∨ (re b ∧ q (f b) (f a))) (a b : α)
    (h : Relation.TransGen r a b) (hb : ¬re b) : Relation.TransGen q (f a) (f b) := by
  induction h using Relation.TransGen.head_induction_on with
  | single hab =>
    obtain ⟨-, hq⟩ | ⟨hr', -⟩ := hr _ _ hab
    · exact .single hq
    · exact absurd hr' hb
  | @head a c hac hcb ih =>
    obtain ⟨-, hq⟩ | ⟨hc, -⟩ := hr _ _ hac
    · exact .head hq ih
    · exact absurd (chain_from_reversed f re hr c b hcb hc).1 hb

/-- Polarity rule: edges that start at a forward vertex along `q`, or end at a reversed
vertex against `q`, cannot close a cycle when `q` is acyclic. -/
theorem of_polarity (hq : Acyclic q) (f : α → β) (re : α → Prop)
    (hr : ∀ a b, r a b → (¬re a ∧ q (f a) (f b)) ∨ (re b ∧ q (f b) (f a))) : Acyclic r := by
  intro a ha
  by_cases hrev : re a
  · exact hq (f a) (chain_from_reversed f re hr a a ha hrev).2
  · exact hq (f a) (chain_into_forward f re hr a a ha hrev)

theorem exists_sink (h : Acyclic r) (s : Set α) (hs : s.Finite) (hn : s.Nonempty) :
    ∃ a ∈ s, ∀ b ∈ s, ¬r a b := by
  have order : IsStrictOrder α (fun b a => Relation.TransGen r a b) :=
    { irrefl := h
      trans := fun _ _ _ hab hbc => hbc.trans hab }
  have wf : s.WellFoundedOn (fun b a => Relation.TransGen r a b) := hs.wellFoundedOn
  obtain ⟨x, hx⟩ := hn
  obtain ⟨a, -, hmin⟩ := WellFounded.has_min wf Set.univ ⟨⟨x, hx⟩, trivial⟩
  exact ⟨a.val, a.property, fun b hb hab => hmin ⟨b, hb⟩ trivial (.single hab)⟩

end Acyclic
end Rustd.Base
