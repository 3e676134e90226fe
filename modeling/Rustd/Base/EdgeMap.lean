import Mathlib

/-!
# Adjacency maps

A finite directed graph stored as an ordered map from a vertex to the ordered set of
its successors. Edges are added one at a time, and a vertex is removed together with
every edge that touches it. All laws are about the edge relation and the key set.
-/

namespace Rustd.Base

abbrev EdgeMap (K : Type) [Ord K] [Std.TransOrd K] := Std.ExtTreeMap K (Std.ExtTreeSet K)

namespace EdgeMap

variable {K : Type} [Ord K] [Std.TransOrd K] (m : EdgeMap K)

/-- The edge relation: `b` is stored in the successor set of `a`. -/
def Edge (a b : K) : Prop := ∃ s, m[a]? = some s ∧ b ∈ s

/-- Add one edge, creating the successor set of `a` when there is none. -/
def link (a b : K) : EdgeMap K := m.insert a ((m.getD a ∅).insert b)

/-- Remove a vertex: its own successor set, its occurrences in the others, and the
sets that become empty. -/
def unlink (k : K) : EdgeMap K :=
  ((m.erase k).map (fun _ s => s.erase k)).filter (fun _ s => !s.isEmpty)

def Transposed (n : EdgeMap K) : Prop := ∀ a b, Edge m a b ↔ Edge n b a

def Mentions (k : K) : Prop := k ∈ m ∨ ∃ x, Edge m x k

variable (m : EdgeMap K) (a k b x y : K)

@[simp] theorem edge_empty : ¬Edge (∅ : EdgeMap K) a b := by
  simp [Edge]

theorem not_mentions_empty : ¬Mentions (∅ : EdgeMap K) k := by
  simp [Mentions]

theorem transposed_empty : Transposed (∅ : EdgeMap K) ∅ := by
  intro a b
  simp

variable [Std.LawfulEqOrd K]

@[simp] theorem mem_link : x ∈ link m a b ↔ a = x ∨ x ∈ m := by
  simp [link, Std.ExtTreeMap.mem_insert]

variable [DecidableEq K]

private theorem getElem?_link :
    (link m a b)[x]? = if a = x then some ((m.getD a ∅).insert b) else m[x]? := by
  simp [link, Std.ExtTreeMap.getElem?_insert]

@[simp] theorem edge_link : Edge (link m a b) x y ↔ (a = x ∧ b = y) ∨ Edge m x y := by
  unfold Edge
  rw [getElem?_link]
  by_cases hx : a = x
  · subst x
    cases hm : m[a]? with
    | none | some => simp [Std.ExtTreeMap.getD_eq_getD_getElem?, hm, Std.ExtTreeSet.mem_insert]
  · simp [hx]

private theorem getElem?_unlink : (unlink m k)[x]? =
      if k = x then none else (m[x]?.map (·.erase k)).filter (!·.isEmpty) := by
  unfold unlink
  rw [Std.ExtTreeMap.getElem?_filter', Std.ExtTreeMap.getElem?_map, Std.ExtTreeMap.getElem?_erase]
  by_cases hx : k = x
  · simp [hx]
  · simp [hx]

@[simp] theorem edge_unlink : Edge (unlink m k) x y ↔ k ≠ x ∧ k ≠ y ∧ Edge m x y := by
  unfold Edge
  rw [getElem?_unlink]
  by_cases hx : k = x
  · simp [hx]
  cases hm : m[x]? with
  | none => simp
  | some s =>
    simp only [hx, if_false, Option.map_some, Option.filter_some, ne_eq, not_false_eq_true,
      true_and, Option.some.injEq, exists_eq_left']
    constructor
    · rintro ⟨t, ht, hy⟩
      split at ht
      · cases ht
        simpa [Std.ExtTreeSet.mem_erase] using hy
      · cases ht
    · rintro ⟨hk, hy⟩
      have hmem : y ∈ s.erase k := by simpa [Std.ExtTreeSet.mem_erase] using ⟨hk, hy⟩
      have hne : (s.erase k).isEmpty = false := by
        rw [Std.ExtTreeSet.isEmpty_eq_false_iff]
        intro he
        simp [he] at hmem
      exact ⟨s.erase k, by simp [hne], hmem⟩

private theorem mem_of_mem_unlink (h : x ∈ unlink m k) : k ≠ x ∧ x ∈ m := by
  rw [Std.ExtTreeMap.mem_iff_isSome_getElem?, getElem?_unlink] at h
  by_cases hx : k = x
  · simp [hx] at h
  cases hm : m[x]? with
  | none => simp [hm] at h
  | some s => exact ⟨hx, by simp [Std.ExtTreeMap.mem_iff_isSome_getElem?, hm]⟩

theorem mentions_of_link (h : Mentions (link m a b) x) : x = a ∨ x = b ∨ Mentions m x := by
  unfold Mentions at h ⊢
  simp only [mem_link, edge_link] at h
  rcases h with (rfl | hx) | ⟨y, ⟨-, rfl⟩ | hy⟩
  · exact .inl rfl
  · exact .inr (.inr (.inl hx))
  · exact .inr (.inl rfl)
  · exact .inr (.inr (.inr ⟨y, hy⟩))

theorem mentions_of_unlink (h : Mentions (unlink m k) x) : k ≠ x ∧ Mentions m x := by
  rcases h with hx | ⟨y, hy⟩
  · exact ⟨(mem_of_mem_unlink m k x hx).1, .inl (mem_of_mem_unlink m k x hx).2⟩
  · rw [edge_unlink] at hy
    exact ⟨hy.2.1, .inr ⟨y, hy.2.2⟩⟩

theorem Transposed.link {m n : EdgeMap K} (h : Transposed m n) (a b : K) :
    Transposed (m.link a b) (n.link b a) := by
  intro x y
  simp [h x y, and_comm]

theorem Transposed.unlink {m n : EdgeMap K} (h : Transposed m n) (k : K) :
    Transposed (m.unlink k) (n.unlink k) := by
  intro x y
  simp only [edge_unlink, h x y]
  tauto

end EdgeMap
end Rustd.Base
