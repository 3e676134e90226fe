import Mathlib

/-!
# Ring buffers

A bounded buffer that overwrites its oldest element when it is full. It is described by the list
of everything ever pushed: the buffer holds the last elements of that list, and reading it in
order gives them in order.
-/

namespace Rustd.Base

open List

/-- A buffer that overwrites its oldest entry when it is full. -/
structure RingBuffer (α : Type) where
  capacity : Nat
  entries : List α
  head : Nat
  total : Nat
  deriving DecidableEq

namespace RingBuffer

variable {α : Type} {r : RingBuffer α} {pushed : List α}

def new (capacity : Nat) : RingBuffer α :=
  { capacity := max capacity 1, entries := [], head := 0, total := 0 }

def push (r : RingBuffer α) (x : α) : RingBuffer α :=
  { r with
    entries := if r.entries.length < r.capacity then r.entries ++ [x] else r.entries.set r.head x
    head := (r.head + 1) % r.capacity
    total := r.total + 1 }

/-- The entries, the oldest first. -/
def ordered (r : RingBuffer α) : List α :=
  if r.total ≤ r.capacity then r.entries
  else (List.range r.entries.length).filterMap
    fun i => r.entries[(r.head + i) % r.capacity]?

/-- The buffer after the given pushes: the `k`-th push is in its slot as long as fewer than
`capacity` others came after it. -/
structure Holds (r : RingBuffer α) (pushed : List α) : Prop where
  positive : 0 < r.capacity
  total : r.total = pushed.length
  head : r.head = pushed.length % r.capacity
  length : r.entries.length = min pushed.length r.capacity
  slot : ∀ k, pushed.length ≤ k + r.capacity → k < pushed.length →
    r.entries[k % r.capacity]? = pushed[k]?

theorem holds_new (c : Nat) : Holds (new c : RingBuffer α) [] where
  positive := by
    show 0 < max c 1
    omega
  total := rfl
  head := (Nat.zero_mod _).symm
  length := by simp [new]
  slot := fun k _ hk => absurd hk (Nat.not_lt_zero k)

private theorem mod_ne_of_lt {n k m : Nat} (hlt : k < m) (hne : m < k + n) : k % n ≠ m % n := by
  intro h
  have hdvd : n ∣ m - k := (Nat.modEq_iff_dvd' (Nat.le_of_lt hlt)).mp h
  have hle : n ≤ m - k := Nat.le_of_dvd (by omega) hdvd
  omega

theorem Holds.push (h : Holds r pushed) (x : α) : Holds (r.push x) (pushed ++ [x]) := by
  have hpv := h.positive
  have hln := h.length
  have hhd := h.head
  constructor
  case positive => exact h.positive
  case total => rw [length_append, ← h.total]; rfl
  case head =>
    show (r.head + 1) % r.capacity = (pushed ++ [x]).length % r.capacity
    rw [hhd, length_append, length_singleton, Nat.mod_add_mod]
  case length =>
    show (if r.entries.length < r.capacity then r.entries ++ [x]
      else r.entries.set r.head x).length = min (pushed ++ [x]).length r.capacity
    split
    · simp only [length_append, length_singleton]
      omega
    · simp only [length_set, length_append, length_singleton]
      omega
  case slot =>
    intro k hk hlt
    show (if r.entries.length < r.capacity then r.entries ++ [x]
      else r.entries.set r.head x)[k % r.capacity]? = (pushed ++ [x])[k]?
    simp only [length_append, length_singleton] at hlt
    have hk' : pushed.length + 1 ≤ k + r.capacity := by
      rw [length_append, length_singleton] at hk
      exact hk
    by_cases hls : k = pushed.length
    · -- the slot of the new element
      subst hls
      rw [getElem?_append_right (Nat.le_refl _), Nat.sub_self]
      split
      · next hrm =>
        have hmod : pushed.length % r.capacity = r.entries.length := by
          rw [Nat.mod_eq_of_lt (by omega)]
          omega
        rw [hmod, getElem?_append_right (Nat.le_refl _), Nat.sub_self]
      · next hfu =>
        have hbn : pushed.length % r.capacity < r.entries.length := by
          have := Nat.mod_lt pushed.length hpv
          omega
        rw [hhd, getElem?_set_self hbn]
        rfl
    · have hold : k < pushed.length := by omega
      rw [getElem?_append_left hold, ← h.slot k (by omega) hold]
      split
      · next hrm =>
        rw [Nat.mod_eq_of_lt (by omega), getElem?_append_left (by omega)]
      · rw [hhd, getElem?_set_ne (mod_ne_of_lt hold (by omega)).symm]

private theorem filterMap_range_getElem? (l : List α) :
    (List.range l.length).filterMap (l[·]?) = l := by
  induction l with
  | nil => rfl
  | cons x l ih =>
    rw [length_cons, range_succ_eq_map, filterMap_cons, filterMap_map]
    exact congrArg (x :: ·) ih

theorem Holds.ordered_eq (h : Holds r pushed) :
    r.ordered = pushed.drop (pushed.length - r.capacity) := by
  have hpv := h.positive
  have hln := h.length
  by_cases hfu : r.total ≤ r.capacity
  · rw [ordered, if_pos hfu]
    rw [h.total] at hfu
    rw [Nat.sub_eq_zero_of_le hfu, drop_zero]
    apply ext_getElem?
    intro k
    by_cases hk : k < pushed.length
    · rw [← h.slot k (by omega) hk, Nat.mod_eq_of_lt (by omega)]
    · rw [getElem?_eq_none (by omega), getElem?_eq_none (by omega)]
  · rw [ordered, if_neg hfu]
    rw [h.total] at hfu
    have hcn : r.entries.length = (pushed.drop (pushed.length - r.capacity)).length := by
      rw [length_drop]
      omega
    rw [hcn]
    refine Eq.trans (filterMap_congr ?_) (filterMap_range_getElem? _)
    intro i hi
    rw [mem_range, length_drop] at hi
    -- the `i`-th oldest element stands `i` slots after the write position
    have hsl : (r.head + i) % r.capacity =
        (pushed.length - r.capacity + i) % r.capacity := by
      rw [h.head, Nat.mod_add_mod, ← Nat.add_mod_right (pushed.length - r.capacity + i)]
      congr 1
      omega
    rw [hsl, h.slot _ (by omega) (by omega), getElem?_drop]

theorem Holds.foldl (h : Holds r pushed) (xs : List α) :
    Holds (xs.foldl RingBuffer.push r) (pushed ++ xs) := by
  induction xs generalizing r pushed with
  | nil => rwa [append_nil]
  | cons x xs ih =>
    rw [append_cons]
    exact ih (h.push x)

theorem capacity_foldl (r : RingBuffer α) (xs : List α) :
    (xs.foldl push r).capacity = r.capacity := by
  induction xs generalizing r with
  | nil => rfl
  | cons x xs ih => exact ih (r.push x)

/-- A full buffer is read from its head on. -/
theorem Holds.ordered_perm (h : Holds r pushed) : r.ordered.Perm r.entries := by
  by_cases hfu : r.total ≤ r.capacity
  · rw [ordered, if_pos hfu]
  have hln : r.entries.length = r.capacity := by
    have hl := h.length
    have ht := h.total
    omega
  have hro : r.ordered = r.entries.rotate r.head := by
    rw [ordered, if_neg hfu, ← hln, ← filterMap_range_getElem? (r.entries.rotate r.head),
      length_rotate]
    refine filterMap_congr fun i hi => ?_
    rw [getElem?_rotate (mem_range.mp hi), Nat.add_comm]
  rw [hro]
  exact rotate_perm _ _

theorem Holds.ordered_push (h : Holds r pushed) (x : α) :
    ∃ k, k <:+ r.ordered ∧ (r.push x).ordered = k ++ [x] := by
  have hpv := h.positive
  refine ⟨pushed.drop (pushed.length + 1 - r.capacity), ?_, ?_⟩
  · rw [h.ordered_eq]
    exact drop_suffix_drop_left _ (by omega)
  rw [(h.push x).ordered_eq, length_append, length_singleton, drop_append_of_le_length]
  · rfl
  · show pushed.length + 1 - r.capacity ≤ pushed.length
    omega

end RingBuffer

end Rustd.Base
