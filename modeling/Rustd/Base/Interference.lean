import Mathlib

/-!
# Programs under interference

A program is a list of calls. Some of them must succeed, otherwise the program ends there; the
failure of the others is ignored. Each call meets a moment of its own: what other programs do
between two calls is arbitrary. What such a program can do is then what one of its calls can do at
some moment, provided that every call before it that must succeed can succeed at some moment.
-/

namespace Rustd.Base

open List

structure Step (C : Type) where
  call : C
  required : Bool

namespace Step

variable {M C E : Type}

/-- What a program does, when `perform` says what a call does at a moment and whether it
succeeds. -/
def run (perform : M → C → List E × Bool) : List (Step C) → (Nat → M) → List E
  | [], _ => []
  | s :: rest, moments =>
    (perform (moments 0) s.call).1 ++
      if (perform (moments 0) s.call).2 || !s.required then
        run perform rest fun n => moments (n + 1)
      else []

variable {perform : M → C → List E × Bool} {st before rest : List (Step C)} {s : Step C} {e : E}

def Passes (perform : M → C → List E × Bool) (s : Step C) : Prop :=
  s.required = true → ∃ m, (perform m s.call).2 = true

theorem exists_run (hbf : ∀ b ∈ before, Passes perform b)
    (he : e ∈ (perform m s.call).1) : ∃ moments, e ∈ run perform (before ++ s :: rest) moments := by
  induction before with
  | nil => exact ⟨fun _ => m, mem_append_left _ he⟩
  | cons b before ih =>
    obtain ⟨moments, hrun⟩ := ih fun b hb => hbf b (mem_cons_of_mem _ hb)
    -- the moment at which `b` lets the program go on, and then those of the other calls
    obtain ⟨a, hfr⟩ : ∃ a, ((perform a b.call).2 || !b.required) = true := by
      cases hrr : b.required with
      | false => exact ⟨m, by simp⟩
      | true =>
        obtain ⟨a, hfr⟩ := hbf b mem_cons_self hrr
        exact ⟨a, by simp [hfr]⟩
    refine ⟨fun n => n.casesOn a moments, mem_append_right _ ?_⟩
    change e ∈ if ((perform a b.call).2 || !b.required) = true then
      run perform (before ++ s :: rest) moments else []
    rw [if_pos hfr]
    exact hrun

theorem exists_of_mem_run (h : e ∈ run perform st mo) :
    ∃ before s rest m, st = before ++ s :: rest ∧ (∀ b ∈ before, Passes perform b) ∧
      e ∈ (perform m s.call).1 := by
  induction st generalizing mo with
  | nil => cases h
  | cons s st ih =>
    rw [run] at h
    rcases mem_append.mp h with h | h
    · exact ⟨[], s, st, mo 0, rfl, by simp, h⟩
    split at h
    · next hgo =>
      obtain ⟨before, s', rest, m, rfl, hbf, he⟩ := ih h
      refine ⟨s :: before, s', rest, m, rfl, ?_, he⟩
      intro b hb
      rcases mem_cons.mp hb with rfl | hb
      · intro hrr
        rw [hrr, Bool.not_true, Bool.or_false] at hgo
        exact ⟨mo 0, hgo⟩
      · exact hbf b hb
    · cases h

end Step

end Rustd.Base
