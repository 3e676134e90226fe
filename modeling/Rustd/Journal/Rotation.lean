import Mathlib

/-!
# Removal of archived journals

`src/journal/rotation.rs`: `vacuum` removes archives, the oldest first, while they take too much
space or are too old. Times count in whole seconds since 1970.
-/

namespace Rustd.Journal.Rotation

open List

/-- A file of the journal directory; the time is in nanoseconds. -/
structure Entry where
  name : List Char
  len : Nat
  modified : Int

/-- `mtime_secs`; a time before 1970 counts as zero. -/
def Entry.mtimeSecs (e : Entry) : Nat := (e.modified / 10 ^ 9).toNat

/-- `collect_archives` of `src/journal/rotation.rs:107`. -/
def collectArchives (dir : List Entry) : List Entry :=
  dir.filter fun e => "archive-".toList <+: e.name ∧ ".journal".toList <:+ e.name

/-- `total_size` of `src/journal/rotation.rs:122`. -/
def totalSize (archives : List Entry) : Nat := (archives.map (·.len)).sum % 2 ^ 64

/-- The archives in the order of the loop. -/
def sorted (dir : List Entry) : List Entry :=
  (collectArchives dir).mergeSort fun a b => a.mtimeSecs ≤ b.mtimeSecs

variable (maxUse maxRetentionSecs nowSecs : Nat)

/-- Part of `vacuum`, `src/journal/rotation.rs:78`. -/
def tooOld (e : Entry) : Prop := 0 < maxRetentionSecs ∧ maxRetentionSecs < nowSecs - e.mtimeSecs

instance (e : Entry) : Decidable (tooOld maxRetentionSecs nowSecs e) :=
  inferInstanceAs (Decidable (_ ∧ _))

/-- What the loop removes and what it leaves, when it can remove files; `total` is what it still
counts. -/
def removeFrom (total : Nat) : List Entry → List Entry × List Entry
  | [] => ([], [])
  | e :: rest =>
    if maxUse < total ∨ tooOld maxRetentionSecs nowSecs e then
      let (removed, kept) := removeFrom (total - e.len) rest
      (e :: removed, kept)
    else ([], e :: rest)

/-- `vacuum` of `src/journal/rotation.rs:78`. -/
def vacuum (dir : List Entry) : List Entry × List Entry :=
  removeFrom maxUse maxRetentionSecs nowSecs (totalSize (collectArchives dir)) (sorted dir)

variable {maxUse maxRetentionSecs nowSecs}

private theorem pairwise_sorted (dir : List Entry) :
    (sorted dir).Pairwise (·.mtimeSecs ≤ ·.mtimeSecs) := by
  have hs : (sorted dir).Pairwise fun a b => decide (a.mtimeSecs ≤ b.mtimeSecs) = true :=
    pairwise_mergeSort (by simpa using fun _ _ _ => Nat.le_trans)
      (by simpa using fun _ _ => Nat.le_total _ _) _
  exact hs.imp of_decide_eq_true

/-- The limits that hold of what is left, and that every file was removed for one of them. -/
structure Vacuumed (maxUse maxRetentionSecs nowSecs : Nat) (files removed kept : List Entry) :
    Prop where
  split : files = removed ++ kept
  use : (kept.map (·.len)).sum ≤ maxUse
  young : ∀ e ∈ kept, ¬tooOld maxRetentionSecs nowSecs e
  needed : ∀ u e v, removed = u ++ e :: v →
    tooOld maxRetentionSecs nowSecs e ∨ maxUse < ((e :: v ++ kept).map (·.len)).sum

private theorem vacuumed_removeFrom {files : List Entry}
    (hs : files.Pairwise (·.mtimeSecs ≤ ·.mtimeSecs)) :
    Vacuumed maxUse maxRetentionSecs nowSecs files
      (removeFrom maxUse maxRetentionSecs nowSecs (files.map (·.len)).sum files).1
      (removeFrom maxUse maxRetentionSecs nowSecs (files.map (·.len)).sum files).2 := by
  induction files with
  | nil => exact ⟨rfl, Nat.zero_le _, nofun, by simp [removeFrom]⟩
  | cons e files ih =>
    obtain ⟨he, hs⟩ := pairwise_cons.mp hs
    rw [removeFrom]
    split
    · next hor =>
      rw [map_cons, sum_cons, Nat.add_sub_cancel_left]
      obtain ⟨hsp, hu, hy, hn⟩ := ih hs
      refine ⟨congrArg (e :: ·) hsp, hu, hy, ?_⟩
      rintro (- | ⟨x, u⟩) e' v h
      · obtain ⟨rfl, rfl⟩ := cons.inj h
        rw [cons_append, ← hsp]
        exact hor.symm
      · exact hn u e' v (cons.inj h).2
    · next hor =>
      obtain ⟨hu, hy⟩ := not_or.mp hor
      refine ⟨rfl, Nat.le_of_not_lt hu, forall_mem_cons.mpr ⟨hy, ?_⟩, by simp⟩
      -- the files after the first one that stays are not older
      exact fun f hf hold => hy ⟨hold.1, hold.2.trans_le (Nat.sub_le_sub_left (he f hf) _)⟩

/-- The removal takes the archives from the oldest on, leaves what meets both limits, and removes no
file while what is left meets them. -/
theorem vacuum_meets_limits (maxUse maxRetentionSecs nowSecs : Nat) (dir : List Entry)
    (h : ((collectArchives dir).map (·.len)).sum < 2 ^ 64) :
    (sorted dir).Perm (collectArchives dir) ∧
      (sorted dir).Pairwise (·.mtimeSecs ≤ ·.mtimeSecs) ∧
      Vacuumed maxUse maxRetentionSecs nowSecs (sorted dir)
        (vacuum maxUse maxRetentionSecs nowSecs dir).1
        (vacuum maxUse maxRetentionSecs nowSecs dir).2 := by
  have hp : (sorted dir).Perm (collectArchives dir) := mergeSort_perm _ _
  have hv : Vacuumed maxUse maxRetentionSecs nowSecs (sorted dir) _ _ :=
    vacuumed_removeFrom (pairwise_sorted dir)
  rw [(hp.map (·.len)).sum_nat, ← Nat.mod_eq_of_lt h] at hv
  exact ⟨hp, pairwise_sorted dir, hv⟩

theorem vacuum_meets_limits_two :
    let dir : List Entry := [⟨"archive-3.journal".toList, 9, 45 * 10 ^ 9⟩,
      ⟨"archive-2.journal".toList, 9, 40 * 10 ^ 9⟩, ⟨"archive-1.journal".toList, 4, 10 ^ 10⟩,
      ⟨"system.journal".toList, 9, 0⟩]
    ((vacuum 9 20 50 dir).2.map (·.len)).sum ≤ 9 ∧ ∀ e ∈ (vacuum 9 20 50 dir).2, ¬tooOld 20 50 e :=
  have h := (vacuum_meets_limits 9 20 50 _ (by decide)).2.2
  ⟨h.use, h.young⟩

end Rustd.Journal.Rotation
