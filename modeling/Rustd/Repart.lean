import Mathlib

/-!
# Partition layouts

`src/bin/rustd-repart.rs`: `plan_partitions` gives each definition a share of the disk and `main`
writes the layout as a partition table. Nothing compares the layout with the disk.
-/

namespace Rustd.Repart

open List

/-- What the layout reads of a definition. -/
structure PartitionDef where
  sizeMinBytes : Nat
  sizeMaxBytes : Nat
  weight : Nat
  paddingMinBytes : Nat

/-- `PlannedPartition` of `src/bin/rustd-repart.rs:101`. -/
structure PlannedPartition where
  startLba : Nat
  endLba : Nat
  sizeBytes : Nat

def sectorSize : Nat := 512

/-- One MiB: the offset of the first partition, what is kept free at the end, and the alignment. -/
def mib : Nat := 2048 * sectorSize

def usableSize (totalSize : Nat) : Nat := totalSize - (mib + mib)

variable (pool totalWeight : Nat)

/-- The size in one turn of the loop; sums and casts are those of a `u64`. -/
def finalSize (d : PartitionDef) : Nat :=
  let extra := if 0 < totalWeight then pool * d.weight / totalWeight % 2 ^ 64 else 0
  let calculatedSize := min ((d.sizeMinBytes + extra) % 2 ^ 64) d.sizeMaxBytes
  max (calculatedSize / mib * mib) d.sizeMinBytes

/-- Part of `plan_partitions`, `src/bin/rustd-repart.rs:438`. -/
def planFrom (offset : Nat) : List PartitionDef → List PlannedPartition
  | [] => []
  | d :: defs =>
    let size := finalSize pool totalWeight d
    let startLba := offset / sectorSize
    ⟨startLba, (startLba + (size / sectorSize - 1)) % 2 ^ 64, size⟩ ::
      planFrom ((offset + size + d.paddingMinBytes) % 2 ^ 64) defs

variable (defs : List PartitionDef) (totalSize : Nat)

def totalMinSize : Nat := (defs.map (·.sizeMinBytes)).sum % 2 ^ 64

def weights : Nat := (defs.map (·.weight)).sum

/-- Part of `plan_partitions`, `src/bin/rustd-repart.rs:438`. -/
def extraPool : Nat := usableSize totalSize - totalMinSize defs

/-- `plan_partitions` of `src/bin/rustd-repart.rs:438`. -/
def planPartitions : List PlannedPartition :=
  planFrom (extraPool defs totalSize) (weights defs % 2 ^ 32) mib defs

/-- The size of a definition in the layout of all of them. -/
def sizeIn (d : PartitionDef) : Nat :=
  finalSize (extraPool defs totalSize) (weights defs % 2 ^ 32) d

/-- The offset after the last partition, when no sum wraps. -/
def endOffset : Nat :=
  mib + (defs.map fun d => sizeIn defs totalSize d + d.paddingMinBytes).sum

/-- No sum overflows its type. -/
structure NoOverflow : Prop where
  disk : totalSize < 2 ^ 64
  sizes : (defs.map (·.sizeMinBytes)).sum < 2 ^ 64
  weights : weights defs < 2 ^ 32
  offset : endOffset defs totalSize < 2 ^ 64

/-- The last usable sector in the header, and the entries. -/
structure Table where
  lastUsableLba : Nat
  entries : List PlannedPartition

/-- `apply_partitions_to_image` of `src/bin/rustd-repart.rs:530`. -/
def applyPartitionsToImage (planned : List PlannedPartition) (totalSize : Nat) : Table :=
  ⟨totalSize / sectorSize - 1 - 34, planned⟩

/-- The table that `main` writes to the image, if it does. -/
def writtenTable (dryRun image : String) : Option Table :=
  if dryRun ∈ ["yes", "true", "1"] ∨ image = "/dev/null" then none
  else some (applyPartitionsToImage (planPartitions defs totalSize) totalSize)

/-! ### Sizes -/

variable {pool totalWeight defs totalSize} {d : PartitionDef} {offset : Nat}

private theorem le_finalSize (d : PartitionDef) : d.sizeMinBytes ≤ finalSize pool totalWeight d :=
  Nat.le_max_right _ _

private theorem finalSize_le (h : d.sizeMinBytes ≤ d.sizeMaxBytes) :
    finalSize pool totalWeight d ≤ d.sizeMaxBytes :=
  Nat.max_le.mpr ⟨(Nat.div_mul_le_self _ _).trans (Nat.min_le_right _ _), h⟩

private theorem finalSize_le_share (d : PartitionDef) :
    finalSize pool totalWeight d ≤ d.sizeMinBytes + pool * d.weight / totalWeight := by
  refine Nat.max_le.mpr ⟨(Nat.div_mul_le_self _ _).trans ?_, Nat.le_add_right _ _⟩
  apply (Nat.min_le_left _ _).trans
  apply (Nat.mod_le _ _).trans
  split
  · exact Nat.add_le_add_left (Nat.mod_le _ _) _
  · exact Nat.add_le_add_left (Nat.zero_le _) _

/-- The shares of the pool, rounded down, are no more than the pool. -/
theorem sum_finalSize_le (defs : List PartitionDef) : (defs.map (finalSize pool totalWeight)).sum ≤
      (defs.map (·.sizeMinBytes)).sum + pool * weights defs / totalWeight := by
  induction defs with
  | nil => exact Nat.zero_le _
  | cons d defs ih =>
    have hd : finalSize pool totalWeight d ≤ _ := finalSize_le_share d
    have hsh : pool * d.weight / totalWeight + pool * weights defs / totalWeight ≤
        pool * weights (d :: defs) / totalWeight := by
      rw [weights, weights, map_cons, sum_cons, Nat.mul_add]
      exact Nat.div_add_div_le_add_div
    simp only [map_cons, sum_cons]
    omega

private theorem map_sizeBytes_planFrom (offset : Nat) (defs : List PartitionDef) :
    (planFrom pool totalWeight offset defs).map (·.sizeBytes) =
      defs.map (finalSize pool totalWeight) := by
  induction defs generalizing offset with
  | nil => rfl
  | cons d defs ih => exact congrArg _ (ih _)

private theorem sum_sizes_le (h : NoOverflow defs totalSize) :
    (defs.map (sizeIn defs totalSize)).sum ≤
      max (usableSize totalSize) (defs.map (·.sizeMinBytes)).sum := by
  have hmin : totalMinSize defs = (defs.map (·.sizeMinBytes)).sum := Nat.mod_eq_of_lt h.sizes
  have hsum : (defs.map (sizeIn defs totalSize)).sum ≤ _ := sum_finalSize_le defs
  have hpl : extraPool defs totalSize * weights defs / (weights defs % 2 ^ 32) ≤
      extraPool defs totalSize := by
    rw [Nat.mod_eq_of_lt h.weights]
    exact Nat.div_le_of_le_mul (Nat.mul_comm _ _).le
  have hpool : extraPool defs totalSize = usableSize totalSize - totalMinSize defs := rfl
  omega

/-! ### Layouts -/

/-- Partitions lie between the offset where the layout begins and the one where it ends. -/
theorem planFrom_within (hmin : ∀ d ∈ defs, 512 ≤ d.sizeMinBytes) {last : Nat}
    (hlast : offset + (defs.map fun d => finalSize pool totalWeight d + d.paddingMinBytes).sum =
      last) (hov : last < 2 ^ 64) :
    (∀ p ∈ planFrom pool totalWeight offset defs,
      offset / 512 ≤ p.startLba ∧ p.startLba ≤ p.endLba ∧ p.endLba < last / 512) ∧
    (planFrom pool totalWeight offset defs).Pairwise (·.endLba < ·.startLba) := by
  induction defs generalizing offset with
  | nil => exact ⟨by simp [planFrom], .nil⟩
  | cons d defs ih =>
    obtain ⟨hd, hmin⟩ := forall_mem_cons.mp hmin
    have hle : 512 ≤ finalSize pool totalWeight d := hd.trans (le_finalSize d)
    rw [map_cons, sum_cons] at hlast
    have hoff : (offset + finalSize pool totalWeight d + d.paddingMinBytes) % 2 ^ 64 =
        offset + finalSize pool totalWeight d + d.paddingMinBytes := Nat.mod_eq_of_lt (by omega)
    obtain ⟨hin, hpw⟩ := @ih (offset + finalSize pool totalWeight d + d.paddingMinBytes) hmin
      (by omega)
    simp only [planFrom, hoff, sectorSize]
    refine ⟨forall_mem_cons.mpr ⟨by dsimp only; omega, fun p hp => ?_⟩, .cons (fun p hp => ?_) hpw⟩
    · have := hin p hp
      omega
    · have := hin p hp
      dsimp only
      omega

/-- The partitions of a layout without overflow follow one another, from one MiB on, with sizes
between their bounds, and take no more than the usable size or the sum of the minimum sizes. -/
theorem planned_partitions_disjoint
    (hsz : ∀ d ∈ defs, 512 ≤ d.sizeMinBytes ∧ d.sizeMinBytes ≤ d.sizeMaxBytes)
    (hov : NoOverflow defs totalSize) :
    (∀ p ∈ planPartitions defs totalSize, 2048 ≤ p.startLba ∧ p.startLba ≤ p.endLba) ∧
    (planPartitions defs totalSize).Pairwise (·.endLba < ·.startLba) ∧
    Forall₂ (fun d p => d.sizeMinBytes ≤ p.sizeBytes ∧ p.sizeBytes ≤ d.sizeMaxBytes) defs
      (planPartitions defs totalSize) ∧
    ((planPartitions defs totalSize).map (·.sizeBytes)).sum ≤
      max (usableSize totalSize) (defs.map (·.sizeMinBytes)).sum := by
  obtain ⟨hin, hpw⟩ := planFrom_within (fun d hd => (hsz d hd).1) rfl hov.offset
  have hmap : (planPartitions defs totalSize).map (·.sizeBytes) =
      defs.map (sizeIn defs totalSize) := map_sizeBytes_planFrom _ _
  refine ⟨fun p hp => ⟨(hin p hp).1, (hin p hp).2.1⟩, hpw, ?_, hmap ▸ sum_sizes_le hov⟩
  have hall : Forall₂ (fun d n => d.sizeMinBytes ≤ n ∧ n ≤ d.sizeMaxBytes) defs
      ((planPartitions defs totalSize).map (·.sizeBytes)) := by
    rw [hmap, forall₂_map_right_iff, forall₂_same]
    exact fun d hd => ⟨le_finalSize d, finalSize_le (hsz d hd).2⟩
  exact forall₂_map_right_iff.mp hall

theorem planned_partitions_disjoint_two :
    (planPartitions [⟨mib, 3 * mib, 1, 0⟩, ⟨700, mib, 1, 5⟩] (9 * mib)).Pairwise
      (·.endLba < ·.startLba) :=
  (planned_partitions_disjoint (by decide) ⟨by decide, by decide, by decide, by decide⟩).2.1

/-- The offset behind some definitions of the layout, each with its padding, as a `u64`. -/
def offsetBehind (defs : List PartitionDef) (totalSize : Nat) (before : List PartitionDef) : Nat :=
  (mib + (before.map fun d => sizeIn defs totalSize d + d.paddingMinBytes).sum) % 2 ^ 64

/-- The last sector of a partition of some size at an offset. -/
def lastSector (offset size : Nat) : Nat :=
  (offset / sectorSize + (size / sectorSize - 1)) % 2 ^ 64

/-- There is room for the definitions: the entries are no more than the table has, and every
partition, behind one MiB and the ones before it with their paddings, ends 34 sectors before the
backup of the header or earlier. -/
def HasRoom (defs : List PartitionDef) (totalSize : Nat) : Prop :=
  defs.length ≤ 128 ∧ ∀ i < defs.length, ∀ d ∈ defs[i]?,
    lastSector (offsetBehind defs totalSize (defs.take i)) (sizeIn defs totalSize d) ≤
      totalSize / sectorSize - 1 - 34

instance : Decidable (HasRoom defs totalSize) := inferInstanceAs (Decidable (_ ∧ _))

private theorem forall_planFrom {last : Nat} (hoffset : offset < 2 ^ 64) :
    (∀ p ∈ planFrom pool totalWeight offset defs, p.endLba ≤ last) ↔
      ∀ i < defs.length, ∀ d ∈ defs[i]?,
        lastSector ((offset + ((defs.take i).map fun d =>
          finalSize pool totalWeight d + d.paddingMinBytes).sum) % 2 ^ 64)
            (finalSize pool totalWeight d) ≤ last := by
  induction defs generalizing offset with
  | nil => simp [planFrom]
  | cons d defs ih =>
    rw [planFrom, forall_mem_cons, ih (Nat.mod_lt _ (by decide))]
    -- the first definition, and the others behind it
    rw [length_cons, Nat.forall_lt_succ_left]
    have hmod : offset % 18446744073709551616 = offset := Nat.mod_eq_of_lt hoffset
    simp [lastSector, hmod, Nat.add_assoc]

end Rustd.Repart
