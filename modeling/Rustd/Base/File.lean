import Mathlib

/-!
# Files as byte stores

A file has a size and a byte at every offset; the bytes past its end are zero, so that growing it
fills with zeros. `Holds` says that given bytes stand at an offset: it is the observation every
law is stated on, kept by what happens elsewhere in the file.
-/

namespace Rustd.Base

open List Option

structure File where
  size : Nat
  byte : Nat → UInt8
  blank : ∀ i, size ≤ i → byte i = 0

namespace File

def empty : File := ⟨0, fun _ => 0, fun _ _ => rfl⟩

variable (f : File) (offset off size length : Nat) (bytes : List UInt8)

def slice : List UInt8 :=
  (List.range length).map (fun i => f.byte (offset + i))

def read? : Option (List UInt8) :=
  if length = 0 ∨ offset + length ≤ f.size then some (f.slice offset length) else none

/-- Write bytes at an offset; the file grows if they end after its end. -/
def write : File where
  size := if bytes = [] then f.size else max f.size (offset + bytes.length)
  byte i := if offset ≤ i then bytes[i - offset]?.getD (f.byte i) else f.byte i
  blank := by
    intro i hi
    have hsize : f.size ≤ i ∧ (offset ≤ i → bytes.length ≤ i - offset) := by
      split at hi
      · next hnil => exact ⟨hi, fun _ => by simp [hnil]⟩
      · omega
    split
    · next hle => rw [getElem?_eq_none (hsize.2 hle), getD_none, f.blank i hsize.1]
    · exact f.blank i hsize.1

def truncate : File where
  size := size
  byte i := if i < size then f.byte i else 0
  blank := fun _ hi => if_neg (Nat.not_lt.mpr hi)

def reserve : File where
  size := max f.size size
  byte := f.byte
  blank := fun i hi => f.blank i (by omega)

def Holds : Prop :=
  offset + bytes.length ≤ f.size ∧
    ∀ i, i < bytes.length → bytes[i]? = some (f.byte (offset + i))

section

variable {f g : File} {offset off : Nat} {bytes xs ys zs : List UInt8}

@[simp] theorem length_slice (f : File) (off length : Nat) :
    (f.slice off length).length = length := by
  simp [slice]

variable {n i length size at' : Nat}

private theorem getElem?_slice (f : File) (off : Nat) (hi : i < length) :
    (f.slice off length)[i]? = some (f.byte (off + i)) := by
  simp [slice, hi]

private theorem Holds.slice_eq (h : f.Holds off bytes) : f.slice off bytes.length = bytes := by
  apply ext_getElem?
  intro i
  by_cases hi : i < bytes.length
  · rw [getElem?_slice f off hi, h.2 i hi]
  · rw [getElem?_eq_none (by rw [length_slice]; omega), getElem?_eq_none (by omega)]

private theorem Holds.read?_eq (h : f.Holds off bytes) : f.read? off bytes.length = some bytes := by
  rw [read?, if_pos (.inr h.1), h.slice_eq]

theorem Holds.read?_of_length (h : f.Holds off bytes) (hln : bytes.length = length) :
    f.read? off length = some bytes := by
  rw [← hln, h.read?_eq]

theorem holds_append : f.Holds off (xs ++ ys) ↔ f.Holds off xs ∧ f.Holds (off + xs.length) ys := by
  constructor
  · rintro ⟨hsz, hbt⟩
    rw [length_append] at hsz hbt
    refine ⟨⟨by omega, ?_⟩, ⟨by omega, ?_⟩⟩
    · intro i hi
      rw [← hbt i (by omega), getElem?_append_left hi]
    intro i hi
    have hat := hbt (xs.length + i) (by omega)
    rw [getElem?_append_right (by omega), Nat.add_sub_cancel_left] at hat
    rw [hat, Nat.add_assoc]
  · rintro ⟨⟨hsz, hxs⟩, ⟨hsz', hys⟩⟩
    refine ⟨by rw [length_append]; omega, ?_⟩
    intro i hi
    rw [length_append] at hi
    by_cases hlt : i < xs.length
    · rw [getElem?_append_left hlt, hxs i hlt]
    rw [getElem?_append_right (by omega), hys (i - xs.length) (by omega)]
    congr 2
    omega

theorem Holds.left (h : f.Holds off (xs ++ ys)) : f.Holds off xs := (holds_append.mp h).1

theorem Holds.right (h : f.Holds off (xs ++ ys)) : f.Holds (off + xs.length) ys :=
  (holds_append.mp h).2

theorem Holds.congr (h : f.Holds off bytes) (hsz : off + bytes.length ≤ g.size)
    (hbt : ∀ i, off ≤ i → i < off + bytes.length → g.byte i = f.byte i) : g.Holds off bytes := by
  refine ⟨hsz, ?_⟩
  intro i hi
  rw [h.2 i hi, hbt (off + i) (by omega) (by omega)]

theorem le_size_write (f : File) (off : Nat) (bytes : List UInt8) :
    f.size ≤ (f.write off bytes).size := by
  show f.size ≤ if bytes = [] then f.size else max f.size (off + bytes.length)
  split <;> omega

theorem size_write_of_le (h : off + bytes.length ≤ f.size) : (f.write off bytes).size = f.size := by
  show (if bytes = [] then f.size else max f.size (off + bytes.length)) = f.size
  split <;> omega

theorem byte_write_zero (h : ∀ i, n ≤ i → f.byte i = 0) (i : Nat) (hi : n ≤ i) :
    (f.write at' [0]).byte i = 0 := by
  show (if at' ≤ i then ([0] : List UInt8)[i - at']?.getD (f.byte i) else f.byte i) = 0
  rw [h i hi]
  split
  · cases i - at' <;> rfl
  · rfl

theorem byte_write_of_lt (h : i < off) : (f.write off bytes).byte i = f.byte i :=
  if_neg (Nat.not_le.mpr h)

theorem byte_write_of_ge (h : off + bytes.length ≤ i) : (f.write off bytes).byte i = f.byte i := by
  show (if off ≤ i then bytes[i - off]?.getD (f.byte i) else f.byte i) = f.byte i
  rw [getElem?_eq_none (by omega), getD_none, ite_self]

theorem holds_write (f : File) (off : Nat) (h : bytes ≠ []) :
    (f.write off bytes).Holds off bytes := by
  constructor
  · show off + bytes.length ≤ if bytes = [] then f.size else max f.size (off + bytes.length)
    rw [if_neg h]
    omega
  intro i hi
  show bytes[i]? = some (if off ≤ off + i
    then bytes[off + i - off]?.getD (f.byte (off + i)) else f.byte (off + i))
  rw [if_pos (Nat.le_add_right _ _), Nat.add_sub_cancel_left, getElem?_eq_getElem hi, getD_some]

theorem Holds.write_apart (h : f.Holds off bytes)
    (hap : at' + xs.length ≤ off ∨ off + bytes.length ≤ at') :
    (f.write at' xs).Holds off bytes := by
  apply h.congr (Nat.le_trans h.1 (le_size_write f at' xs))
  intro i hle hlt
  rcases hap with hbf | haf
  · exact byte_write_of_ge (by omega)
  · exact byte_write_of_lt (by omega)

theorem Holds.write_middle (h : f.Holds off (xs ++ (ys ++ zs)))
    (hln : ys'.length = ys.length) :
    (f.write (off + xs.length) ys').Holds off (xs ++ (ys' ++ zs)) := by
  by_cases hnil : ys' = []
  · subst hnil
    have hys : ys = [] := eq_nil_of_length_eq_zero hln.symm
    subst hys
    apply h.congr
    · exact Nat.le_trans h.1 (le_size_write f _ _)
    intro i _ _
    by_cases hi : i < off + xs.length
    · exact byte_write_of_lt hi
    · exact byte_write_of_ge (by simpa using hi)
  · rw [holds_append, holds_append] at h ⊢
    obtain ⟨hxs, -, hzs⟩ := h
    refine ⟨hxs.write_apart (.inr (Nat.le_refl _)), holds_write f _ hnil, ?_⟩
    rw [hln]
    exact hzs.write_apart (.inl (by omega))

theorem Holds.truncate (h : f.Holds off bytes) (hsz : off + bytes.length ≤ size) :
    (f.truncate size).Holds off bytes := by
  apply h.congr hsz
  intro i _ hi
  exact if_pos (by omega)

structure AgreeBelow (n : Nat) (f g : File) : Prop where
  size : n ≤ f.size → n ≤ g.size
  byte : ∀ i, i < n → g.byte i = f.byte i

theorem AgreeBelow.refl (n : Nat) (f : File) : AgreeBelow n f f := ⟨id, fun _ _ => rfl⟩

theorem AgreeBelow.trans {f g k : File} (h : AgreeBelow n f g) (h' : AgreeBelow n g k) :
    AgreeBelow n f k :=
  ⟨fun hsz => h'.size (h.size hsz), fun i hi => (h'.byte i hi).trans (h.byte i hi)⟩

theorem AgreeBelow.mono (h : AgreeBelow n f g) (hmn : m ≤ n) (hsz : n ≤ f.size) :
    AgreeBelow m f g :=
  ⟨fun _ => Nat.le_trans hmn (h.size hsz), fun i hi => h.byte i (Nat.lt_of_lt_of_le hi hmn)⟩

theorem agreeBelow_write (f : File) (bytes : List UInt8) (h : n ≤ off) :
    AgreeBelow n f (f.write off bytes) :=
  ⟨fun hsz => Nat.le_trans hsz (le_size_write f off bytes),
    fun _ hi => byte_write_of_lt (Nat.lt_of_lt_of_le hi h)⟩

theorem agreeBelow_truncate (f : File) (h : n ≤ size) : AgreeBelow n f (f.truncate size) :=
  ⟨fun _ => h, fun _ hi => if_pos (Nat.lt_of_lt_of_le hi h)⟩

theorem agreeBelow_reserve (n : Nat) (f : File) (size : Nat) : AgreeBelow n f (f.reserve size) :=
  ⟨fun hsz => Nat.le_trans hsz (Nat.le_max_left _ _), fun _ _ => rfl⟩

theorem Holds.of_agreeBelow (h : f.Holds off bytes) (hagr : AgreeBelow n f g)
    (hend : off + bytes.length ≤ n) (hsz : n ≤ f.size) : g.Holds off bytes :=
  h.congr (Nat.le_trans hend (hagr.size hsz))
    (fun i _ hi => hagr.byte i (Nat.lt_of_lt_of_le hi hend))

end

end File

end Rustd.Base
