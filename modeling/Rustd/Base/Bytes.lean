import Mathlib

/-!
# Bytes and little-endian numbers

Byte sequences are lists of bytes. `littleEndian width n` are the bytes of a number of fixed
width, `ofLittleEndian` is the number that bytes stand for.
-/

namespace Rustd.Base

open List

def ascii (text : String) : List UInt8 := text.toList.map (·.toNat.toUInt8)

def ofLittleEndian : List UInt8 → Nat
  | [] => 0
  | b :: bytes => b.toNat + 256 * ofLittleEndian bytes

def littleEndian : Nat → Nat → List UInt8
  | 0, _ => []
  | width + 1, n => (n % 256).toUInt8 :: littleEndian width (n / 256)

@[simp] theorem length_littleEndian (width n : Nat) : (littleEndian width n).length = width := by
  induction width generalizing n with
  | zero => rfl
  | succ width ih => rw [littleEndian, length_cons, ih]

theorem ofLittleEndian_littleEndian {width n : Nat} (h : n < 256 ^ width) :
    ofLittleEndian (littleEndian width n) = n := by
  induction width generalizing n with
  | zero => rw [littleEndian, ofLittleEndian]; omega
  | succ width ih =>
    have hdiv : n / 256 < 256 ^ width := by
      rw [Nat.pow_succ] at h
      omega
    have hby : (n % 256).toUInt8.toNat = n % 256 := by
      simp [Nat.toUInt8]
    rw [littleEndian, ofLittleEndian, ih hdiv, hby]
    omega

def pieces : List Nat → List UInt8 → List (List UInt8)
  | [], _ => []
  | width :: widths, bytes => bytes.take width :: pieces widths (bytes.drop width)

theorem pieces_append {cells : List (List UInt8)}
    (h : cells.map List.length = w) (l : List UInt8) : pieces w (cells.flatten ++ l) = cells := by
  subst h
  induction cells with
  | nil => rfl
  | cons c cells ih =>
    rw [map_cons, pieces, flatten_cons, append_assoc, take_left, drop_left, ih]

theorem pieces_flatten {cells : List (List UInt8)}
    (h : cells.map List.length = w) : pieces w cells.flatten = cells := by
  rw [← append_nil cells.flatten, pieces_append h]

section

variable {α : Type} [DecidableEq α] {x : α} {before : List α}

theorem takeWhile_separator (h : x ∉ before) (r : List α) :
    (before ++ x :: r).takeWhile (· != x) = before := by
  rw [takeWhile_append_of_pos]
  · simp
  intro a ha
  simp only [bne_iff_ne]
  rintro rfl
  exact h ha

theorem dropWhile_separator (h : x ∉ before) (after : List α) :
    (before ++ x :: after).dropWhile (· != x) = x :: after := by
  rw [dropWhile_append_of_pos]
  · simp
  intro a ha
  simp only [bne_iff_ne]
  rintro rfl
  exact h ha

theorem split_cases (l : List α) : (x ∉ l ∧ l.takeWhile (· != x) = l ∧ l.dropWhile (· != x) = []) ∨
      ∃ after, x ∉ l.takeWhile (· != x) ∧ l = l.takeWhile (· != x) ++ x :: after ∧
        l.dropWhile (· != x) = x :: after := by
  induction l with
  | nil => exact .inl ⟨not_mem_nil, rfl, rfl⟩
  | cons a l ih =>
    by_cases ha : a = x
    · subst ha
      exact .inr ⟨l, by simp, by simp, by simp⟩
    have hne : (a != x) = true := by simpa using ha
    rcases ih with ⟨hnn, htak, hdr⟩ | ⟨after, hnn, hsl, hdr⟩
    · refine .inl ⟨?_, ?_, ?_⟩
      · simpa [Ne.symm ha] using hnn
      · rw [takeWhile_cons, if_pos hne, htak]
      · rw [dropWhile_cons, if_pos hne, hdr]
    refine .inr ⟨after, ?_, ?_, ?_⟩
    · rw [takeWhile_cons, if_pos hne]
      simpa [Ne.symm ha] using hnn
    · rw [takeWhile_cons, if_pos hne, cons_append, ← hsl]
    · rw [dropWhile_cons, if_pos hne, hdr]

end

end Rustd.Base
