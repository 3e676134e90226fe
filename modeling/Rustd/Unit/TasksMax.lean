import Rustd.Unit.Sizes

/-!
# Task limits

`src/limits.rs`: `TasksMax=` is a number of tasks or a share of what the system can have.
-/

namespace Rustd.Unit

open Base List Option

/-- The signs of a share, each with `multiplier` and `precision`. -/
def shareSigns : List (Char × Nat × Nat) := [('‱', 1, 0), ('‰', 10, 1), ('%', 100, 2)]

/-- The product has at most two digits. -/
def scaleFraction (precision : Nat) (fraction : List Char) : Option Nat :=
  if fraction = [] then some 0
  else (parseUnsigned (2 ^ 64) fraction).map (· * 10 ^ (precision - fraction.length))

def permyriadOf (multiplier precision : Nat) (whole fraction : List Char) : Option Nat := do
  let whole ← parseUnsigned (2 ^ 64) whole
  let fraction ← scaleFraction precision fraction
  let result ← checkedAdd (2 ^ 64) (← checkedMul (2 ^ 64) whole multiplier) fraction
  if result ≤ 10000 then some result else none

/-- Only a fraction of digits passes both of the last checks, so its length in letters
stands for the one in bytes. -/
def parsePermyriad (value : List Char) : Option Nat := do
  let (multiplier, precision) ← shareSigns.lookup (← value.getLast?)
  let number := value.dropLast
  let (whole, fraction) := (splitOnce '.' number).getD (number, [])
  if whole = [] ∨ ¬whole.all Char.isDigit ∨ ('.' ∈ number ∧ fraction = []) ∨
    precision < fraction.length ∨ ¬fraction.all Char.isDigit then none
  else permyriadOf multiplier precision whole fraction

/-- `TasksMaxSpec` of `src/limits.rs:298`. -/
structure TasksMaxSpec where
  value : Nat
  scale : Nat
deriving DecidableEq

/-- `TasksMaxSpec::unlimited` of `src/limits.rs:317`. -/
def TasksMaxSpec.unlimited : TasksMaxSpec := ⟨2 ^ 64 - 1, 0⟩

/-- `TasksMaxSpec::parse` of `src/limits.rs:326`. -/
def TasksMaxSpec.parse (value : List Char) : Option TasksMaxSpec :=
  let value := trim value
  if value = [] ∨ value = "infinity".toList then some .unlimited
  else match parsePermyriad value with
    | some numerator => some ⟨numerator, 10000⟩
    | none => do
      let absolute ← parseUnsigned (2 ^ 64) value
      if 0 < absolute ∧ absolute < 2 ^ 64 - 1 then some ⟨absolute, 0⟩ else none

/-- `capacity` is what `system_tasks_max` finds. -/
def TasksMaxSpec.resolve (spec : TasksMaxSpec) (capacity : Nat) : Nat :=
  if spec.scale = 0 then spec.value
  else min (min (capacity * spec.value) (2 ^ 128 - 1) / spec.scale) (2 ^ 64 - 1)

def numberText (whole fraction : List Char) : List Char :=
  whole ++ if fraction = [] then [] else '.' :: fraction

/-- A share of `n` ten-thousandths, written with at most `p` digits after the dot. -/
def IsShare (whole fraction : List Char) (p n : Nat) : Prop :=
  whole ≠ [] ∧ whole.all Char.isDigit ∧ fraction.all Char.isDigit ∧ fraction.length ≤ p ∧
    (n : ℚ) = decimalValue whole fraction * 10 ^ p ∧ n ≤ 10000

variable {whole fraction number : List Char} {n p : Nat}

private theorem parseUnsigned_digits {digits : List Char} (hne : digits ≠ [])
    (hdi : digits.all Char.isDigit = true) (limit : Nat) : parseUnsigned limit digits =
      if digitsValue digits < limit then some (digitsValue digits) else none := by
  unfold parseUnsigned
  split
  · next rest => exact absurd (all_eq_true.mp hdi '+' mem_cons_self) (by decide)
  · simp only [hdi, isEmpty_eq_false_iff.mpr hne, Bool.not_true, Bool.or_self, Bool.false_eq_true,
      if_false]
    rfl

/-- The parts of a number that passes the checks are those it is written with. -/
theorem parts_iff (hdi : whole.all Char.isDigit = true) :
    (splitOnce '.' number).getD (number, []) = (whole, fraction) ∧
      ¬('.' ∈ number ∧ fraction = []) ↔ number = numberText whole fraction := by
  have hdot : '.' ∉ whole := fun hmem => absurd (all_eq_true.mp hdi '.' hmem) (by decide)
  rw [numberText]
  constructor
  · rintro ⟨hpa, hnd⟩
    cases hsp : splitOnce '.' number with
    | none =>
      rw [hsp] at hpa
      cases hpa
      simp
    | some parts =>
      obtain ⟨-, hnu⟩ := splitOnce_eq_some.mp hsp
      rw [hsp] at hpa
      cases hpa
      rw [if_neg fun hnil => hnd ⟨by simp [hnu], hnil⟩, hnu]
  · rintro rfl
    split
    · next hnil => simp [splitOnce_eq_none.mpr, hdot, hnil]
    · next hne => simp [splitOnce_eq_some.mpr ⟨hdot, rfl⟩, hne]

private theorem decimalValue_mul (hle : fraction.length ≤ p) :
    decimalValue whole fraction * 10 ^ p =
    (digitsValue whole * 10 ^ p + digitsValue fraction * 10 ^ (p - fraction.length) : ℕ) := by
  have hp : (10 : ℚ) ^ p = 10 ^ (p - fraction.length) * 10 ^ fraction.length := by
    rw [← pow_add, Nat.sub_add_cancel hle]
  rw [decimalValue, add_mul, div_mul_eq_mul_div, mul_div_assoc, hp]
  push_cast
  rw [hp]
  field_simp

private theorem scaleFraction_eq (hfr : fraction.all Char.isDigit = true) :
    scaleFraction p fraction = if digitsValue fraction < 2 ^ 64 then
      some (digitsValue fraction * 10 ^ (p - fraction.length)) else none := by
  rw [scaleFraction]
  split
  · next hnil => simp [hnil, digitsValue]
  · next hcons =>
    rw [parseUnsigned_digits hcons hfr]
    split <;> rfl

private theorem permyriadOf_eq_some (hne : whole ≠ []) (hwh : whole.all Char.isDigit = true)
    (hfr : fraction.all Char.isDigit = true) (hle : fraction.length ≤ p) :
    permyriadOf (10 ^ p) p whole fraction = some n ↔
      (n : ℚ) = decimalValue whole fraction * 10 ^ p ∧ n ≤ 10000 := by
  have hpos : ∀ k, 0 < 10 ^ k := fun k => Nat.pow_pos (by decide)
  have hwm := Nat.le_mul_of_pos_right (digitsValue whole) (hpos p)
  have hfm := Nat.le_mul_of_pos_right (digitsValue fraction) (hpos (p - fraction.length))
  rw [decimalValue_mul hle, Nat.cast_inj]
  simp only [permyriadOf, scaleFraction_eq hfr, parseUnsigned_digits hne hwh, checkedMul,
    checkedAdd, bind_eq_bind, bind_eq_some_iff, ite_none_right_eq_some, some.injEq]
  constructor
  · rintro ⟨_, ⟨-, rfl⟩, _, ⟨-, rfl⟩, _, ⟨-, rfl⟩, _, ⟨-, rfl⟩, hle, rfl⟩
    exact ⟨rfl, hle⟩
  · rintro ⟨rfl, hle⟩
    exact ⟨_, ⟨by omega, rfl⟩, _, ⟨by omega, rfl⟩, _, ⟨by omega, rfl⟩, _, ⟨by omega, rfl⟩, hle, rfl⟩

private theorem parsePermyriad_concat (hlk : shareSigns.lookup c = some (10 ^ p, p)) :
    parsePermyriad (number ++ [c]) = some n ↔
      ∃ whole fraction, number = numberText whole fraction ∧ IsShare whole fraction p n := by
  simp only [parsePermyriad, getLast?_concat, dropLast_concat, hlk, bind_eq_bind, bind_some]
  rcases hpa : (splitOnce '.' number).getD (number, []) with ⟨w, f⟩
  constructor
  · intro h
    simp only [ite_none_left_eq_some, not_or, not_not, not_lt] at h
    obtain ⟨⟨hne, hwh, hdot, hle, hfr⟩, h⟩ := h
    exact ⟨w, f, (parts_iff hwh).mp ⟨hpa, hdot⟩, hne, hwh, hfr, hle,
      (permyriadOf_eq_some hne hwh hfr hle).mp h⟩
  · rintro ⟨whole, fraction, hnu, hne, hwh, hfr, hle, hn⟩
    obtain ⟨heq, hdot⟩ := (parts_iff hwh).mpr hnu
    cases hpa.symm.trans heq
    rw [if_neg, (permyriadOf_eq_some hne hwh hfr hle).mpr hn]
    simp only [hne, hwh, hfr, hdot, not_lt.mpr hle, not_true, false_or, not_false_eq_true]

private theorem resolve_eq_floor {value scale capacity : Nat} (hsc : scale ≠ 0)
    (hle : value ≤ scale)
    (hva : value < 2 ^ 64) (hca : capacity < 2 ^ 64) :
    TasksMaxSpec.resolve ⟨value, scale⟩ capacity = ⌊(capacity : ℚ) * (value / scale)⌋₊ := by
  have hwide : capacity * value ≤ 2 ^ 128 - 1 := by
    have := Nat.mul_le_mul (Nat.le_sub_one_of_lt hca) (Nat.le_sub_one_of_lt hva)
    omega
  have hfit : capacity * value / scale ≤ 2 ^ 64 - 1 :=
    calc capacity * value / scale
      _ ≤ capacity * scale / scale := Nat.div_le_div_right (Nat.mul_le_mul_left _ hle)
      _ = capacity := Nat.mul_div_cancel _ (Nat.pos_of_ne_zero hsc)
      _ ≤ 2 ^ 64 - 1 := Nat.le_sub_one_of_lt hca
  rw [TasksMaxSpec.resolve, if_neg hsc, Nat.min_eq_left hwide, Nat.min_eq_left hfit,
    ← mul_div_assoc, ← Nat.cast_mul, Nat.floor_div_eq_div]

/-- `parse_permyriad` accepts the shares up to the whole, as they are written, and reads each of
them without a rounding. `resolve` rounds down once, at the end. -/
theorem permyriad_exact (text : List Char) :
    (∀ n, parsePermyriad text = some n ↔ ∃ whole fraction sign p,
      shareSigns.lookup sign = some (10 ^ p, p) ∧ text = numberText whole fraction ++ [sign] ∧
        IsShare whole fraction p n) ∧
      (∀ n, parsePermyriad (trim text) = some n → TasksMaxSpec.parse text = some ⟨n, 10000⟩) ∧
      ∀ value scale capacity, scale ≠ 0 → value ≤ scale → value < 2 ^ 64 → capacity < 2 ^ 64 →
        TasksMaxSpec.resolve ⟨value, scale⟩ capacity = ⌊(capacity : ℚ) * (value / scale)⌋₊ := by
  refine ⟨fun n => ⟨fun h => ?_, ?_⟩, fun n h => ?_, fun _ _ _ => resolve_eq_floor⟩
  · rcases eq_nil_or_concat' text with rfl | ⟨number, sign, rfl⟩
    · cases h
    cases hlk : shareSigns.lookup sign with
    | none => simp [parsePermyriad, hlk] at h
    | some scale =>
      obtain ⟨m, p⟩ := scale
      obtain ⟨_, _, heq, -⟩ := lookup_eq_some_iff.mp hlk
      obtain rfl : m = 10 ^ p := (by decide : ∀ s ∈ shareSigns, s.2.1 = 10 ^ s.2.2) (sign, m, p)
        (heq ▸ mem_append_right _ mem_cons_self)
      obtain ⟨whole, fraction, rfl, hsh⟩ := (parsePermyriad_concat hlk).mp h
      exact ⟨whole, fraction, sign, p, hlk, rfl, hsh⟩
  · rintro ⟨whole, fraction, sign, p, hlk, rfl, hsh⟩
    exact (parsePermyriad_concat hlk).mpr ⟨whole, fraction, rfl, hsh⟩
  · have hne : ¬(trim text = [] ∨ trim text = "infinity".toList) := by
      rintro (heq | heq) <;> rw [heq] at h <;> cases h
    rw [TasksMaxSpec.parse, if_neg hne, h]

end Rustd.Unit
