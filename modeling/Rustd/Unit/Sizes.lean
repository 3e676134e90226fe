import Rustd.Base.Text

/-!
# Byte sizes

`src/resource_control.rs` and `src/unit/condition.rs` read sizes such as `1.5G`, each with its own
checked arithmetic. `sizeValue` is the rational number that a text stands for. Whatever one of them
accepts it reads as the floor of that number, so that nothing wraps and the two agree.
-/

namespace Rustd.Unit

open Base List Option

variable (limit : Nat) (value fraction : List Char)

def checkedMul (a b : Nat) : Option Nat := if a * b < limit then some (a * b) else none

def checkedAdd (a b : Nat) : Option Nat := if a + b < limit then some (a + b) else none

def numeral (c : Char) : Bool := c.isDigit || c == '.'

/-- Size suffixes and their factors. -/
def sizeSuffixes : List (List Char × Nat) :=
  [("", 1), ("B", 1), ("K", 2 ^ 10), ("KB", 2 ^ 10), ("KIB", 2 ^ 10), ("M", 2 ^ 20),
    ("MB", 2 ^ 20), ("MIB", 2 ^ 20), ("G", 2 ^ 30), ("GB", 2 ^ 30), ("GIB", 2 ^ 30), ("T", 2 ^ 40),
    ("TB", 2 ^ 40), ("TIB", 2 ^ 40), ("P", 2 ^ 50), ("PB", 2 ^ 50), ("PIB", 2 ^ 50), ("E", 2 ^ 60),
    ("EB", 2 ^ 60), ("EIB", 2 ^ 60)].map fun (suffix, factor) => (suffix.toList, factor)

def sizeFactor (suffix : List Char) : Option Nat :=
  sizeSuffixes.lookup ((trim suffix).map Char.toUpper)

/-- The end of both parsers: the whole part, the digits of the fraction and their scale, times the
factor. -/
def scaleSize (whole fraction scale factor : Nat) : Option Nat := do
  let whole ← checkedMul (2 ^ 128) whole factor
  let fraction ← checkedMul (2 ^ 128) fraction factor
  let total ← checkedAdd (2 ^ 128) whole (fraction / scale)
  if total < 2 ^ 64 then some total else none

/-- `parse_decimal` of `src/resource_control.rs:352`. -/
def parseDecimal : Option (Nat × Nat × Nat) :=
  match value.splitOn '.' with
  | [whole] => (parseUnsigned (2 ^ 64) whole).map (·, 0, 1)
  | [whole, fraction] =>
    if !fraction.all Char.isDigit || 6 < fraction.length then none
    else if fraction = [] then (parseUnsigned (2 ^ 64) whole).map (·, 0, 1)
    else do
      let whole ← parseUnsigned (2 ^ 64) whole
      let fractional ← parseUnsigned (2 ^ 64) fraction
      some (whole, fractional, 10 ^ fraction.length)
  | _ => none

/-- `parse_size_bytes` of `src/resource_control.rs:307`. -/
def parseSizeBytes : Option Nat := do
  let number := (trim value).takeWhile numeral
  if number = [] then none
  else
    let factor ← sizeFactor ((trim value).dropWhile numeral)
    let (whole, fractional, scale) ← parseDecimal number
    scaleSize whole fractional scale factor

/-- The digits of a fraction. -/
def parseFraction : Option Nat :=
  if fraction = [] then some 0 else parseUnsigned limit fraction

/-- `condition::parse_size_bytes`. -/
def conditionSizeBytes : Option Nat := do
  let number := (trim value).takeWhile numeral
  if number = [] then none
  else
    let factor ← sizeFactor ((trim value).dropWhile numeral)
    let parts := (splitOnce '.' number).getD (number, [])
    let whole ← parseUnsigned (2 ^ 128) parts.1
    let fractional ← parseFraction (2 ^ 128) parts.2
    if 10 ^ parts.2.length < 2 ^ 128 then scaleSize whole fractional (10 ^ parts.2.length) factor
    else none

/-! ### The exact value -/

def digitsValue (digits : List Char) : ℕ := Nat.ofDigitChars 10 digits 0

def decimalValue (whole fraction : List Char) : ℚ :=
  digitsValue whole + digitsValue fraction / 10 ^ fraction.length

/-- The exact number that a size stands for. -/
def sizeValue (text : List Char) : Option ℚ :=
  match sizeFactor ((trim text).dropWhile numeral), ((trim text).takeWhile numeral).splitOn '.' with
  | some factor, [whole] => if whole = [] then none else some (decimalValue whole [] * factor)
  | some factor, [whole, fraction] =>
    if whole = [] then none else some (decimalValue whole fraction * factor)
  | _, _ => none

section

variable {text digits whole fraction : List Char} {n factor : Nat}

private theorem parseUnsigned_eq_some {limit : Nat} (h : parseUnsigned limit digits = some n) :
    digits ≠ [] ∧ (∀ c ∈ digits, c.isDigit = true ∨ c = '+') ∧
      ((∀ c ∈ digits, c.isDigit = true) → n = digitsValue digits) := by
  simp only [parseUnsigned] at h
  split at h
  all_goals
    simp only [ite_none_left_eq_some, ite_none_right_eq_some, some.injEq, Bool.or_eq_true,
      Bool.not_eq_true', not_or, Bool.not_eq_false, List.all_eq_true, List.isEmpty_iff] at h
    obtain ⟨⟨hne, hall⟩, -, rfl⟩ := h
  · next rest =>
    refine ⟨cons_ne_nil _ _, ?_, fun hdi => ?_⟩
    · rintro c (_ | ⟨_, hc⟩)
      · exact .inr rfl
      · exact .inl (hall c hc)
    · exact absurd (hdi '+' mem_cons_self) (by decide)
  · exact ⟨hne, fun c hc => .inl (hall c hc), fun _ => rfl⟩

private theorem isDigit_of_mem_splitOn (text : List Char)
    (h : p ∈ ((trim text).takeWhile numeral).splitOn '.') (hc : c ∈ p) : c.isDigit = true := by
  have hpr : p <:+: ['.'].intercalate (((trim text).takeWhile numeral).splitOn '.') :=
    isInfix_intercalate h
  rw [intercalate_splitOn] at hpr
  have hnu := mem_takeWhile_imp (hpr.subset hc)
  have hdot : c ≠ '.' := fun heq => not_mem_of_mem_splitOn h (heq ▸ hc)
  simpa [numeral, hdot] using hnu

private theorem scaleSize_eq_some {a b scale : Nat} (hsc : 0 < scale)
    (h : scaleSize a b scale factor = some n) :
    n < 2 ^ 64 ∧ n = ⌊((a : ℚ) + b / scale) * factor⌋₊ := by
  have hn : n < 2 ^ 64 ∧ n = a * factor + b * factor / scale := by
    simp only [scaleSize, checkedMul, checkedAdd, bind_eq_bind, bind_eq_some_iff,
      ite_none_right_eq_some, some.injEq] at h
    obtain ⟨_, ⟨-, rfl⟩, _, ⟨-, rfl⟩, _, ⟨-, rfl⟩, hlt, rfl⟩ := h
    exact ⟨hlt, rfl⟩
  refine ⟨hn.1, ?_⟩
  have hec : ((a : ℚ) + b / scale) * factor =
      ((a * factor * scale + b * factor : ℕ) : ℚ) / scale := by
    push_cast
    field_simp
  rw [hec, Nat.floor_div_eq_div, hn.2, Nat.add_comm (a * factor * scale),
    Nat.add_mul_div_right _ _ hsc, Nat.add_comm]

/-- What is read from a whole part and a fraction, which may be missing or empty, is the floor of
the exact value. -/
theorem exact_of_read {limit a b : Nat}
    (hfa : sizeFactor ((trim text).dropWhile numeral) = some factor)
    (hsl : ((trim text).takeWhile numeral).splitOn '.' = [whole, fraction] ∨
      ((trim text).takeWhile numeral).splitOn '.' = [whole] ∧ fraction = [])
    (ha : parseUnsigned limit whole = some a) (hb : parseFraction limit fraction = some b)
    (h : scaleSize a b (10 ^ fraction.length) factor = some n) :
    n < 2 ^ 64 ∧ ∃ value, sizeValue text = some value ∧ n = ⌊value⌋₊ := by
  have hwh : ∀ c ∈ whole, c.isDigit = true := by
    intro c
    refine isDigit_of_mem_splitOn text ?_
    rcases hsl with hsl | ⟨hsl, -⟩ <;> simp [hsl]
  obtain ⟨hne, -, ha⟩ := parseUnsigned_eq_some ha
  obtain rfl := ha hwh
  have hfr : b = digitsValue fraction := by
    unfold parseFraction at hb
    by_cases hnil : fraction = []
    · rw [if_pos hnil] at hb
      rw [hnil, ← some.inj hb]
      rfl
    rw [if_neg hnil] at hb
    refine (parseUnsigned_eq_some hb).2.2 fun c => isDigit_of_mem_splitOn text ?_
    rcases hsl with hsl | ⟨-, hnil'⟩
    · simp [hsl]
    · exact absurd hnil' hnil
  obtain ⟨hlt, hfl⟩ := scaleSize_eq_some (pow_pos (by decide) _) h
  refine ⟨hlt, decimalValue whole fraction * factor, ?_, ?_⟩
  · rcases hsl with hsl | ⟨hsl, rfl⟩ <;> simp only [sizeValue, hfa, hsl, if_neg hne]
  · rw [hfl, hfr, decimalValue, Nat.cast_pow, Nat.cast_ofNat]

private theorem parseSizeBytes_exact (h : parseSizeBytes text = some n) :
    n < 2 ^ 64 ∧ ∃ value, sizeValue text = some value ∧ n = ⌊value⌋₊ := by
  simp only [parseSizeBytes, bind_eq_bind] at h
  split at h
  · cases h
  obtain ⟨factor, hf, h⟩ := bind_eq_some_iff.mp h
  obtain ⟨⟨a, b, s⟩, hdm, h⟩ := bind_eq_some_iff.mp h
  unfold parseDecimal at hdm
  split at hdm
  · next whole hsl =>
    obtain ⟨a', ha, heq⟩ := map_eq_some_iff.mp hdm
    cases heq
    exact exact_of_read hf (.inr ⟨hsl, rfl⟩) ha rfl h
  · next whole fraction hsl =>
    split at hdm
    · cases hdm
    split at hdm
    · next hnil =>
      obtain ⟨a', ha, heq⟩ := map_eq_some_iff.mp hdm
      cases heq
      subst hnil
      exact exact_of_read hf (.inl hsl) ha rfl h
    · next hne =>
      obtain ⟨a', ha, hdm⟩ := bind_eq_some_iff.mp hdm
      obtain ⟨b', hb, heq⟩ := bind_eq_some_iff.mp hdm
      cases heq
      exact exact_of_read hf (.inl hsl) ha (by rw [parseFraction, if_neg hne, hb]) h
  · cases hdm

private theorem conditionSizeBytes_exact (h : conditionSizeBytes text = some n) :
    n < 2 ^ 64 ∧ ∃ value, sizeValue text = some value ∧ n = ⌊value⌋₊ := by
  simp only [conditionSizeBytes, bind_eq_bind] at h
  split at h
  · cases h
  obtain ⟨factor, hf, h⟩ := bind_eq_some_iff.mp h
  obtain ⟨a, ha, h⟩ := bind_eq_some_iff.mp h
  obtain ⟨b, hb, h⟩ := bind_eq_some_iff.mp h
  split at h
  · cases hcut : splitOnce '.' ((trim text).takeWhile numeral) with
    | none =>
      rw [hcut] at ha hb h
      refine exact_of_read hf (.inr ⟨?_, rfl⟩) ha hb h
      exact splitOn_eq_singleton (splitOnce_eq_none.mp hcut)
    | some p =>
      obtain ⟨whole, fraction⟩ := p
      rw [hcut] at ha hb h
      obtain ⟨hwh, hn⟩ := splitOnce_eq_some.mp hcut
      -- a second dot would be in the fraction, which has digits only
      have hfr : '.' ∉ fraction := by
        intro hdot
        rw [getD_some, parseFraction, if_neg (ne_nil_of_mem hdot)] at hb
        exact absurd ((parseUnsigned_eq_some hb).2.1 '.' hdot) (by decide)
      refine exact_of_read hf (.inl ?_) ha hb h
      rw [hn, splitOn_append_cons_self, splitOn_eq_singleton hwh, splitOn_eq_singleton hfr]
      rfl
  · cases h

end

/-- Each of the two parsers reads a text as the floor of the exact value, rejects a value that does
not fit in 64 bits, and both agree on what they accept. -/
theorem size_parsers_exact (text : List Char) :
    (∀ parse ∈ [parseSizeBytes, conditionSizeBytes],
      (∀ n, parse text = some n →
        n < 2 ^ 64 ∧ ∃ value, sizeValue text = some value ∧ n = ⌊value⌋₊) ∧
      ∀ value, sizeValue text = some value → 2 ^ 64 ≤ value → parse text = none) ∧
    ∀ m n, parseSizeBytes text = some m → conditionSizeBytes text = some n → m = n := by
  have hec : ∀ parse ∈ [parseSizeBytes, conditionSizeBytes], ∀ n, parse text = some n →
      n < 2 ^ 64 ∧ ∃ value, sizeValue text = some value ∧ n = ⌊value⌋₊ := by
    simp only [forall_mem_cons]
    exact ⟨fun n => parseSizeBytes_exact, fun n => conditionSizeBytes_exact, nofun⟩
  refine ⟨fun parse hprs => ⟨hec parse hprs, fun value hva hla => ?_⟩, ?_⟩
  · cases hn : parse text with
    | none => rfl
    | some n =>
      obtain ⟨hlt, v', hva', rfl⟩ := hec parse hprs n hn
      cases hva.symm.trans hva'
      have hle : 2 ^ 64 ≤ ⌊value⌋₊ := Nat.le_floor (by exact_mod_cast hla)
      exact absurd hlt (Nat.not_lt.mpr hle)
  · intro m n hm hn
    obtain ⟨-, value, hva, rfl⟩ := parseSizeBytes_exact hm
    obtain ⟨-, v', hva', rfl⟩ := conditionSizeBytes_exact hn
    cases hva.symm.trans hva'
    rfl

end Rustd.Unit
