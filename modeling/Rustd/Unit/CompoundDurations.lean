import Rustd.Unit.Duration

/-!
# Durations of several parts

A duration written as numbers with documented units, with or without blanks, is the sum of its
parts. Products below `2 ^ 53` are exact in floating point.
-/

namespace Rustd.Unit

open Base List

/-- The units that the parser documents, with their microseconds. -/
def documentedUnits : List (List Char × Nat) :=
  [("us", 1), ("ms", 1000), ("s", 1000000), ("sec", 1000000), ("m", 60000000), ("min", 60000000),
    ("h", 3600000000), ("hr", 3600000000), ("d", 86400000000), ("day", 86400000000),
    ("w", 604800000000), ("week", 604800000000), ("month", 2592000000000),
    ("y", 31536000000000), ("year", 31536000000000)].map fun (unit, factor) => (unit.toList, factor)

/-- A whole number with a documented unit, as it is written. -/
structure Component where
  gap : List Char
  digits : List Char
  space : List Char
  unit : List Char × Nat
  blank : ∀ c ∈ gap ++ space, isWhitespace c = true
  digits_ne : digits ≠ []
  digit : ∀ c ∈ digits, c.isDigit = true
  documented : unit ∈ documentedUnits

namespace Component

def text (c : Component) : List Char := c.gap ++ (c.digits ++ (c.space ++ c.unit.1))

def value (c : Component) : Nat := Nat.ofDigitChars 10 c.digits 0 * c.unit.2

end Component

/-- What floating point and Unicode give: whole numbers are scaled without error while the product
stays below `2 ^ 53`, and neither digits nor blanks are alphabetic. -/
structure Numerals.Exact (n : Numerals) : Prop where
  scale_eq : ∀ digits factor, digits ≠ [] → (∀ c ∈ digits, c.isDigit = true) → 0 < factor →
    Nat.ofDigitChars 10 digits 0 * factor < 2 ^ 53 →
      n.scale digits factor = some (Nat.ofDigitChars 10 digits 0 * factor)
  alphabetic_eq : ∀ c, c.isDigit = true ∨ isWhitespace c = true → n.alphabetic c = false

section

/-- A unit ends here: nothing follows, or a digit or a blank. -/
def Ends (rest : List Char) : Prop :=
  ∀ c ∈ rest.head?, c.isDigit = true ∨ isWhitespace c = true

/-- The documented units that the parser finds in its table. -/
theorem find?_unitSuffixes : ∀ unit ∈ documentedUnits, unit.1 ≠ ['y'] →
    unitSuffixes.find? (·.1.isPrefixOf unit.1) = some unit := by
  decide +kernel

private theorem lower_unitSuffixes : ∀ e ∈ unitSuffixes, e.1.all Char.isLower = true := by
  decide +kernel

private theorem lower_documentedUnits : ∀ u ∈ documentedUnits,
    u.1 ≠ [] ∧ u.1.all Char.isLower = true ∧ u.1.map Char.toLower = u.1 ∧ 0 < u.2 := by
  decide +kernel

private theorem not_isLower_toLower (h : c.isDigit = true ∨ isWhitespace c = true) :
    c.toLower.isLower = false := by
  have hra : c.val.toNat < 65 ∨ 122 < c.val.toNat := by
    rcases h with h | h
    · have hhg : c.val.toNat ≤ 57 := (Char.isDigit_iff_toNat.mp h).2
      omega
    · have htoNat : c.val.toNat = c.toNat := rfl
      simp only [isWhitespace, Bool.or_eq_true, Bool.and_eq_true, decide_eq_true_eq,
        beq_iff_eq] at h
      omega
  have hup : ¬(c.val ≥ 'A'.val ∧ c.val ≤ 'Z'.val) := by
    rw [ge_iff_le, UInt32.le_iff_toNat_le, UInt32.le_iff_toNat_le]
    change ¬(65 ≤ _ ∧ _ ≤ 90)
    omega
  rw [Char.toLower, dif_neg hup, Char.isLower, ← Bool.decide_and, decide_eq_false_iff_not,
    ge_iff_le, UInt32.le_iff_toNat_le, UInt32.le_iff_toNat_le]
  change ¬(97 ≤ _ ∧ _ ≤ 122)
  omega

private theorem isPrefixOf_unit {s u rest : List Char} (hs : s.all Char.isLower = true)
    (hrest : Ends rest) (h : s.isPrefixOf (u ++ rest.map Char.toLower) = true) :
    s.isPrefixOf u = true := by
  apply isPrefixOf_iff_prefix.mp at h
  apply isPrefixOf_iff_prefix.mpr
  rcases prefix_or_prefix_of_prefix h (prefix_append u _) with hle | ⟨m, rfl⟩
  · exact hle
  rw [prefix_append_right_inj] at h
  cases m with
  | nil => exact (append_nil u).symm ▸ prefix_refl u
  | cons c m =>
    cases rest with
    | nil => cases prefix_nil.mp h
    | cons d rest =>
      obtain ⟨rfl, -⟩ := cons_prefix_cons.mp h
      have hlw : d.toLower.isLower = true := by
        rw [all_append, Bool.and_eq_true, all_cons, Bool.and_eq_true] at hs
        exact hs.2.1
      rw [not_isLower_toLower (hrest d rfl)] at hlw
      cases hlw

variable {n : Numerals}

private theorem parseUnitSuffix_documented (hec : n.Exact) {unit : List Char × Nat}
    (hunt : unit ∈ documentedUnits) (hy : unit.1 ≠ ['y']) {rest : List Char}
    (hrest : Ends rest) : n.parseUnitSuffix (unit.1 ++ rest) = (unit.2, unit.1.length) := by
  have hmap : (unit.1 ++ rest).map Char.toLower = unit.1 ++ rest.map Char.toLower := by
    rw [map_append, (lower_documentedUnits unit hunt).2.2.1]
  have hed : (unit.1 ++ rest)[unit.1.length]?.any n.alphabetic = false := by
    rw [getElem?_append_right (Nat.le_refl _), Nat.sub_self, ← head?_eq_getElem?]
    cases rest with
    | nil => rfl
    | cons c rest => exact hec.alphabetic_eq c (hrest c rfl)
  obtain ⟨-, l, r, htb, hbf⟩ := find?_eq_some_iff_append.mp (find?_unitSuffixes unit hunt hy)
  rw [Numerals.parseUnitSuffix,
    find?_eq_some_iff_append.mpr ⟨?_, l, r, htb, fun e hent => ?_⟩]
  · simp [hmap, hed]
  · have hlw := lower_unitSuffixes e (htb ▸ mem_append_left _ hent)
    have hnn := hbf e hent
    simp only [hmap, Bool.not_eq_true', Bool.and_eq_false_iff]
    refine Or.inl (Bool.eq_false_iff.mpr fun hpr => ?_)
    rw [isPrefixOf_unit hlw hrest hpr] at hnn
    cases hnn

end

section

variable {n : Numerals} {c : Char} {p : Char → Bool}

private theorem dropWhile_of_head {text : List Char} (h : ∀ c ∈ text.head?, p c = false) :
    text.takeWhile p = [] ∧ text.dropWhile p = text := by
  cases text with
  | nil => exact ⟨rfl, rfl⟩
  | cons c text => simp [h c rfl]

private theorem span_append {l text : List Char} (hbf : ∀ c ∈ l, p c = true)
    (h : ∀ c ∈ text.head?, p c = false) :
    (l ++ text).takeWhile p = l ∧ (l ++ text).dropWhile p = text := by
  rw [takeWhile_append_of_pos hbf, dropWhile_append_of_pos hbf,
    (dropWhile_of_head h).1, (dropWhile_of_head h).2, append_nil]
  exact ⟨rfl, rfl⟩

private theorem not_isNumeral_of_isWhitespace (h : isWhitespace c = true) :
    Numerals.isNumeral c = false := by
  refine Bool.eq_false_iff.mpr fun hn => ?_
  rw [Numerals.isNumeral, Bool.or_eq_true, beq_iff_eq] at hn
  rcases hn with hdg | rfl
  · rw [not_isWhitespace_of_isDigit hdg] at h
    cases h
  · cases h

private theorem of_isLower (h : c.isLower = true) :
    isWhitespace c = false ∧ Numerals.isNumeral c = false := by
  have hra : 97 ≤ c.toNat ∧ c.toNat ≤ 122 := by
    rw [Char.isLower, Bool.and_eq_true, decide_eq_true_eq, decide_eq_true_eq, ge_iff_le,
      UInt32.le_iff_toNat_le, UInt32.le_iff_toNat_le] at h
    exact h
  constructor
  · simp only [isWhitespace, Bool.or_eq_false_iff, Bool.and_eq_false_iff, decide_eq_false_iff_not,
      beq_eq_false_iff_ne]
    omega
  · refine Bool.eq_false_iff.mpr fun hn => ?_
    rw [Numerals.isNumeral, Bool.or_eq_true, beq_iff_eq] at hn
    rcases hn with hdg | rfl
    · have hhg : c.toNat ≤ 57 := (Char.isDigit_iff_toNat.mp hdg).2
      omega
    · exact absurd hra.1 (by decide)

namespace Component

variable (c : Component) (rest : List Char)

private theorem head_unit : ∀ d ∈ (c.unit.1 ++ rest).head?, d.isLower = true := by
  obtain ⟨hne, hlw, -⟩ := lower_documentedUnits c.unit c.documented
  cases hunt : c.unit.1 with
  | nil => exact absurd hunt hne
  | cons u un =>
    rintro d ⟨rfl⟩
    rw [hunt, all_cons, Bool.and_eq_true] at hlw
    exact hlw.1

private theorem head_digits : ∀ d ∈ (c.digits ++ rest).head?, d.isDigit = true := by
  have hne := c.digits_ne
  have hdg := c.digit
  cases hdi : c.digits with
  | nil => exact absurd hdi hne
  | cons a di =>
    rintro d ⟨rfl⟩
    exact hdg _ (hdi ▸ mem_cons_self)

private theorem trimStart_text :
    trimStart (c.text ++ rest) = c.digits ++ (c.space ++ (c.unit.1 ++ rest)) := by
  rw [text, trimStart, append_assoc, append_assoc, append_assoc]
  exact (span_append (fun d hd => c.blank d (mem_append_left _ hd)) fun d hd =>
    not_isWhitespace_of_isDigit (c.head_digits _ d hd)).2

private theorem trimStart_unit : trimStart (c.space ++ (c.unit.1 ++ rest)) = c.unit.1 ++ rest :=
  (span_append (fun d hd => c.blank d (mem_append_right _ hd)) fun d hd =>
    (of_isLower (c.head_unit rest d hd)).1).2

private theorem span_digits :
    (c.digits ++ (c.space ++ (c.unit.1 ++ rest))).takeWhile Numerals.isNumeral = c.digits ∧
      (c.digits ++ (c.space ++ (c.unit.1 ++ rest))).dropWhile Numerals.isNumeral =
        c.space ++ (c.unit.1 ++ rest) := by
  refine span_append (fun d hd => ?_) fun d hd => ?_
  · rw [Numerals.isNumeral, c.digit d hd, Bool.true_or]
  · cases hsp : c.space with
    | nil =>
      rw [hsp] at hd
      exact (of_isLower (c.head_unit rest d hd)).2
    | cons b s =>
      rw [hsp] at hd
      obtain rfl := Option.some.inj hd
      exact not_isNumeral_of_isWhitespace (c.blank b (mem_append_right _ (hsp ▸ mem_cons_self)))

theorem ends : Ends (c.text ++ rest) := by
  intro d hd
  rw [text, append_assoc, append_assoc] at hd
  cases hgap : c.gap with
  | nil =>
    rw [hgap] at hd
    exact Or.inl (c.head_digits _ d hd)
  | cons b gap =>
    rw [hgap] at hd
    obtain rfl := Option.some.inj hd
    exact Or.inr (c.blank b (mem_append_left _ (hgap ▸ mem_cons_self)))

end Component

private theorem ends_text (cs : List Component) : Ends (cs.flatMap Component.text) := by
  cases cs with
  | nil => exact fun d hd => nomatch hd
  | cons c cs => exact c.ends _

private theorem addParts_component (hec : n.Exact) (c : Component) (hy : c.unit.1 ≠ ['y'])
    {rest : List Char} (hrest : Ends rest) (t : Nat) (hsml : c.value < 2 ^ 53) :
    n.addParts t (c.text ++ rest) = n.addParts (min (2 ^ 64 - 1) (t + c.value)) rest := by
  have hpos := (lower_documentedUnits c.unit c.documented).2.2.2
  rw [Numerals.addParts]
  simp only [c.trimStart_text, (c.span_digits rest).1, (c.span_digits rest).2, c.trimStart_unit,
    parseUnitSuffix_documented hec c.documented hy hrest,
    hec.scale_eq c.digits c.unit.2 c.digits_ne c.digit hpos hsml, drop_left]
  rw [if_neg fun hnil => c.digits_ne (append_eq_nil_iff.mp hnil).1, dif_neg c.digits_ne]
  rfl

private theorem addParts_components (hec : n.Exact) (cs : List Component)
    (hy : ∀ c ∈ cs, c.unit.1 ≠ ['y']) (t : Nat) (hsml : t + (cs.map Component.value).sum < 2 ^ 53) :
    n.addParts t (cs.flatMap Component.text) = some (t + (cs.map Component.value).sum) := by
  induction cs generalizing t with
  | nil =>
    rw [Numerals.addParts]
    rfl
  | cons c cs ih =>
    obtain ⟨hc, hla⟩ := forall_mem_cons.mp hy
    rw [map_cons, sum_cons] at hsml ⊢
    rw [flatMap_cons, addParts_component hec c hc (ends_text cs) t (by omega),
      Nat.min_eq_right (by omega), ih hla _ (by omega), Nat.add_assoc]

private theorem addParts_trimStart (t : Nat) (text : List Char) :
    n.addParts t (trimStart text) = n.addParts t text := by
  have hsa : trimStart (trimStart text) = trimStart text := dropWhile_idempotent isWhitespace text
  rw [Numerals.addParts, Numerals.addParts.eq_def n t text]
  simp only [hsa]

private theorem trim_concat_of_not (h : isWhitespace c = false) (s : List Char) :
    trim (s ++ [c]) = trimStart (s ++ [c]) := by
  have hstr : trimStart (s ++ [c]) = trimStart s ++ [c] := by
    rw [trimStart, dropWhile_append]
    split
    · next hempty =>
      rw [trimStart, List.isEmpty_iff.mp hempty, (dropWhile_of_head (by simpa using h)).2]
      rfl
    · rfl
  rw [trim, hstr, trimEnd_append_cons h]
  rfl

private theorem trim_text (hne : cs ≠ []) :
    trim (cs.flatMap Component.text) = trimStart (cs.flatMap Component.text) := by
  obtain ⟨ea, c, rfl⟩ := eq_nil_or_concat' cs |>.resolve_left hne
  obtain ⟨hunt, hlw, -⟩ := lower_documentedUnits c.unit c.documented
  obtain ⟨le, l, hls⟩ := eq_nil_or_concat' c.unit.1 |>.resolve_left hunt
  have hwh : isWhitespace l = false := by
    rw [hls, all_append, Bool.and_eq_true, all_cons, Bool.and_eq_true] at hlw
    exact (of_isLower hlw.2.1).1
  rw [flatMap_append, flatMap_singleton, Component.text, hls]
  simp only [← append_assoc]
  exact trim_concat_of_not hwh _

/-- No entry of the table of suffixes fits the unit `y`. -/
theorem parseUnitSuffix_year (hrest : Ends rest) :
    n.parseUnitSuffix ('y' :: rest) = (1000000, 0) := by
  have hunknown : ∀ e ∈ unitSuffixes, e.1.isPrefixOf ['y'] = false := by
    decide +kernel
  rw [Numerals.parseUnitSuffix, find?_eq_none.mpr]
  intro e he hfound
  have hfits := (Bool.and_eq_true_iff.mp hfound).1
  rw [map_cons] at hfits
  have hyear := isPrefixOf_unit (u := ['y']) (lower_unitSuffixes e he) hrest hfits
  rw [hunknown e he] at hyear
  cases hyear

/-- The number is taken without its unit, and no number stands where the parser goes on. -/
theorem addParts_year (c : Component) (hy : c.unit.1 = ['y']) (hrest : Ends rest) (t : Nat) :
    n.addParts t (c.text ++ rest) = none := by
  have hletter : ∀ t, n.addParts t ('y' :: rest) = none := by
    intro t
    rw [Numerals.addParts]
    simp [trimStart, show isWhitespace 'y' = false by decide,
      show Numerals.isNumeral 'y' = false by decide]
  rw [Numerals.addParts]
  simp only [c.trimStart_text, (c.span_digits rest).1, (c.span_digits rest).2, c.trimStart_unit]
  rw [if_neg fun hnil => c.digits_ne (append_eq_nil_iff.mp hnil).1, dif_neg c.digits_ne, hy,
    singleton_append, parseUnitSuffix_year hrest]
  split
  · rfl
  · exact hletter _

private theorem addParts_of_year (hec : n.Exact) (cs : List Component)
    (hyear : ∃ c ∈ cs, c.unit.1 = ['y'])
    (t : Nat) (hsml : (cs.map Component.value).sum < 2 ^ 53) :
    n.addParts t (cs.flatMap Component.text) = none := by
  induction cs generalizing t with
  | nil => simp at hyear
  | cons c cs ih =>
    rw [map_cons, sum_cons] at hsml
    rw [flatMap_cons]
    by_cases hy : c.unit.1 = ['y']
    · exact addParts_year c hy (ends_text cs) t
    · rw [addParts_component hec c hy (ends_text cs) t (by omega)]
      exact ih (by simpa [hy] using hyear) _ (by omega)

private theorem parseDuration_components (hne : cs ≠ []) :
    n.parseDuration (cs.flatMap Component.text) =
      (n.addParts 0 (cs.flatMap Component.text)).map (· * 1000) := by
  rw [Numerals.parseDuration, trim_text hne, addParts_trimStart, if_neg]
  cases cs with
  | nil => exact absurd rfl hne
  | cons c cs =>
    have hdg := c.head_digits (c.space ++ (c.unit.1 ++ cs.flatMap Component.text))
    rw [flatMap_cons, c.trimStart_text]
    rintro (hnil | hin)
    · exact c.digits_ne (append_eq_nil_iff.mp hnil).1
    · rw [hin] at hdg
      exact absurd (hdg 'i' rfl) (by decide)

/-- A duration of whole numbers with documented units, in any order and with or without blanks, is
the sum of its parts, exactly if there is a part and the unit `y` is not among them. -/
theorem compound_duration_sum (hexact : n.Exact) (components : List Component)
    (hsmall : (components.map Component.value).sum < 2 ^ 53) :
    n.parseDuration (components.flatMap Component.text) =
        some ((components.map Component.value).sum * 1000) ↔
      components ≠ [] ∧ ∀ c ∈ components, c.unit.1 ≠ ['y'] := by
  constructor
  · intro hsum
    have hne : components ≠ [] := by
      rintro rfl
      cases hsum
    refine ⟨hne, fun c hc hy => ?_⟩
    rw [parseDuration_components hne, addParts_of_year hexact components ⟨c, hc, hy⟩ 0 hsmall]
      at hsum
    cases hsum
  · rintro ⟨hne, hy⟩
    rw [parseDuration_components hne, addParts_components hexact components hy 0 (by omega),
      Nat.zero_add]
    rfl

/-- Exact arithmetic, with the letters of ASCII. -/
def plainNumerals : Numerals where
  scale digits factor := some (Nat.ofDigitChars 10 digits 0 * factor)
  alphabetic c := c.toLower.isLower

def oneHour : Component where
  gap := []
  digits := ['1']
  space := []
  unit := (['h'], 3600000000)
  blank := by simp
  digits_ne := by simp
  digit := by simp
  documented := by decide

def thirtyMinutes : Component where
  gap := [' ']
  digits := ['3', '0']
  space := [' ']
  unit := (['m', 'i', 'n'], 60000000)
  blank := by simp [isWhitespace]
  digits_ne := by simp
  digit := by simp
  documented := by decide

def oneYear : Component where
  gap := []
  digits := ['1']
  space := []
  unit := (['y'], 31536000000000)
  blank := by simp
  digits_ne := by simp
  digit := by simp
  documented := by decide

theorem hour_and_half_sum :
    plainNumerals.parseDuration "1h 30 min".toList = some (5400000000 * 1000) ∧
      plainNumerals.parseDuration "1h1y".toList ≠ some (31539600000000 * 1000) := by
  have hexact : plainNumerals.Exact :=
    ⟨fun _ _ _ _ _ _ => rfl, fun _ h => not_isLower_toLower h⟩
  constructor
  · exact (compound_duration_sum hexact [oneHour, thirtyMinutes] (by decide)).mpr
      ⟨by simp, by simp [oneHour, thirtyMinutes]⟩
  · intro hsum
    exact ((compound_duration_sum hexact [oneHour, oneYear] (by decide)).mp hsum).2 oneYear
      (by simp) rfl

/-- A unit that is documented but not known. -/
theorem year_duration_refused :
    (['y'], 31536000000000) ∈ documentedUnits ∧
      ∀ n : Numerals, n.parseDuration ['1', 'y'] = none := by
  refine ⟨by decide, fun n => ?_⟩
  have hparts : n.addParts 0 (oneYear.text ++ []) = none :=
    addParts_year oneYear rfl (by simp [Ends]) 0
  have htext : [oneYear].flatMap Component.text = oneYear.text ++ [] := rfl
  change n.parseDuration ([oneYear].flatMap Component.text) = none
  rw [parseDuration_components (by simp), htext, hparts]
  rfl

end

end Rustd.Unit
