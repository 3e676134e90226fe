import Rustd.Base.Text

/-!
# Durations in unit files

`src/unit/duration.rs`: a duration is a sequence of numbers with unit suffixes, added up in whole
microseconds. `infinity` has no value, like a text that is no duration.
-/

namespace Rustd.Unit

open Base List

/-- What the parser takes from its language: a numeral times the microseconds of a unit, computed
in floating point and cast to `u64`, and the Unicode property Alphabetic. -/
structure Numerals where
  scale : List Char → Nat → Option Nat
  alphabetic : Char → Bool

/-- Unit suffixes and their microseconds, longest first. -/
def unitSuffixes : List (List Char × Nat) :=
  [("usec", 1), ("us", 1), ("msec", 1000), ("ms", 1000), ("minutes", 60000000),
    ("minute", 60000000), ("months", 2592000000000), ("month", 2592000000000),
    ("years", 31536000000000), ("year", 31536000000000), ("weeks", 604800000000),
    ("week", 604800000000), ("days", 86400000000), ("day", 86400000000), ("hours", 3600000000),
    ("hour", 3600000000), ("min", 60000000), ("sec", 1000000), ("hr", 3600000000),
    ("h", 3600000000), ("d", 86400000000), ("w", 604800000000), ("s", 1000000),
    ("m", 60000000)].map fun (suffix, factor) => (suffix.toList, factor)

namespace Numerals

variable (n : Numerals)

/-- Microseconds and length of the unit a text starts with, seconds if it starts with none. -/
def parseUnitSuffix (text : List Char) : Nat × Nat :=
  match unitSuffixes.find? (fun (suffix, _) =>
      suffix.isPrefixOf (text.map Char.toLower) && !(text[suffix.length]?).any n.alphabetic) with
  | some (suffix, factor) => (factor, suffix.length)
  | none => (1000000, 0)

def isNumeral (c : Char) : Bool := c.isDigit || c == '.'

/-- The loop over the parts of a duration. -/
def addParts (total : Nat) (text : List Char) : Option Nat :=
  let remaining := trimStart text
  if remaining = [] then some total
  else if _hnumeral : remaining.takeWhile isNumeral = [] then none
  else
    let rest := trimStart (remaining.dropWhile isNumeral)
    let unit := n.parseUnitSuffix rest
    match n.scale (remaining.takeWhile isNumeral) unit.1 with
    | none => none
    | some chunk => addParts (min (2 ^ 64 - 1) (total + chunk)) (rest.drop unit.2)
termination_by text.length
decreasing_by
  have hsplit := congrArg List.length
    (takeWhile_append_dropWhile (p := isNumeral) (l := trimStart text))
  have hstart := (dropWhile_suffix (p := isWhitespace) (l := text)).length_le
  have hrest := (dropWhile_suffix (p := isWhitespace)
    (l := (trimStart text).dropWhile isNumeral)).length_le
  have hpos : 0 < ((trimStart text).takeWhile isNumeral).length :=
    length_pos_iff.mpr _hnumeral
  simp only [length_append, trimStart, length_drop] at *
  omega

/-- `infinity`, which is no duration for the parser. -/
def infinity : List Char := "infinity".toList

/-- Nanoseconds of a duration. -/
def parseDuration (text : List Char) : Option Nat :=
  if trim text = [] ∨ trim text = infinity then none
  else (n.addParts 0 (trim text)).map (· * 1000)

/-- The text is a duration or `infinity`. -/
def Accepts (text : List Char) : Prop :=
  trim text = infinity ∨ (n.parseDuration text).isSome = true

variable {text : List Char}

theorem dvd_of_parseDuration (h : n.parseDuration text = some ns) : 1000 ∣ ns := by
  unfold parseDuration at h
  split at h
  · cases h
  · obtain ⟨us, -, rfl⟩ := Option.map_eq_some_iff.mp h
    exact Nat.dvd_mul_left 1000 us

theorem parseDuration_infinity (h : trim text = infinity) : n.parseDuration text = none :=
  if_pos (.inr h)

end Numerals

end Rustd.Unit
