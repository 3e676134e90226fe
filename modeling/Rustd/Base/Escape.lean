import Mathlib

/-!
# Escaping with a marker

An escaping passes some letters through and writes every other letter as a marker and two digits.
The marker itself is passed through, so a text can hold what looks like an escape. `unescape` reads
every escape of a text, whether it was written by `escape` or stood there before. Two texts have
the same escaped form exactly when they have the same reading.
-/

namespace Rustd.Base

open List

variable {α : Type}

/-- An escaping of letters: which letters pass, and the two digits of a letter that does not. -/
structure Escaping (α : Type) where
  marker : α
  plain : α → Bool
  digits : α → α × α
  letter : α → α → Option α
  plain_marker : plain marker = true
  letter_digits : ∀ a, plain a = false → letter (digits a).1 (digits a).2 = some a
  plain_of_letter : ∀ {h l a}, letter h l = some a → plain a = false
  digits_of_letter : ∀ {h l a}, letter h l = some a → digits a = (h, l)
  plain_digits : ∀ {h l a}, letter h l = some a → plain h = true ∧ plain l = true
  digits_ne_marker : ∀ {h l a}, letter h l = some a → h ≠ marker ∧ l ≠ marker

namespace Escaping

variable (e : Escaping α)

def escapeLetter (a : α) : List α :=
  if e.plain a then [a] else [e.marker, (e.digits a).1, (e.digits a).2]

def escape (text : List α) : List α := text.flatMap e.escapeLetter

def unescape [DecidableEq α] : List α → List α
  | [] => []
  | [a] => [a]
  | [a, b] => [a, b]
  | a :: h :: l :: rest =>
    if a = e.marker then
      match e.letter h l with
      | some b => b :: unescape rest
      | none => a :: unescape (h :: l :: rest)
    else a :: unescape (h :: l :: rest)

variable {a : α} (text : List α)

private theorem escape_cons (a : α) (text : List α) :
    e.escape (a :: text) = e.escapeLetter a ++ e.escape text := rfl

variable {e}

theorem escape_cons_plain (h : e.plain a = true) (text : List α) :
    e.escape (a :: text) = a :: e.escape text := by
  rw [escape_cons, escapeLetter, if_pos h, singleton_append]

theorem escape_cons_escaped (h : e.plain a = false) (text : List α) :
    e.escape (a :: text) = e.marker :: (e.digits a).1 :: (e.digits a).2 :: e.escape text := by
  rw [escape_cons, escapeLetter, if_neg (by simp [h])]
  rfl

theorem plain_of_mem_escape {text : List α} (h : a ∈ e.escape text) : e.plain a = true := by
  obtain ⟨b, -, hb⟩ := mem_flatMap.mp h
  unfold escapeLetter at hb
  cases hp : e.plain b with
  | true =>
    rw [if_pos hp, mem_singleton] at hb
    rw [hb, hp]
  | false =>
    rw [if_neg (by simp [hp])] at hb
    obtain ⟨hfr, hsn⟩ := e.plain_digits (e.letter_digits b hp)
    simp only [mem_cons, not_mem_nil, or_false] at hb
    rcases hb with rfl | rfl | rfl
    · exact e.plain_marker
    · exact hfr
    · exact hsn

theorem mem_escape_of_plain {text : List α} (h : a ∈ text) (hp : e.plain a = true) :
    a ∈ e.escape text :=
  mem_flatMap.mpr ⟨a, h, by simp [escapeLetter, hp]⟩

private theorem letter_marker_left (l : α) : e.letter e.marker l = none := by
  cases h : e.letter e.marker l with
  | none => rfl
  | some a => exact absurd rfl (e.digits_ne_marker h).1

private theorem letter_marker_right (h : α) : e.letter h e.marker = none := by
  cases hl : e.letter h e.marker with
  | none => rfl
  | some a => exact absurd rfl (e.digits_ne_marker hl).2

def startsEscape (e : Escaping α) : List α → Bool
  | h :: l :: _ => (e.letter h l).isSome
  | _ => false

private theorem startsEscape_escape : e.startsEscape (e.escape text) = e.startsEscape text := by
  have hdi : ∀ {h l}, e.plain h = false ∨ e.plain l = false → e.letter h l = none := by
    intro h l hpl
    cases hl : e.letter h l with
    | none => rfl
    | some a =>
      obtain ⟨hh, hl⟩ := e.plain_digits hl
      rcases hpl with hpl | hpl <;> simp_all
  match text with
  | [] => rfl
  | [a] =>
    cases ha : e.plain a with
    | true => rw [escape_cons_plain ha]; rfl
    | false => rw [escape_cons_escaped ha]; simp [startsEscape, letter_marker_left]
  | a :: b :: rest =>
    cases ha : e.plain a with
    | false =>
      rw [escape_cons_escaped ha]
      simp [startsEscape, letter_marker_left, hdi (.inl ha)]
    | true =>
      rw [escape_cons_plain ha]
      cases hb : e.plain b with
      | true => rw [escape_cons_plain hb]; rfl
      | false =>
        rw [escape_cons_escaped hb]
        simp [startsEscape, letter_marker_right, hdi (.inr hb)]

variable [DecidableEq α]

private theorem unescape_cons_of_ne (h : a ≠ e.marker) (text : List α) :
    e.unescape (a :: text) = a :: e.unescape text := by
  match text with
  | [] => rfl
  | [_] => simp [unescape]
  | _ :: _ :: _ => rw [unescape, if_neg h]

private theorem unescape_escaped (hlr : e.letter h l = some a) (text : List α) :
    e.unescape (e.marker :: h :: l :: text) = a :: e.unescape text := by
  rw [unescape, if_pos rfl, hlr]

private theorem unescape_marker {text : List α} (h : e.startsEscape text = false) :
    e.unescape (e.marker :: text) = e.marker :: e.unescape text := by
  match text with
  | [] => rfl
  | [_] => simp [unescape]
  | h₁ :: h₂ :: _ =>
    have hnn : e.letter h₁ h₂ = none := by simpa [startsEscape] using h
    rw [unescape, if_pos rfl, hnn]

private theorem unescape_induction {P : List α → Prop} (nil : P [])
    (other : ∀ a text, a ≠ e.marker → P text → P (a :: text))
    (marker : ∀ text, e.startsEscape text = false → P text → P (e.marker :: text))
    (escaped : ∀ h l a text, e.letter h l = some a → P text → P (e.marker :: h :: l :: text)) :
    ∀ text, P text := by
  -- the induction is on the length, since an escape takes three letters at once
  intro text
  induction hn : text.length using Nat.strongRecOn generalizing text with
  | _ n ih =>
    match text with
    | [] => exact nil
    | a :: rest =>
      have hrest : P rest := ih rest.length (by simp [← hn]) rest rfl
      by_cases ha : a = e.marker
      · subst ha
        cases hs : e.startsEscape rest with
        | false => exact marker rest hs hrest
        | true =>
          match rest with
          | h :: l :: rest =>
            obtain ⟨b, hb⟩ := Option.isSome_iff_exists.mp hs
            have hsh : rest.length < n := by
              simp only [← hn, length_cons]
              omega
            exact escaped h l b rest hb (ih rest.length hsh rest rfl)
      · exact other a rest ha hrest

theorem unescape_escape : e.unescape (e.escape text) = e.unescape text := by
  induction text using unescape_induction (e := e) with
  | nil => rfl
  | other a text ha ih =>
    rw [unescape_cons_of_ne ha]
    cases hp : e.plain a with
    | true => rw [escape_cons_plain hp, unescape_cons_of_ne ha, ih]
    | false => rw [escape_cons_escaped hp, unescape_escaped (e.letter_digits a hp), ih]
  | marker text hs ih =>
    rw [escape_cons_plain e.plain_marker, unescape_marker hs, ← ih]
    exact unescape_marker (by rw [startsEscape_escape, hs])
  | escaped h l a text hl ih =>
    obtain ⟨hh, hlow⟩ := e.plain_digits hl
    rw [escape_cons_plain e.plain_marker, escape_cons_plain hh, escape_cons_plain hlow,
      unescape_escaped hl, unescape_escaped hl, ih]

private theorem escape_unescape : e.escape (e.unescape text) = e.escape text := by
  induction text using unescape_induction (e := e) with
  | nil => rfl
  | other a text ha ih => rw [unescape_cons_of_ne ha, escape_cons, escape_cons, ih]
  | marker text hs ih => rw [unescape_marker hs, escape_cons, escape_cons, ih]
  | escaped h l a text hl ih =>
    obtain ⟨hh, hlow⟩ := e.plain_digits hl
    rw [unescape_escaped hl, escape_cons_escaped (e.plain_of_letter hl), e.digits_of_letter hl, ih,
      escape_cons_plain e.plain_marker, escape_cons_plain hh, escape_cons_plain hlow]

theorem escape_eq_iff (a b : List α) : e.escape a = e.escape b ↔ e.unescape a = e.unescape b := by
  constructor
  · intro h
    rw [← unescape_escape a, h, unescape_escape]
  · intro h
    rw [← escape_unescape a, h, escape_unescape]

end Escaping

end Rustd.Base
