import Rustd.Base.Text

/-!
# Glob patterns

`src/glob.rs` and `src/unit/condition.rs` match texts against shell patterns, each with its own
backtracking matcher. The two always agree. `Denotes` says what a pattern means for `fnmatch(3)`
without backslash escapes: `*` stands for any bytes, `?` for one, a bracket expression for one of a
set, and a bracket that is never closed for itself. A closing bracket at the start of a bracket
expression is a member of it. The matchers take it for the end (`leading_bracket_not_member`), and
agree with `Denotes` wherever they do not meet such a bracket.
-/

namespace Rustd.Glob

open Base List

/-- The test of a bracket expression's members, in steps of one member or range. -/
def inClass (current : UInt8) : List UInt8 → Bool
  | first :: second :: third :: rest =>
    if second = '-'.toUInt8 then (first ≤ current && current ≤ third) || inClass current rest
    else first == current || inClass current (second :: third :: rest)
  | [first, second] => first == current || second == current
  | [first] => first == current
  | [] => false

/-- A class without the mark of its negation. -/
def stripNegation : List UInt8 → Bool × List UInt8
  | first :: rest =>
    if first = '!'.toUInt8 ∨ first = '^'.toUInt8 then (true, rest) else (false, first :: rest)
  | [] => (false, [])

/-- The common shape of the two matchers. The class of a bracket expression ends before the first
closing bracket. -/
def matchWith (bracket : UInt8 → List UInt8 → Bool) : List UInt8 → List UInt8 → Bool
  | [], value => value.isEmpty
  | first :: rest, value =>
    if first = '*'.toUInt8 then
      matchWith bracket rest value ||
        match value with
        | [] => false
        | _ :: value => matchWith bracket (first :: rest) value
    else
      match value with
      | [] => false
      | current :: value =>
        if first = '?'.toUInt8 then matchWith bracket rest value
        else if first = '['.toUInt8 then
          match _h : splitOnce ']'.toUInt8 rest with
          | none => current == '['.toUInt8 && matchWith bracket rest value
          | some (cls, after) => bracket current cls && matchWith bracket after value
        else current == first && matchWith bracket rest value
termination_by pattern value => pattern.length + value.length
decreasing_by
  all_goals simp only [length_cons]
  all_goals try omega
  have hlength := congrArg List.length (splitOnce_eq_some.mp _h).2
  simp only [length_append, length_cons] at hlength
  omega

/-- `matches_bytes` of `src/glob.rs:13`. -/
def matchesBytes : List UInt8 → List UInt8 → Bool :=
  matchWith fun current cls => inClass current (stripNegation cls).2 != (stripNegation cls).1

/-- `glob_match_bytes` of `src/unit/condition.rs:962`. -/
def globMatchBytes : List UInt8 → List UInt8 → Bool :=
  matchWith fun current cls => inClass current (stripNegation cls).2 ^^ (stripNegation cls).1

/-! ### What patterns mean -/

def Member (c : UInt8) : List UInt8 → Prop
  | first :: second :: third :: rest =>
    if second = '-'.toUInt8 then (first ≤ c ∧ c ≤ third) ∨ Member c rest
    else c = first ∨ Member c (second :: third :: rest)
  | [first, second] => c = first ∨ c = second
  | [first] => c = first
  | [] => False

/-- What follows an opening bracket is a bracket expression and a rest. Its first member may be a
closing bracket. -/
def Bracket (text : List UInt8) (negated : Bool) (cls rest : List UInt8) : Prop :=
  stripNegation text = (negated, cls ++ ']'.toUInt8 :: rest) ∧ cls ≠ [] ∧ ']'.toUInt8 ∉ cls.tail

/-- A text is one of those that a pattern denotes. -/
inductive Denotes : List UInt8 → List UInt8 → Prop where
  | nil : Denotes [] []
  | star {rest text} (before : List UInt8) (h : Denotes rest text) :
      Denotes ('*'.toUInt8 :: rest) (before ++ text)
  | any {rest text} (c : UInt8) (h : Denotes rest text) :
      Denotes ('?'.toUInt8 :: rest) (c :: text)
  | bracket {pattern rest text cls} {c : UInt8} {negated : Bool}
      (hbracket : Bracket pattern negated cls rest) (hc : Member c cls ↔ negated = false)
      (h : Denotes rest text) : Denotes ('['.toUInt8 :: pattern) (c :: text)
  | unterminated {rest text} (hnone : ∀ negated cls after, ¬Bracket rest negated cls after)
      (h : Denotes rest text) : Denotes ('['.toUInt8 :: rest) ('['.toUInt8 :: text)
  | literal {rest text} {c : UInt8} (hc : c ∉ ['*'.toUInt8, '?'.toUInt8, '['.toUInt8])
      (h : Denotes rest text) : Denotes (c :: rest) (c :: text)

/-- What the comparison of a pattern with a text comes to: the rests of the two behind beginnings
that match, as the matchers divide a pattern. -/
inductive Reaches (pattern text : List UInt8) : List UInt8 → List UInt8 → Prop where
  | start : Reaches pattern text pattern text
  | starSkip {rest t} (h : Reaches pattern text ('*'.toUInt8 :: rest) t) :
      Reaches pattern text rest t
  | starTake {rest t c} (h : Reaches pattern text ('*'.toUInt8 :: rest) (c :: t)) :
      Reaches pattern text ('*'.toUInt8 :: rest) t
  | any {rest t c} (h : Reaches pattern text ('?'.toUInt8 :: rest) (c :: t)) :
      Reaches pattern text rest t
  | bracket {rest t c cls after} (h : Reaches pattern text ('['.toUInt8 :: rest) (c :: t))
      (hend : splitOnce ']'.toUInt8 rest = some (cls, after))
      (hc : Member c (stripNegation cls).2 ↔ (stripNegation cls).1 = false) :
      Reaches pattern text after t
  | unterminated {rest t} (h : Reaches pattern text ('['.toUInt8 :: rest) ('['.toUInt8 :: t))
      (hend : splitOnce ']'.toUInt8 rest = none) : Reaches pattern text rest t
  | literal {rest t c} (h : Reaches pattern text (c :: rest) (c :: t))
      (hc : c ∉ ['*'.toUInt8, '?'.toUInt8, '['.toUInt8]) : Reaches pattern text rest t

/-- A byte of the text is compared with a bracket expression that a closing bracket leads. -/
def MeetsLeadingBracket (pattern text : List UInt8) : Prop :=
  ∃ rest c t, Reaches pattern text ('['.toUInt8 :: rest) (c :: t) ∧
    (stripNegation rest).2.head? = some ']'.toUInt8

section

variable {first : UInt8} {pattern rest cls value : List UInt8}

private theorem matchWith_bracket (h : splitOnce ']'.toUInt8 pattern = some (cls, rest)) :
    matchWith b ('['.toUInt8 :: pattern) (c :: value) = (b c cls && matchWith b rest value) := by
  rw [matchWith]
  simp only [show '['.toUInt8 ≠ '*'.toUInt8 by decide, show '['.toUInt8 ≠ '?'.toUInt8 by decide,
    if_false, if_true]
  split <;> simp_all

private theorem inClass_iff (c : UInt8) (cls : List UInt8) :
    inClass c cls = true ↔ Member c cls := by
  fun_induction inClass c cls with
  | case1 first t rest ih => simp [Member, ih]
  | case2 first b t rest hsn ih => simp [Member, hsn, ih, @eq_comm _ c]
  | case3 first b => simp [Member, @eq_comm _ c]
  | case4 first => simp [Member, @eq_comm _ c]
  | case5 => simp [Member]

private theorem stripNegation_append (h : cls ≠ []) (rest : List UInt8) :
    stripNegation (cls ++ rest) = ((stripNegation cls).1, (stripNegation cls).2 ++ rest) := by
  obtain ⟨first, cls, rfl⟩ := exists_cons_of_ne_nil h
  simp only [cons_append, stripNegation]
  split <;> rfl

private theorem stripNegation_eq (cls : List UInt8) :
    ∃ mark, cls = mark ++ (stripNegation cls).2 ∧ ']'.toUInt8 ∉ mark := by
  cases cls with
  | nil => exact ⟨[], rfl, not_mem_nil⟩
  | cons first cls =>
    by_cases hfr : first = '!'.toUInt8 ∨ first = '^'.toUInt8
    · refine ⟨[first], by simp [stripNegation, hfr], ?_⟩
      rcases hfr with rfl | rfl <;> decide
    · exact ⟨[], by simp [stripNegation, hfr], not_mem_nil⟩

private theorem bracket_iff (h : (stripNegation pattern).2.head? ≠ some ']'.toUInt8) {n : Bool} :
    Bracket pattern n cls rest ↔
      ∃ w, splitOnce ']'.toUInt8 pattern = some (w, rest) ∧
        stripNegation w = (n, cls) := by
  simp only [splitOnce_eq_some, Bracket]
  constructor
  · rintro ⟨hst, hne, htl⟩
    obtain ⟨m, hma, hnot⟩ := stripNegation_eq pattern
    obtain ⟨first, mo, rfl⟩ := exists_cons_of_ne_nil hne
    rw [hst] at h hma
    have hwh : m ++ first :: mo ≠ [] := by simp
    have hsl := stripNegation_append hwh (']'.toUInt8 :: rest)
    rw [append_assoc, ← hma, hst, Prod.mk.injEq, append_left_inj] at hsl
    refine ⟨m ++ first :: mo, ⟨?_, by rw [append_assoc]; exact hma⟩,
      Prod.ext hsl.1.symm hsl.2.symm⟩
    have hfr : ']'.toUInt8 ≠ first := fun heq => h (by rw [heq]; rfl)
    simpa [hnot, hfr] using htl
  · rintro ⟨w, ⟨hnot, rfl⟩, hwh⟩
    have hne : w ≠ [] := by
      rintro rfl
      exact h rfl
    rw [stripNegation_append hne, hwh] at h ⊢
    obtain ⟨m, hma, -⟩ := stripNegation_eq w
    rw [hwh] at hma
    refine ⟨rfl, ?_, fun hmem => hnot ?_⟩
    · rintro rfl
      exact h rfl
    · rw [hma]
      exact mem_append_right _ (mem_of_mem_tail hmem)

private theorem denotes_nil_iff : Denotes [] value ↔ value = [] :=
  ⟨fun h => by cases h; rfl, fun h => h ▸ .nil⟩

private theorem denotes_cons_iff : Denotes (first :: rest) value ↔
    (first = '*'.toUInt8 ∧ ∃ l s, value = l ++ s ∧ Denotes rest s) ∨
    ∃ c s, value = c :: s ∧
      ((first = '?'.toUInt8 ∧ Denotes rest s) ∨
      (first = '['.toUInt8 ∧ ∃ n cls r, Bracket rest n cls r ∧
        (Member c cls ↔ n = false) ∧ Denotes r s) ∨
      (first = '['.toUInt8 ∧ c = '['.toUInt8 ∧
        (∀ n cls r, ¬Bracket rest n cls r) ∧ Denotes rest s) ∨
      (first ∉ ['*'.toUInt8, '?'.toUInt8, '['.toUInt8] ∧ c = first ∧ Denotes rest s)) := by
  constructor
  · intro h
    cases h with
    | star l h => exact .inl ⟨rfl, l, _, rfl, h⟩
    | any c h => exact .inr ⟨c, _, rfl, .inl ⟨rfl, h⟩⟩
    | bracket hbrc hc h => exact .inr ⟨_, _, rfl, .inr (.inl ⟨rfl, _, _, _, hbrc, hc, h⟩)⟩
    | unterminated hnn h => exact .inr ⟨_, _, rfl, .inr (.inr (.inl ⟨rfl, rfl, hnn, h⟩))⟩
    | literal hc h => exact .inr ⟨_, _, rfl, .inr (.inr (.inr ⟨hc, rfl, h⟩))⟩
  · rintro (⟨rfl, l, s, rfl, h⟩ | ⟨c, s, rfl, ⟨rfl, h⟩ |
      ⟨rfl, n, cls, r, hbrc, hc, h⟩ | ⟨rfl, rfl, hnn, h⟩ | ⟨hc, rfl, h⟩⟩)
    · exact .star l h
    · exact .any c h
    · exact .bracket hbrc hc h
    · exact .unterminated hnn h
    · exact .literal hc h

private theorem denotes_star_iff : Denotes ('*'.toUInt8 :: rest) value ↔
    Denotes rest value ∨ ∃ c text, value = c :: text ∧ Denotes ('*'.toUInt8 :: rest) text := by
  constructor
  · intro h
    cases h with
    | star l h =>
      cases l with
      | nil => exact .inl h
      | cons c l => exact .inr ⟨c, _, rfl, .star l h⟩
    | literal hc => exact absurd mem_cons_self hc
  · rintro (h | ⟨c, text, rfl, h⟩)
    · exact .star [] h
    · cases h with
      | star l h => exact .star (c :: l) h
      | literal hc => exact absurd mem_cons_self hc

/-- A matcher whose test of bracket expressions is right finds what a pattern denotes, wherever the
comparison meets no closing bracket that leads a bracket expression. -/
theorem matchWith_iff {whole text : List UInt8} (hbrc : ∀ c cls, b c cls = true ↔
      (Member c (stripNegation cls).2 ↔ (stripNegation cls).1 = false))
    (h : ¬MeetsLeadingBracket whole text) (hr : Reaches whole text pattern value) :
    matchWith b pattern value = true ↔ Denotes pattern value := by
  have hlead : ∀ {rest c t}, Reaches whole text ('['.toUInt8 :: rest) (c :: t) →
      (stripNegation rest).2.head? ≠ some ']'.toUInt8 := fun hr hl => h ⟨_, _, _, hr, hl⟩
  fun_induction matchWith b pattern value with
  | case1 value => simp [denotes_nil_iff]
  | case2 rest value ihrest i =>
    have hskip : matchWith b rest value = true ↔ Denotes rest value := ihrest hr.starSkip
    rw [denotes_star_iff, Bool.or_eq_true, hskip]
    cases value with
    | nil => simp
    | cons c s => simp [i hr.starTake]
  | case3 first rest hst => simp [denotes_cons_iff, hst]
  | case4 rest c s hst ih =>
    have hrest : matchWith b rest s = true ↔ Denotes rest s := ih hr.any
    rw [hrest, denotes_cons_iff]
    simp [hst, show '?'.toUInt8 ≠ '['.toUInt8 by decide]
  | case5 rest c s hsl hst hany ih =>
    have hnn : ∀ n cls after, ¬Bracket rest n cls after := by
      intro n cls after hbrc
      obtain ⟨w, hwh, -⟩ := (bracket_iff (hlead hr)).mp hbrc
      cases hsl.symm.trans hwh
    have hrest : c = '['.toUInt8 → (matchWith b rest s = true ↔ Denotes rest s) := by
      rintro rfl
      exact ih (hr.unterminated hsl)
    rw [Bool.and_eq_true, beq_iff_eq, and_congr_right hrest, denotes_cons_iff]
    simp [hst, hany, hnn]
  | case6 rest c s w after hsl hst hany ih =>
    have hiff : ∀ n cls l', Bracket rest n cls l' ↔
        l' = after ∧ stripNegation w = (n, cls) := by
      intro n cls l'
      rw [bracket_iff (hlead hr), hsl]
      simp [eq_comm]
    rw [Bool.and_eq_true, hbrc, and_congr_right fun hc => ih (hr.bracket hsl hc), denotes_cons_iff]
    simp [hst, hany, hiff, Prod.ext_iff]
  | case7 first rest hst c s hany hon ih =>
    have hrest : c = first → (matchWith b rest s = true ↔ Denotes rest s) := by
      rintro rfl
      exact ih (hr.literal (by simp [hst, hany, hon]))
    rw [Bool.and_eq_true, beq_iff_eq, and_congr_right hrest, denotes_cons_iff]
    simp [hst, hany, hon]

end

end Rustd.Glob
