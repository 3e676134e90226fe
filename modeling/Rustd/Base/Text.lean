import Rustd.Base.Bytes

/-!
# Cutting texts

A text is a list of letters. `splitOnce` and `rsplitOnce` cut a text at the first and at the last
separator; the cut at every separator is `List.splitOn`. `trim` removes white space from both
ends, `lines` are the lines of a text with the ends of line `\n` and `\r\n`, and `parseUnsigned`
reads a decimal number below a limit.
-/

namespace Rustd.Base

open List Option

def utf8 (text : List Char) : List UInt8 := text.flatMap String.utf8EncodeChar

section

variable {α : Type} [DecidableEq α] {x : α} {text be after : List α}

def splitOnce (x : α) (text : List α) : Option (List α × List α) :=
  match text.dropWhile (· != x) with
  | [] => none
  | _ :: after => some (text.takeWhile (· != x), after)

def rsplitOnce (x : α) (text : List α) : Option (List α × List α) :=
  (splitOnce x text.reverse).map fun parts => (parts.2.reverse, parts.1.reverse)

theorem splitOnce_eq_some :
    splitOnce x text = some (be, after) ↔ x ∉ be ∧ text = be ++ x :: after := by
  constructor
  · intro h
    rcases split_cases (x := x) text with ⟨-, -, hdr⟩ | ⟨l, hnn, htx, hdr⟩
    · simp [splitOnce, hdr] at h
    simp only [splitOnce, hdr, some.injEq, Prod.mk.injEq] at h
    obtain ⟨rfl, rfl⟩ := h
    exact ⟨hnn, htx⟩
  · rintro ⟨hnn, rfl⟩
    simp only [splitOnce, dropWhile_separator hnn, takeWhile_separator hnn]

theorem splitOnce_eq_none : splitOnce x text = none ↔ x ∉ text := by
  rcases split_cases (x := x) text with ⟨hnn, -, hdr⟩ | ⟨l, hnn, htx, hdr⟩
  · simp [splitOnce, hdr, hnn]
  · have hmem : x ∈ text := by rw [htx]; simp
    simp [splitOnce, hdr, hmem]

theorem rsplitOnce_eq_some :
    rsplitOnce x text = some (be, after) ↔ x ∉ after ∧ text = be ++ x :: after := by
  rw [rsplitOnce, map_eq_some_iff]
  constructor
  · rintro ⟨⟨first, rest⟩, h, heq⟩
    obtain ⟨hnn, htx⟩ := splitOnce_eq_some.mp h
    obtain ⟨rfl, rfl⟩ := Prod.mk.injEq .. ▸ heq
    refine ⟨by simpa using hnn, ?_⟩
    rw [← reverse_reverse text, htx]
    simp
  · rintro ⟨hnn, rfl⟩
    refine ⟨(after.reverse, be.reverse), splitOnce_eq_some.mpr ⟨by simpa using hnn, ?_⟩, ?_⟩
    · simp
    · simp

theorem rsplitOnce_eq_none : rsplitOnce x text = none ↔ x ∉ text := by
  rw [rsplitOnce, map_eq_none_iff, splitOnce_eq_none, mem_reverse]

end

section

def isWhitespace (c : Char) : Bool :=
  let n := c.toNat
  (9 ≤ n && n ≤ 13) || n == 0x20 || n == 0x85 || n == 0xa0 || n == 0x1680 ||
    (0x2000 ≤ n && n ≤ 0x200a) || n == 0x2028 || n == 0x2029 || n == 0x202f || n == 0x205f ||
    n == 0x3000

def trimStart (text : List Char) : List Char := text.dropWhile isWhitespace

def trimEnd (text : List Char) : List Char := text.rdropWhile isWhitespace

def trim (text : List Char) : List Char := trimEnd (trimStart text)

variable {text : List Char} {c : Char}

theorem trimStart_eq_self_iff :
    trimStart text = text ↔ ∀ c ∈ text.head?, isWhitespace c = false := by
  cases text with
  | nil => simp [trimStart]
  | cons c text => simp [trimStart, dropWhile_eq_self_iff]

theorem trimEnd_eq_self_iff :
    trimEnd text = text ↔ ∀ c ∈ text.getLast?, isWhitespace c = false := by
  rw [trimEnd, rdropWhile_eq_self_iff]
  cases text with
  | nil => simp
  | cons c text => simp [getLast?_eq_getLast_of_ne_nil]

private theorem trimStart_trimEnd (h : trimStart text = text) :
    trimStart (trimEnd text) = trimEnd text := by
  rw [trimStart_eq_self_iff] at h ⊢
  obtain ⟨t, htl⟩ := rdropWhile_prefix isWhitespace text
  intro c hc
  apply h c
  rw [← htl]
  cases hstr : trimEnd text with
  | nil => rw [hstr] at hc; simp at hc
  | cons d l =>
    rw [hstr] at hc
    rw [trimEnd] at hstr
    rw [hstr]
    simpa using hc

theorem trim_eq_self_iff : trim text = text ↔ trimStart text = text ∧ trimEnd text = text := by
  constructor
  · intro h
    have hln : (trimStart text).length = text.length := by
      have hpre := rdropWhile_prefix isWhitespace (trimStart text)
      have hend := hpre.length_le
      have hstr := (dropWhile_suffix (p := isWhitespace) (l := text)).length_le
      have htri := congrArg List.length h
      rw [trim, trimEnd] at htri
      rw [trimStart] at hend htri ⊢
      omega
    have hstr : trimStart text = text :=
      (dropWhile_suffix (p := isWhitespace) (l := text)).eq_of_length hln
    refine ⟨hstr, ?_⟩
    rw [trim, hstr] at h
    exact h
  · rintro ⟨hstr, hend⟩
    rw [trim, hstr, hend]

theorem trim_trim (text : List Char) : trim (trim text) = trim text := by
  have hstr : trimStart (trimStart text) = trimStart text := dropWhile_idempotent isWhitespace text
  refine trim_eq_self_iff.mpr ⟨trimStart_trimEnd hstr, ?_⟩
  exact rdropWhile_idempotent isWhitespace (trimStart text)

private theorem trim_concat (h : isWhitespace c = true) (text : List Char) :
    trim (text ++ [c]) = trim text := by
  have hend : ∀ l, trimEnd (l ++ [c]) = trimEnd l := by
    intro l
    rw [trimEnd, trimEnd, rdropWhile_concat, if_pos h]
  by_cases hall : ∀ d ∈ text, isWhitespace d = true
  · have hnil : trimStart text = [] := dropWhile_eq_nil_iff.mpr hall
    have hnil' : trimStart (text ++ [c]) = [] := by
      refine dropWhile_eq_nil_iff.mpr fun d hd => ?_
      rcases mem_append.mp hd with hd | hd
      · exact hall d hd
      · rw [mem_singleton.mp hd, h]
    rw [trim, trim, hnil, hnil']
  · have hstr : trimStart (text ++ [c]) = trimStart text ++ [c] := by
      rw [trimStart, dropWhile_append, if_neg]
      · rfl
      · intro hempty
        exact hall (dropWhile_eq_nil_iff.mp (List.isEmpty_iff.mp hempty))
    rw [trim, trim, hstr, hend]

theorem trimEnd_append_cons (h : isWhitespace c = false) (be after : List Char) :
    trimEnd (be ++ c :: after) = be ++ c :: trimEnd after := by
  induction after using List.reverseRecOn with
  | nil =>
    rw [trimEnd, rdropWhile_concat, if_neg (by rw [h]; simp)]
    rfl
  | append_singleton after d ih =>
    have has : be ++ c :: (after ++ [d]) = (be ++ c :: after) ++ [d] := by simp
    rw [has, trimEnd, rdropWhile_concat, trimEnd, rdropWhile_concat]
    split
    · exact ih
    · exact has.symm

theorem isWhitespace_head_trimStart (h : c ∈ (trimStart text).head?) : isWhitespace c = false := by
  have hsf : trimStart (trimStart text) = trimStart text := dropWhile_idempotent isWhitespace text
  exact trimStart_eq_self_iff.mp hsf c h

theorem trim_isInfix (text : List Char) : trim text <:+: text := by
  have hend : trim text <+: trimStart text := rdropWhile_prefix isWhitespace (trimStart text)
  exact hend.isInfix.trans (dropWhile_suffix isWhitespace).isInfix

end

section

def stripReturn (line : List Char) : List Char :=
  if line.getLast? = some '\r' then line.dropLast else line

/-- `str::lines`. -/
def lines (text : List Char) : List (List Char) :=
  let pieces := text.splitOn '\n'
  pieces.dropLast.map stripReturn ++ (pieces.getLast?.toList.filter (· != []))

variable {row text : List Char} {rs : List (List Char)}

theorem not_mem_of_mem_splitOn {α : Type} [DecidableEq α] {x : α} {l piece : List α}
    (h : piece ∈ l.splitOn x) : x ∉ piece := by
  induction hn : l.length using Nat.strongRecOn generalizing l with
  | _ n ih =>
    rcases split_cases (x := x) l with ⟨hnn, -, -⟩ | ⟨t, hnn, hl, -⟩
    · rw [splitOn_eq_singleton hnn, mem_singleton] at h
      rw [h]
      exact hnn
    rw [hl, splitOn_append_cons_self, splitOn_eq_singleton hnn, singleton_append, mem_cons] at h
    rcases h with rfl | h
    · exact hnn
    have hln : t.length < n := by
      rw [← hn, hl, length_append, length_cons]
      omega
    exact ih t.length hln h rfl

variable {parts : List (List Char)} {c : Char}

theorem isInfix_intercalate {sep p : List Char} (h : p ∈ parts) : p <:+: sep.intercalate parts := by
  induction parts with
  | nil => cases h
  | cons a l ih =>
    cases l with
    | nil =>
      obtain rfl := mem_singleton.mp h
      exact ⟨[], [], by rw [nil_append, append_nil, intercalate_singleton]⟩
    | cons b l =>
      rw [intercalate_cons_cons]
      rcases mem_cons.mp h with rfl | h
      · rw [append_assoc]
        exact (prefix_append _ _).isInfix
      · exact (ih h).trans (suffix_append _ _).isInfix

theorem not_mem_intercalate (hs : c ≠ s) (h : ∀ p ∈ parts, c ∉ p) : c ∉ [s].intercalate parts := by
  induction parts with
  | nil => exact not_mem_nil
  | cons a l ih =>
    have hrest := ih fun p hpr => h p (mem_cons_of_mem _ hpr)
    have hfr := h a mem_cons_self
    cases l with
    | nil => rwa [intercalate_singleton]
    | cons b l =>
      rw [intercalate_cons_cons, append_assoc, singleton_append, mem_append, mem_cons]
      exact fun hmem => hmem.elim hfr fun hmem => hmem.elim hs hrest

theorem intercalate_concat {sep last : List Char} (h : parts ≠ []) :
    sep.intercalate (parts ++ [last]) = sep.intercalate parts ++ sep ++ last := by
  induction parts with
  | nil => exact absurd rfl h
  | cons a l ih =>
    cases l with
    | nil => rw [singleton_append, intercalate_cons_cons, intercalate_singleton,
        intercalate_singleton]
    | cons b l =>
      rw [cons_append, cons_append, intercalate_cons_cons, ← cons_append,
        ih (cons_ne_nil _ _), intercalate_cons_cons]
      simp only [append_assoc]

private theorem lines_cons (h : '\n' ∉ row) (text : List Char) :
    lines (row ++ '\n' :: text) = stripReturn row :: lines text := by
  have hne := splitOn_ne_nil '\n' text
  simp only [lines, splitOn_append_cons_self, splitOn_eq_singleton h, singleton_append]
  rw [dropLast_cons_of_ne_nil hne, map_cons, cons_append, getLast?_cons_of_ne_nil hne]

private theorem lines_flatMap_append (h : ∀ row ∈ rs, '\n' ∉ row) (text : List Char) :
    lines (rs.flatMap (· ++ ['\n']) ++ text) = rs.map stripReturn ++ lines text := by
  induction rs with
  | nil => rfl
  | cons row rs ih =>
    rw [flatMap_cons, append_assoc, append_assoc, singleton_append,
      lines_cons (h row mem_cons_self), ih fun row hrow => h row (mem_cons_of_mem _ hrow)]
    rfl

private theorem lines_nil : lines [] = [] := rfl

theorem lines_flatMap (h : ∀ row ∈ rs, '\n' ∉ row) :
    lines (rs.flatMap (· ++ ['\n'])) = rs.map stripReturn := by
  have hlines := lines_flatMap_append h []
  rwa [append_nil, lines_nil, append_nil] at hlines

private theorem not_mem_of_mem_stripReturn (h : c ∉ row) : c ∉ stripReturn row := by
  unfold stripReturn
  split
  · exact fun hmem => h (dropLast_subset _ hmem)
  · exact h

theorem newline_not_mem_of_mem_lines (h : row ∈ lines text) : '\n' ∉ row := by
  simp only [lines, mem_append, List.mem_map, mem_filter, mem_toList] at h
  rcases h with ⟨p, hpc, rfl⟩ | ⟨hpc, -⟩
  · exact not_mem_of_mem_stripReturn (not_mem_of_mem_splitOn (dropLast_subset _ hpc))
  · exact not_mem_of_mem_splitOn (mem_of_getLast? hpc)

theorem trim_stripReturn (row : List Char) : trim (stripReturn row) = trim row := by
  unfold stripReturn
  split
  · next hls =>
    obtain ⟨i, rfl⟩ := getLast?_eq_some_iff.mp hls
    rw [dropLast_concat, trim_concat (by decide)]
  · rfl

theorem stripReturn_append_cons (h : c ≠ '\r') (be : List Char) :
    stripReturn (be ++ c :: row) = be ++ c :: stripReturn row := by
  cases row with
  | nil => simp [stripReturn, h]
  | cons d row =>
    have hls : (be ++ c :: d :: row).getLast? = (d :: row).getLast? := by
      rw [getLast?_append_of_ne_nil _ (cons_ne_nil _ _), getLast?_cons_of_ne_nil (cons_ne_nil _ _)]
    unfold stripReturn
    rw [hls]
    split
    · rw [dropLast_append_of_ne_nil (cons_ne_nil _ _), dropLast_cons_of_ne_nil (cons_ne_nil _ _)]
    · rfl

end

section

def decimal (n : Nat) : List Char := Nat.toDigits 10 n

def parseUnsigned (limit : Nat) (text : List Char) : Option Nat :=
  let digits := match text with
    | '+' :: digits => digits
    | _ => text
  if digits.isEmpty || !digits.all Char.isDigit then none
  else
    let n := Nat.ofDigitChars 10 digits 0
    if n < limit then some n else none

variable {c : Char} {n : Nat}

theorem isDigit_of_mem_decimal (h : c ∈ decimal n) : c.isDigit = true :=
  Nat.isDigit_of_mem_toDigits (by decide) (by decide) h

theorem parseUnsigned_decimal (h : n < l) : parseUnsigned l (decimal n) = some n := by
  have hne : decimal n ≠ [] := Nat.toDigits_ne_nil
  have hdi : (decimal n).all Char.isDigit = true :=
    List.all_eq_true.mpr fun c hc => isDigit_of_mem_decimal hc
  have hpl : ∀ digits, decimal n ≠ '+' :: digits := by
    intro digits heq
    have := isDigit_of_mem_decimal (heq ▸ mem_cons_self : '+' ∈ decimal n)
    revert this
    decide
  have hva : Nat.ofDigitChars 10 (decimal n) 0 = n := Nat.ofDigitChars_ten_toDigits
  unfold parseUnsigned
  split
  · next digits heq => exact absurd heq (hpl digits)
  · simp [hne, hdi, hva, h]

theorem not_isWhitespace_of_isDigit (h : c.isDigit = true) : isWhitespace c = false := by
  obtain ⟨hlow, hhg⟩ : 48 ≤ c.toNat ∧ c.toNat ≤ 57 := by
    simpa [Char.isDigit, UInt32.le_iff_toNat_le] using h
  simp only [isWhitespace, Bool.or_eq_false_iff, Bool.and_eq_false_iff, decide_eq_false_iff_not,
    beq_eq_false_iff_ne]
  omega

theorem not_isWhitespace_of_mem_decimal (h : c ∈ decimal n) : isWhitespace c = false :=
  not_isWhitespace_of_isDigit (isDigit_of_mem_decimal h)

theorem trim_eq_self_of_forall {text : List Char} (h : ∀ c ∈ text, isWhitespace c = false) :
    trim text = text := by
  refine trim_eq_self_iff.mpr ⟨trimStart_eq_self_iff.mpr ?_, trimEnd_eq_self_iff.mpr ?_⟩
  · intro c hc
    exact h c (mem_of_mem_head? hc)
  · intro c hc
    exact h c (mem_of_getLast? hc)

end

end Rustd.Base
