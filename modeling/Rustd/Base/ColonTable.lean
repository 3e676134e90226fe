import Rustd.Base.Text

/-!
# Tables of lines

A table that a text file keeps: one entry for every line that is neither blank nor a comment, with
the fields of the entry between colons and its key first. A later line replaces an earlier one with
the same key. New entries are appended to the text as lines; what is read afterwards also depends on
what follows the last newline of the text before, since the first new line is joined to it.
-/

namespace Rustd.Base

open List Option

def lastLine (text : List Char) : List Char := (text.splitOn '\n').getLastD []

def Blank (text : List Char) : Prop := ∀ c ∈ text, isWhitespace c = true

instance (text : List Char) : Decidable (Blank text) := List.decidableBAll _ _

theorem blank_nil : Blank [] := fun _ hc => by cases hc

private theorem splitOn_concat_last (text : List Char) :
    text.splitOn '\n' = (text.splitOn '\n').dropLast ++ [lastLine text] := by
  have hne := splitOn_ne_nil '\n' text
  rw [lastLine, getLastD_eq_getLast?, getLast?_eq_getLast_of_ne_nil hne, getD_some,
    dropLast_append_getLast hne]

private theorem splitOn_append {row : List Char} (h : '\n' ∉ row) (text : List Char) :
    (text ++ row).splitOn '\n' = (text.splitOn '\n').dropLast ++ [lastLine text ++ row] := by
  cases hcut : rsplitOnce '\n' text with
  | none =>
    have hnn := rsplitOnce_eq_none.mp hcut
    have hall : '\n' ∉ text ++ row := by
      rw [mem_append, not_or]
      exact ⟨hnn, h⟩
    rw [lastLine, splitOn_eq_singleton hnn, splitOn_eq_singleton hall]
    rfl
  | some p =>
    obtain ⟨fr, t⟩ := p
    obtain ⟨htl, rfl⟩ := rsplitOnce_eq_some.mp hcut
    have hall : '\n' ∉ t ++ row := by
      rw [mem_append, not_or]
      exact ⟨htl, h⟩
    rw [lastLine, append_assoc, cons_append, splitOn_append_cons_self, splitOn_append_cons_self,
      splitOn_eq_singleton htl, splitOn_eq_singleton hall, dropLast_concat]
    simp

private theorem splitOn_flatMap {rows : List (List Char)} (h : ∀ row ∈ rows, '\n' ∉ row) :
    (rows.flatMap (· ++ ['\n'])).splitOn '\n' = rows ++ [[]] := by
  induction rows with
  | nil => rfl
  | cons row rows ih =>
    rw [flatMap_cons, append_assoc, singleton_append, splitOn_append_cons_self,
      splitOn_eq_singleton (h row mem_cons_self),
      ih fun row hrow => h row (mem_cons_of_mem _ hrow)]
    rfl

/-! ### White space before a text -/

private theorem trimStart_append_blank (h : Blank bl) (text : List Char) :
    trimStart (bl ++ text) = trimStart text :=
  dropWhile_append_of_pos h

private theorem trimStart_append {text : List Char} (h : ¬Blank text) (rest : List Char) :
    trimStart (text ++ rest) = trimStart text ++ rest := by
  rw [trimStart, dropWhile_append, if_neg]
  · rfl
  · intro hempty
    exact h (dropWhile_eq_nil_iff.mp (List.isEmpty_iff.mp hempty))

structure ColonTable (α : Type) where
  key : α → List Char
  ofParts : List (List Char) → Option α
  key_ofParts : ∀ parts a, ofParts parts = some a → ∃ rest, rest ≠ [] ∧ parts = key a :: rest

namespace ColonTable

variable {α : Type} (f : ColonTable α)

def parse (line : List Char) : Option α :=
  if trim line = [] ∨ (trim line).head? = some '#' then none
  else f.ofParts ((trim line).splitOn ':')

def table (rows : List (List Char)) (k : List Char) : Option α :=
  rows.reverse.findSome? fun row => (f.parse row).filter fun a => decide (f.key a = k)

def read (text : List Char) : List Char → Option α := f.table (lines text)

def entries (text : List Char) : List α := (lines text).filterMap f.parse

variable {f} {a b : α} {k row text : List Char} {rows mo : List (List Char)}

private theorem parse_nil : f.parse [] = none := if_pos (.inl rfl)

private theorem parse_stripReturn (row : List Char) : f.parse (stripReturn row) = f.parse row := by
  unfold parse
  rw [trim_stripReturn]

private theorem table_append : f.table (rows ++ mo) k = (f.table mo k).or (f.table rows k) := by
  rw [table, reverse_append, findSome?_append]
  rfl

private theorem table_singleton :
    f.table [row] k = (f.parse row).filter fun a => decide (f.key a = k) := by
  rw [table, reverse_singleton, findSome?_cons]
  cases (f.parse row).filter fun a => decide (f.key a = k) with
  | none | some => rfl

private theorem table_cons :
    f.table (row :: rows) k =
      (f.table rows k).or ((f.parse row).filter fun a => decide (f.key a = k)) := by
  rw [← singleton_append, table_append, table_singleton]

theorem table_eq_some (h : f.table rows k = some a) :
    ∃ row ∈ rows, f.parse row = some a ∧ f.key a = k := by
  obtain ⟨row, hrow, hprs⟩ := exists_of_findSome?_eq_some h
  obtain ⟨hprs, hkey⟩ := filter_eq_some_iff.mp hprs
  exact ⟨row, mem_reverse.mp hrow, hprs, of_decide_eq_true hkey⟩

private theorem read_eq (text : List Char) : f.read text = f.table (text.splitOn '\n') := by
  funext k
  have hst : ∀ rows, f.table (rows.map stripReturn) k = f.table rows k := by
    intro rows
    induction rows with
    | nil => rfl
    | cons row rows ih => rw [map_cons, table_cons, table_cons, ih, parse_stripReturn]
  have hne := splitOn_ne_nil '\n' text
  have hls : (text.splitOn '\n').getLast? = some (lastLine text) := by
    rw [lastLine, getLastD_eq_getLast?, getLast?_eq_getLast_of_ne_nil hne]
    rfl
  rw [splitOn_concat_last, read, lines, table_append, table_append, hst, hls]
  congr 1
  rw [toList_some, filter_cons, filter_nil]
  split
  · rfl
  rename_i hempty
  have hnil : lastLine text = [] := by simpa using hempty
  rw [hnil, table_singleton, parse_nil]
  rfl

private theorem read_eq_or (text : List Char) (k : List Char) :
    f.read text k = ((f.parse (lastLine text)).filter fun a => decide (f.key a = k)).or
      (f.table (text.splitOn '\n').dropLast k) := by
  rw [read_eq, splitOn_concat_last, table_append, table_singleton, dropLast_concat]

private theorem read_append (hfr : '\n' ∉ x) (hro : ∀ row ∈ rows, '\n' ∉ row)
    (text : List Char) (k : List Char) :
    f.read (text ++ (x :: rows).flatMap (· ++ ['\n'])) k =
      (f.table rows k).or (((f.parse (lastLine text ++ x)).filter fun a =>
        decide (f.key a = k)).or (f.table (text.splitOn '\n').dropLast k)) := by
  have hjo : text ++ (x :: rows).flatMap (· ++ ['\n']) =
      (text ++ x) ++ '\n' :: rows.flatMap (· ++ ['\n']) := by simp
  rw [read_eq, hjo, splitOn_append_cons_self, splitOn_append hfr, splitOn_flatMap hro,
    table_append, table_append, table_append, table_singleton, table_singleton, parse_nil]
  rfl

/-! ### The key of a line -/

private theorem trimStart_of_parse (h : f.parse row = some a) :
    ':' ∉ f.key a ∧ ∃ rest, trimStart row = f.key a ++ ':' :: rest := by
  unfold parse at h
  split at h
  · cases h
  obtain ⟨rest, hrest, hprt⟩ := f.key_ofParts _ _ h
  refine ⟨not_mem_of_mem_splitOn (l := trim row) (hprt ▸ mem_cons_self), ?_⟩
  obtain ⟨snd, o, rfl⟩ := exists_cons_of_ne_nil hrest
  have htx : trim row = f.key a ++ ':' :: [':'].intercalate (snd :: o) := by
    have hjo : [':'].intercalate ((trim row).splitOn ':') = trim row := intercalate_splitOn ':'
    rw [← hjo, hprt, intercalate_cons_cons, append_assoc, singleton_append]
  obtain ⟨t, htl⟩ : trim row <+: trimStart row := rdropWhile_prefix isWhitespace (trimStart row)
  refine ⟨[':'].intercalate (snd :: o) ++ t, ?_⟩
  rw [← htl, htx, append_assoc, cons_append]

def CleanKey (k : List Char) : Prop :=
  ':' ∉ k ∧ '\n' ∉ k ∧ ∀ c ∈ k.head?, isWhitespace c = false ∧ c ≠ '#'

instance (k : List Char) : Decidable (CleanKey k) :=
  inferInstanceAs (Decidable (_ ∧ _ ∧ _))

def CleanField (text : List Char) : Prop := ':' ∉ text ∧ '\n' ∉ text

instance (text : List Char) : Decidable (CleanField text) := instDecidableAnd

theorem ofParts_of_parse (h : f.parse row = some a) (hrow : '\n' ∉ row) :
    ∃ p, f.ofParts p = some a ∧ ∀ part ∈ p, CleanField part := by
  unfold parse at h
  split at h
  · cases h
  refine ⟨_, h, fun part hpr => ⟨not_mem_of_mem_splitOn hpr, fun hmem => hrow ?_⟩⟩
  have hpc : part <:+: [':'].intercalate ((trim row).splitOn ':') := isInfix_intercalate hpr
  rw [intercalate_splitOn] at hpc
  exact (hpc.trans (trim_isInfix row)).subset hmem

theorem cleanKey_of_parse (h : f.parse row = some a) (hrow : '\n' ∉ row) : CleanKey (f.key a) := by
  obtain ⟨hco, l, hstr⟩ := trimStart_of_parse h
  have hne : '\n' ∉ trimStart row := fun hmem => hrow ((dropWhile_suffix isWhitespace).subset hmem)
  rw [hstr, mem_append, not_or] at hne
  refine ⟨hco, hne.1, fun c hc => ?_⟩
  obtain ⟨k, hk⟩ := head?_eq_some_iff.mp hc
  constructor
  · have hhd : c ∈ (trimStart row).head? := by
      rw [hstr, hk]
      rfl
    exact isWhitespace_head_trimStart hhd
  rintro rfl
  have hhd : (trim row).head? = some '#' := by
    rw [trim, hstr, trimEnd_append_cons (by decide), hk]
    rfl
  rw [parse, if_pos (.inr hhd)] at h
  cases h

/-- The line of some fields is read as these fields, the last one without white space at its end,
also when white space stands before it. -/
theorem parse_fields {bl x last : List Char}
    (hbl : Blank bl) (hfr : CleanKey x) (hm : ∀ p ∈ m, ':' ∉ p) (hls : ':' ∉ last) :
    f.parse (bl ++ [':'].intercalate (x :: m ++ [last])) =
      f.ofParts (x :: m ++ [trimEnd last]) := by
  have hjo : ∀ last : List Char, [':'].intercalate (x :: m ++ [last]) =
      [':'].intercalate (x :: m) ++ ':' :: last := by
    intro last
    rw [intercalate_concat (cons_ne_nil _ _), append_assoc, singleton_append]
  have hhd : ∀ last c, c ∈ ([':'].intercalate (x :: m) ++ ':' :: last).head? →
      isWhitespace c = false ∧ c ≠ '#' := by
    intro last c hc
    obtain ⟨rest, hrest⟩ : ∃ rest, [':'].intercalate (x :: m) ++ ':' :: last =
        x ++ ':' :: rest := by
      cases m with
      | nil => exact ⟨last, by rw [intercalate_singleton]⟩
      | cons snd m =>
        refine ⟨[':'].intercalate (snd :: m) ++ ':' :: last, ?_⟩
        rw [intercalate_cons_cons, append_assoc, append_assoc, singleton_append]
    rw [hrest] at hc
    cases hca : x with
    | nil =>
      rw [hca] at hc
      cases hc
      decide
    | cons d a' =>
      rw [hca] at hc
      cases hc
      exact hfr.2.2 c (hca ▸ rfl)
  have htri : trim (bl ++ [':'].intercalate (x :: m ++ [last])) =
      [':'].intercalate (x :: m ++ [trimEnd last]) := by
    rw [trim, trimStart_append_blank hbl, hjo, hjo,
      trimStart_eq_self_iff.mpr fun c hc => (hhd last c hc).1, trimEnd_append_cons (by decide)]
  have hcut : ([':'].intercalate (x :: m ++ [trimEnd last])).splitOn ':' =
      x :: m ++ [trimEnd last] := by
    refine splitOn_intercalate ':' (fun p hpr => ?_) (cons_ne_nil _ _)
    rcases mem_append.mp hpr with hpr | hpr
    · rcases mem_cons.mp hpr with rfl | hpr
      · exact hfr.1
      · exact hm p hpr
    · rw [mem_singleton.mp hpr]
      have hend := rdropWhile_prefix isWhitespace last
      exact fun hmem => hls (hend.subset hmem)
  rw [parse, htri, if_neg, hcut]
  rw [hjo, not_or]
  exact ⟨by simp, fun h => (hhd _ '#' h).2 rfl⟩

private theorem not_blank_of_parse (h : f.parse row = some a) : ¬Blank row := by
  intro hbl
  have hnil : trim row = [] := by
    rw [trim, trimStart, dropWhile_eq_nil_iff.mpr hbl]
    rfl
  rw [parse, if_pos (.inl hnil)] at h
  cases h

private theorem key_append (h : f.parse row = some a)
    (hrest : f.parse (row ++ l) = some b) : f.key b = f.key a := by
  obtain ⟨ha, r, hrow⟩ := trimStart_of_parse h
  obtain ⟨hb, r', hjn⟩ := trimStart_of_parse hrest
  rw [trimStart_append (not_blank_of_parse h), hrow, append_assoc, cons_append] at hjn
  rw [← takeWhile_separator hb r', ← hjn, takeWhile_separator ha]

variable {line : α → List Char} {xs : List α}

/-! ### Reading what was appended -/

private theorem table_of_forall_ne
    (hli : ∀ a ∈ xs, ∃ b, f.parse (line a) = some b ∧ f.key b = f.key a)
    (hk : ∀ a ∈ xs, f.key a ≠ k) : f.table (xs.map line) k = none := by
  by_contra hne
  obtain ⟨b, hb⟩ := ne_none_iff_exists'.mp hne
  obtain ⟨row, hrow, hprs, hkey⟩ := table_eq_some hb
  obtain ⟨v, hother, rfl⟩ := List.mem_map.mp hrow
  obtain ⟨b', hprs', hkey'⟩ := hli v hother
  obtain rfl : b' = b := some.inj (hprs'.symm.trans hprs)
  exact hk v hother (hkey'.symm.trans hkey)

private theorem table_of_mem (hite : xs.Pairwise fun a b => f.key a ≠ f.key b)
    (hli : ∀ a ∈ xs, ∃ b, f.parse (line a) = some b ∧ f.key b = f.key a) (ha : a ∈ xs) :
    f.table (xs.map line) (f.key a) = f.parse (line a) := by
  induction xs with
  | nil => cases ha
  | cons x xs ih =>
    rw [pairwise_cons] at hite
    rw [map_cons, table_cons]
    rcases mem_cons.mp ha with rfl | ha
    · have hnn : f.table (xs.map line) (f.key a) = none :=
        table_of_forall_ne (fun v hv => hli v (mem_cons_of_mem _ hv)) fun v hv => (hite.1 v hv).symm
      obtain ⟨b, hprs, hkey⟩ := hli a mem_cons_self
      rw [hnn, hprs]
      simp [hkey]
    · have hrest := ih hite.2 (fun b hb => hli b (mem_cons_of_mem _ hb)) ha
      obtain ⟨b, hprs, -⟩ := hli a (mem_cons_of_mem _ ha)
      rw [hrest, hprs]
      rfl

/-- New entries with new keys are appended: the text is read as a given table exactly when each of
the new lines is read as the table says, the first one joined to what followed the last newline,
and the table has kept all other entries. -/
theorem read_append_eq_iff (f : ColonTable α) (text : List Char) (line : α → List Char)
    (pl : List Char → Option α) (hnew : ∀ a ∈ x :: xs, f.read text (f.key a) = none)
    (hds : (x :: xs).Pairwise fun a b => f.key a ≠ f.key b) (hro : ∀ a ∈ x :: xs, '\n' ∉ line a)
    (hli : ∀ a ∈ xs, ∃ b, f.parse (line a) = some b ∧ f.key b = f.key a)
    (hpln : ∃ p, pl (f.key x) = some p ∧ f.key p = f.key x) :
    f.read (text ++ ((x :: xs).map line).flatMap (· ++ ['\n'])) = pl ↔
      f.parse (lastLine text ++ line x) = pl (f.key x) ∧
      (∀ a ∈ xs, f.parse (line a) = pl (f.key a)) ∧
      ∀ k, (∀ a ∈ x :: xs, f.key a ≠ k) → pl k = f.read text k := by
  rw [pairwise_cons] at hds
  rw [forall_mem_cons] at hro
  obtain ⟨p, hp, hkey⟩ := hpln
  have hrea : ∀ k, f.read (text ++ ((x :: xs).map line).flatMap (· ++ ['\n'])) k =
      (f.table (xs.map line) k).or (((f.parse (lastLine text ++ line x)).filter fun a =>
        decide (f.key a = k)).or (f.table (text.splitOn '\n').dropLast k)) := by
    intro k
    rw [map_cons]
    refine read_append hro.1 (fun row hrow => ?_) text k
    obtain ⟨a, ha, rfl⟩ := List.mem_map.mp hrow
    exact hro.2 a ha
  -- the entries before the last line have none of the new keys
  have hfn : f.table (text.splitOn '\n').dropLast (f.key x) = none := by
    have hnn := hnew x mem_cons_self
    rw [read_eq_or, or_eq_none_iff] at hnn
    exact hnn.2
  have hite : ∀ a ∈ xs, f.table (xs.map line) (f.key a) = f.parse (line a) :=
    fun a ha => table_of_mem hds.2 hli ha
  have hos : ∀ k, (∀ a ∈ xs, f.key a ≠ k) → f.table (xs.map line) k = none :=
    fun k hk => table_of_forall_ne hli hk
  -- once the joined line is the planned entry, the last line was no entry of its own
  have hls : f.parse (lastLine text ++ line x) = some p → f.parse (lastLine text) = none := by
    intro hjn
    by_contra hne
    obtain ⟨v, hv⟩ := ne_none_iff_exists'.mp hne
    have hsa := key_append hv hjn
    have hnn := hnew x mem_cons_self
    rw [read_eq_or, or_eq_none_iff, hv, ← hkey, hsa] at hnn
    simp at hnn
  constructor
  · intro h
    have hjn : f.parse (lastLine text ++ line x) = some p := by
      have hfr := congrFun h (f.key x)
      rw [hrea, hos _ fun a ha => (hds.1 a ha).symm, hfn, hp, none_or,
        or_none, filter_eq_some_iff] at hfr
      exact hfr.1
    refine ⟨hjn.trans hp.symm, fun a ha => ?_, fun k hk => ?_⟩
    · obtain ⟨b, hb, -⟩ := hli a ha
      rw [← h, hrea, hite a ha, hb]
      rfl
    rw [forall_mem_cons] at hk
    have hne : decide (f.key p = k) = false := decide_eq_false (hkey.symm ▸ hk.1)
    rw [← h, hrea, hos k hk.2, hjn, read_eq_or, hls hjn, filter_some, hne]
    rfl
  · rintro ⟨hjn, hrest, hkp⟩
    rw [hp] at hjn
    funext k
    rw [hrea]
    by_cases hfr : f.key x = k
    · subst hfr
      rw [hos _ fun a ha => (hds.1 a ha).symm, hjn, hp, filter_some, decide_eq_true hkey]
      rfl
    by_cases hmem : ∃ a ∈ xs, f.key a = k
    · obtain ⟨a, ha, rfl⟩ := hmem
      obtain ⟨b, hb, -⟩ := hli a ha
      rw [hite a ha, ← hrest a ha, hb]
      rfl
    · push Not at hmem
      have hne : decide (f.key p = k) = false := decide_eq_false (hkey.symm ▸ hfr)
      rw [hos k hmem, hjn, hkp k (forall_mem_cons.mpr ⟨hfr, hmem⟩), read_eq_or,
        hls hjn, filter_some, hne]
      rfl

end ColonTable

end Rustd.Base
