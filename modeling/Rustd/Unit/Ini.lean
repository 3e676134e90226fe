import Rustd.Base.Run
import Rustd.Base.Text

/-!
# Unit files

`src/unit/ini.rs`: the lines of a unit file are section headers, assignments, comments and blank
lines. A value that ends with a backslash is continued on the next line. A comment between the lines
of a value takes a backslash of it along, so that the value may end there
(`comment_ends_continued_value`); every other comment can be left out.
-/

namespace Rustd.Unit

open Base

/-- `RawEntry` of `src/unit/ini.rs:11`. -/
structure RawEntry where
  sectionName : List Char
  key : List Char
  value : List Char
  line : Nat
  deriving DecidableEq

/-- An entry without its line number. -/
def RawEntry.assignment (e : RawEntry) : List Char × List Char × List Char :=
  (e.sectionName, e.key, e.value)

/-- The variables of the loops of `parse_unit_text`. A value is open while the inner loop reads on,
that is while it ends with a backslash. -/
structure Parser where
  current : List Char
  number : Nat
  opened : Option (List Char × List Char × Nat)
  entries : List RawEntry

def isComment (line : List Char) : Bool := line.head? = some '#' || line.head? = some ';'

namespace Parser

def start : Parser := ⟨[], 1, none, []⟩

variable (p : Parser) (key value : List Char) (line : Nat)

/-- The entry of a complete value. -/
def close : Parser :=
  let entry := if p.current.isEmpty || key.isEmpty then []
    else [⟨p.current, key, trim value, line⟩]
  { p with opened := none, entries := p.entries ++ entry }

/-- The test of the inner loop. -/
def extend : Parser :=
  if value.getLast? = some '\\' then { p with opened := some (key, value, line) }
  else p.close key value line

/-- One line. A line inside of a value loses its white space, a comment leaves nothing; in either
case the backslash is gone. -/
def step (line : List Char) : Parser :=
  let trimmed := trim line
  let next := { p with number := p.number + 1 }
  match p.opened with
  | some (key, value, first) =>
    next.extend key (value.dropLast ++ if isComment trimmed then [] else trimmed) first
  | none =>
    if trimmed.isEmpty || isComment trimmed then next
    else if trimmed.head? = some '[' then
      let inner := trimmed.tail
      if inner.getLast? = some ']' then { next with current := trim inner.dropLast } else next
    else
      match splitOnce '=' trimmed with
      | some (key, value) => next.extend (trim key) value p.number
      | none => next

def finish : List RawEntry :=
  match p.opened with
  | some (key, value, line) => (p.close key value.dropLast line).entries
  | none => p.entries

structure Alike (p q : Parser) : Prop where
  current : p.current = q.current
  opened : p.opened.map (fun o => (o.1, o.2.1)) = q.opened.map (fun o => (o.1, o.2.1))
  entries : p.entries.map RawEntry.assignment = q.entries.map RawEntry.assignment

variable {p q : Parser}

theorem Alike.close (h : Alike p q) (key value : List Char) (n n' : Nat) :
    Alike (p.close key value n) (q.close key value n') := by
  refine ⟨h.current, rfl, ?_⟩
  simp only [Parser.close, h.current, List.map_append, h.entries]
  split <;> rfl

theorem Alike.extend (h : Alike p q) (key value : List Char) (n n' : Nat) :
    Alike (p.extend key value n) (q.extend key value n') := by
  unfold Parser.extend
  split
  · exact ⟨h.current, rfl, h.entries⟩
  · exact h.close key value n n'

private theorem Alike.opened_cases (h : Alike p q) :
    (∃ key value n n', p.opened = some (key, value, n) ∧ q.opened = some (key, value, n')) ∨
      p.opened = none ∧ q.opened = none := by
  have hopn := h.opened
  cases hp : p.opened <;> cases hq : q.opened <;> simp_all [Prod.ext_iff]

theorem Alike.step (h : Alike p q) (line : List Char) : Alike (p.step line) (q.step line) := by
  rcases h.opened_cases with ⟨key, value, n, n', hp, hq⟩ | ⟨hp, hq⟩
  · simp only [Parser.step, hp, hq]
    apply Alike.extend
    exact ⟨h.current, rfl, h.entries⟩
  have hnx : ∀ c i j, Alike ⟨c, i, none, p.entries⟩ ⟨c, j, none, q.entries⟩ :=
    fun _ _ _ => ⟨rfl, rfl, h.entries⟩
  simp only [Parser.step, hp, hq, h.current]
  split_ifs
  · exact hnx _ _ _
  · exact hnx _ _ _
  · exact hnx _ _ _
  split
  · exact (hnx _ _ _).extend _ _ _ _
  · exact hnx _ _ _

theorem Alike.finish (h : Alike p q) :
    p.finish.map RawEntry.assignment = q.finish.map RawEntry.assignment := by
  rcases h.opened_cases with ⟨key, value, n, n', hp, hq⟩ | ⟨hp, hq⟩
  · simp only [Parser.finish, hp, hq]
    exact (h.close _ _ _ _).entries
  · simp only [Parser.finish, hp, hq]
    exact h.entries

theorem Alike.run (h : Alike p q) (rs : List (List Char)) :
    Alike (run Parser.step p rs) (run Parser.step q rs) := by
  induction rs generalizing p q with
  | nil => exact h
  | cons row rs ih => exact ih (h.step row)

private theorem extend_opened (p : Parser) (o : Option (List Char × List Char × Nat))
    (key value : List Char) (n : Nat) :
    extend { p with opened := o } key value n = p.extend key value n := by
  simp only [extend, close]

private theorem continued_extend (p : Parser) (key value : List Char) (n : Nat) :
    ∀ o ∈ (p.extend key value n).opened, o.2.1.getLast? = some '\\' := by
  intro o ho
  unfold Parser.extend at ho
  split at ho
  · next hlast =>
    cases ho
    exact hlast
  · cases ho

/-- The value that a run leaves open ends with a backslash. -/
theorem continued_run (rs : List (List Char)) :
    ∀ o ∈ (run Parser.step .start rs).opened, o.2.1.getLast? = some '\\' := by
  induction rs using List.reverseRecOn with
  | nil => simp [start]
  | append_singleton rs line ih =>
    rw [run_append, run_cons, run_nil]
    generalize run Parser.step .start rs = p at ih
    simp only [Parser.step]
    split
    · exact continued_extend _ _ _ _
    · next hnone =>
      split_ifs
      · simpa using ih
      · simpa using ih
      · simpa using ih
      split
      · exact continued_extend _ _ _ _
      · simpa using ih

private theorem prefix_close (p : Parser) (key value : List Char) (n : Nat) :
    p.entries <+: (p.close key value n).entries := List.prefix_append _ _

private theorem prefix_extend (p : Parser) (key value : List Char) (n : Nat) :
    p.entries <+: (p.extend key value n).entries := by
  unfold Parser.extend
  split
  · exact List.prefix_rfl
  · exact p.prefix_close key value n

private theorem prefix_step (p : Parser) (line : List Char) :
    p.entries <+: (p.step line).entries := by
  simp only [Parser.step]
  split
  · exact prefix_extend { p with number := p.number + 1 } _ _ _
  split_ifs
  · exact List.prefix_rfl
  · exact List.prefix_rfl
  · exact List.prefix_rfl
  split
  · exact prefix_extend { p with number := p.number + 1 } _ _ _
  · exact List.prefix_rfl

/-- Entries stay. -/
theorem prefix_finish (p : Parser) (rs : List (List Char)) :
    p.entries <+: (run Parser.step p rs).finish := by
  induction rs generalizing p with
  | nil =>
    simp only [run_nil, Parser.finish]
    split
    · exact p.prefix_close _ _ _
    · exact List.prefix_rfl
  | cons line rs ih => exact (p.prefix_step line).trans (ih (p.step line))

end Parser

/-! ### Values over several lines -/

/-- What a line adds to an open value. -/
def added (line : List Char) : List Char := if isComment (trim line) then [] else trim line

/-- The value that a value and the lines after it give. -/
def completed (value : List Char) : List (List Char) → List Char
  | [] => if value.getLast? = some '\\' then value.dropLast else value
  | line :: rest =>
    if value.getLast? = some '\\' then completed (value.dropLast ++ added line) rest else value

/-- So many backslashes at the end of a value are used up, one by each blank line or comment, before
a line adds text to the value. Lines of backslashes only add to them, and the end of the file takes
one. -/
def UsedUp : Nat → List (List Char) → Prop
  | 0, _ => True
  | k + 1, [] => k = 0
  | k + 1, line :: rest =>
    if added line = [] then UsedUp k rest
    else (∀ c ∈ added line, c = '\\') ∧ UsedUp (k + (added line).length) rest

instance UsedUp.decidable : (k : Nat) → (rest : List (List Char)) → Decidable (UsedUp k rest)
  | 0, _ => isTrue (by simp [UsedUp])
  | k + 1, [] => inferInstanceAs (Decidable (k = 0))
  | k + 1, line :: rest =>
    have := UsedUp.decidable k rest
    have := UsedUp.decidable (k + (added line).length) rest
    inferInstanceAs (Decidable (if added line = [] then UsedUp k rest
      else (∀ c ∈ added line, c = '\\') ∧ UsedUp (k + (added line).length) rest))

/-- The number of backslashes at the end of a value. -/
def backslashes (value : List Char) : Nat := (value.reverse.takeWhile (· = '\\')).length

/-- The lines use up the backslashes of the open value. -/
def Parser.Spent (p : Parser) (rest : List (List Char)) : Prop :=
  ∀ o ∈ p.opened, UsedUp (backslashes o.2.1) rest

/-- The open value becomes an entry: it stands in a section and has a key. -/
def Parser.Keeps (p : Parser) : Prop := ∀ o ∈ p.opened, p.current ≠ [] ∧ o.1 ≠ []

instance (p : Parser) (rest : List (List Char)) : Decidable (p.Spent rest) :=
  inferInstanceAs (Decidable (∀ o ∈ p.opened, _))

instance (p : Parser) : Decidable p.Keeps := inferInstanceAs (Decidable (∀ o ∈ p.opened, _))

private theorem UsedUp.pred {k : Nat} {rest : List (List Char)} (h : UsedUp (k + 1) rest) :
    UsedUp k rest := by
  induction rest generalizing k with
  | nil =>
    obtain rfl : k = 0 := h
    trivial
  | cons line rest ih =>
    cases k with
    | zero => trivial
    | succ k =>
      unfold UsedUp at h ⊢
      split_ifs at h ⊢ with hadded
      · exact ih h
      · exact ⟨h.1, ih (by rw [Nat.add_right_comm]; exact h.2)⟩

section

variable {w : List Char}

private theorem getLast?_backslashes (k : Nat) :
    (w ++ List.replicate (k + 1) '\\').getLast? = some '\\' ∧
      (w ++ List.replicate (k + 1) '\\').dropLast = w ++ List.replicate k '\\' := by
  rw [List.replicate_succ', ← List.append_assoc]
  simp

private theorem exists_backslashes (value : List Char) :
    ∃ w, value = w ++ List.replicate (backslashes value) '\\' ∧ w.getLast? ≠ some '\\' := by
  induction value using List.reverseRecOn with
  | nil => exact ⟨[], rfl, by simp⟩
  | append_singleton value c ih =>
    by_cases hc : c = '\\'
    · obtain ⟨w, hvalue, hw⟩ := ih
      refine ⟨w, ?_, hw⟩
      simp only [backslashes, List.reverse_append, List.reverse_singleton, List.singleton_append,
        List.takeWhile_cons, hc, decide_true, if_true, List.length_cons, List.replicate_succ',
        ← List.append_assoc]
      exact congrArg (· ++ ['\\']) hvalue
    · exact ⟨value ++ [c], by simp [backslashes, hc], by simpa using hc⟩

/-- What stands before a letter that is no backslash plays no part. -/
theorem completed_append {x : Char} (hx : x ≠ '\\') (tail : List Char) (rest : List (List Char)) :
    ∃ z, ∀ u, completed (u ++ x :: tail) rest = u ++ x :: z := by
  have hlast : ∀ (tail : List Char) c, (x :: (tail ++ [c])).getLast? = some c := by
    intro tail c
    rw [← List.cons_append, List.getLast?_concat]
  have hinit : ∀ (tail : List Char) c, (x :: (tail ++ [c])).dropLast = x :: tail := by
    intro tail c
    rw [← List.cons_append, List.dropLast_concat]
  induction rest generalizing tail with
  | nil =>
    rcases List.eq_nil_or_concat' tail with rfl | ⟨tail, c, rfl⟩
    · exact ⟨[], fun u => by simp [completed, hx]⟩
    · by_cases hc : c = '\\'
      · exact ⟨tail, fun u => by simp [completed, hlast, hinit, hc]⟩
      · exact ⟨tail ++ [c], fun u => by simp [completed, hlast, hc]⟩
  | cons line rest ih =>
    rcases List.eq_nil_or_concat' tail with rfl | ⟨tail, c, rfl⟩
    · exact ⟨[], fun u => by simp [completed, hx]⟩
    · by_cases hc : c = '\\'
      · obtain ⟨z, hz⟩ := ih (tail ++ added line)
        refine ⟨z, fun u => ?_⟩
        simp [completed, hlast, hinit, hc, hz]
      · exact ⟨tail ++ [c], fun u => by simp [completed, hlast, hc]⟩

private theorem completed_of_closed {value : List Char} (h : value.getLast? ≠ some '\\')
    (rest : List (List Char)) : completed value rest = value := by
  cases rest <;> simp [completed, h]

private theorem completed_backslashes (hw : w.getLast? ≠ some '\\') (k : Nat)
    (rest : List (List Char)) :
    ∃ z, completed (w ++ List.replicate k '\\') rest = w ++ z := by
  rcases List.eq_nil_or_concat' w with rfl | ⟨w, x, rfl⟩
  · exact ⟨_, rfl⟩
  · obtain ⟨z, hz⟩ := completed_append (by simpa using hw) (List.replicate k '\\') rest
    refine ⟨z, ?_⟩
    rw [List.append_assoc, List.append_assoc]
    exact hz w

/-- The letters of a text that are no white space. -/
def inked (text : List Char) : Nat := text.countP (!isWhitespace ·)

@[simp] theorem inked_append (s t : List Char) : inked (s ++ t) = inked s + inked t :=
  List.countP_append

private theorem inked_trimStart (text : List Char) : inked (trimStart text) = inked text := by
  induction text with
  | nil => rfl
  | cons c text ih =>
    rw [trimStart, List.dropWhile_cons]
    split
    · next hc => rw [← trimStart, ih, inked, inked, List.countP_cons_of_neg (by simp [hc])]
    · rfl

private theorem inked_trim (text : List Char) : inked (trim text) = inked text := by
  rw [trim, trimEnd, List.rdropWhile, inked, List.countP_reverse, ← inked, ← trimStart,
    inked_trimStart, inked, List.countP_reverse, ← inked, inked_trimStart]

private theorem inked_added_pos {line : List Char} (h : added line ≠ []) :
    ∃ c t, added line = c :: t ∧ isWhitespace c = false := by
  obtain ⟨c, t, hadded⟩ := List.exists_cons_of_ne_nil h
  refine ⟨c, t, hadded, ?_⟩
  have htrim : trim line = c :: t := by
    unfold added at hadded
    split at hadded
    · cases hadded
    · exact hadded
  have hstart : trimStart (trim line) = trim line := (trim_eq_self_iff.mp (trim_trim line)).1
  exact trimStart_eq_self_iff.mp hstart c (by rw [htrim]; rfl)

/-- Text that a line adds to a value stays. -/
theorem inked_lt_completed {line : List Char} (h : ∃ c ∈ added line, c ≠ '\\')
    (rest : List (List Char)) :
    ∃ z, (∀ u, completed (u ++ added line) rest = u ++ z) ∧ 0 < inked z := by
  obtain ⟨x, hmem, hx⟩ := h
  obtain ⟨c, t, hadded, hc⟩ := inked_added_pos (List.ne_nil_of_mem hmem)
  obtain ⟨s, t', hsplit⟩ := List.append_of_mem hmem
  obtain ⟨z, hz⟩ := completed_append hx t' rest
  refine ⟨s ++ x :: z, fun u => ?_, ?_⟩
  · rw [hsplit, ← List.append_assoc, hz (u ++ s), List.append_assoc]
  · have hhead : (s ++ x :: z).head? = some c := by
      have hhead' := congrArg List.head? (hsplit.symm.trans hadded)
      cases s <;> simpa using hhead'
    obtain ⟨z', hz'⟩ : ∃ z', s ++ x :: z = c :: z' := by
      cases hs : s ++ x :: z with
      | nil => simp at hs
      | cons d z' =>
        rw [hs] at hhead
        exact ⟨z', by rw [Option.some.inj hhead]⟩
    rw [hz', inked, List.countP_cons_of_pos (by simp [hc])]
    exact Nat.succ_pos _

/-- A value whose backslashes are not used up is longer with one more of them. -/
theorem inked_completed_lt (hw : w.getLast? ≠ some '\\') {k : Nat} {rest : List (List Char)}
    (h : ¬UsedUp (k + 1) rest) :
    inked (completed (w ++ List.replicate k '\\') rest) <
      inked (completed (w ++ List.replicate (k + 1) '\\') rest) := by
  have hone : inked ['\\'] = 1 := by decide
  have hsame : ∀ rest, completed (w ++ List.replicate 0 '\\') rest = w := by
    simpa using completed_of_closed hw
  induction rest generalizing k with
  | nil =>
    cases k with
    | zero => exact absurd rfl h
    | succ k =>
      simp only [completed, getLast?_backslashes, if_true]
      simp [List.replicate_succ', hone]
  | cons line rest ih =>
    have hopen : ∀ k, completed (w ++ List.replicate (k + 1) '\\') (line :: rest) =
        completed (w ++ List.replicate k '\\' ++ added line) rest := by
      intro k
      simp only [completed, getLast?_backslashes, if_true]
    rw [hopen]
    unfold UsedUp at h
    split_ifs at h with hadded
    · -- a blank line or a comment takes a backslash
      cases k with
      | zero => exact absurd (by simp [UsedUp]) h
      | succ k =>
        rw [hopen, hadded, List.append_nil, List.append_nil]
        exact ih h
    by_cases hslashes : ∀ c ∈ added line, c = '\\'
    · -- a line of backslashes adds them
      have hline : added line = List.replicate (added line).length '\\' :=
        List.eq_replicate_of_mem hslashes
      obtain ⟨j, hj⟩ := Nat.exists_eq_succ_of_ne_zero (mt List.length_eq_zero_iff.mp hadded)
      have hrest : ¬UsedUp (k + (added line).length) rest := fun hused => h ⟨hslashes, hused⟩
      have happend : ∀ k, w ++ List.replicate k '\\' ++ added line =
          w ++ List.replicate (k + (added line).length) '\\' := by
        intro k
        rw [hline, List.length_replicate, List.append_assoc, List.replicate_append_replicate]
      rw [happend]
      cases k with
      | zero =>
        obtain ⟨z, hz⟩ := completed_backslashes hw (0 + j) rest
        have hlonger := ih (k := 0 + j) (by rwa [hj] at hrest)
        rw [hsame, hj]
        rw [hz, inked_append] at hlonger
        exact Nat.lt_of_le_of_lt (Nat.le_add_right _ _) hlonger
      | succ k =>
        rw [hopen, happend, Nat.add_right_comm]
        exact ih (by rwa [Nat.add_right_comm] at hrest)
    · -- text is added to both values, or to one
      obtain ⟨z, hz, hpos⟩ := inked_lt_completed (by simpa using hslashes) rest
      rw [hz]
      cases k with
      | zero =>
        rw [hsame]
        simpa using hpos
      | succ k =>
        rw [hopen, hz, List.replicate_succ']
        simp only [inked_append, hone]
        omega

namespace Parser

variable {p : Parser} {key : List Char}

/-- A line that adds no text to an open value means nothing where no value is open. -/
theorem step_of_slashes (hp : p.opened = none) {line : List Char}
    (h : ∀ c ∈ added line, c = '\\') : p.step line = { p with number := p.number + 1 } := by
  by_cases hskipped : ((trim line).isEmpty || isComment (trim line)) = true
  · simp only [step, hp, hskipped, if_true]
  · have hadded : added line = trim line := by
      simp only [Bool.or_eq_true, not_or] at hskipped
      rw [added, if_neg hskipped.2]
    rw [hadded] at h
    have hheader : (trim line).head? ≠ some '[' := fun hhead =>
      absurd (h _ (List.mem_of_mem_head? hhead)) (by decide)
    have hnone : splitOnce '=' (trim line) = none :=
      splitOnce_eq_none.mpr fun hmem => absurd (h _ hmem) (by decide)
    simp only [step, hp, hskipped, hheader, hnone, if_false]
    rfl

private theorem step_extend {value : List Char} (hlast : value.getLast? = some '\\') (n : Nat)
    (line : List Char) :
    (p.extend key value n).step line =
      extend { p with number := p.number + 1 } key (value.dropLast ++ added line) n := by
  rw [extend, if_pos hlast]
  simp only [step, added]
  exact extend_opened { p with number := p.number + 1 } _ _ _ _

/-- Backslashes that are used up play no part. -/
theorem finish_of_usedUp (hw : w.getLast? ≠ some '\\') {k : Nat} {rest : List (List Char)}
    {n : Nat} (h : UsedUp k rest) :
    (run step (p.extend key (w ++ List.replicate k '\\') n) rest).finish =
      (run step (p.close key w n) rest).finish := by
  induction rest generalizing k p with
  | nil =>
    cases k with
    | zero => simp [extend, hw]
    | succ k =>
      obtain rfl : k = 0 := h
      simp [extend, finish, close]
  | cons line rest ih =>
    cases k with
    | zero => simp [extend, hw]
    | succ k =>
      have hslashes : ∀ c ∈ added line, c = '\\' := by
        unfold UsedUp at h
        split_ifs at h with hadded
        · simp [hadded]
        · exact h.1
      have hopen : (p.extend key (w ++ List.replicate (k + 1) '\\') n).step line =
          extend { p with number := p.number + 1 } key
            (w ++ List.replicate k '\\' ++ added line) n := by
        rw [step_extend (getLast?_backslashes k).1, (getLast?_backslashes k).2]
      have hclosed : (p.close key w n).step line =
          close { p with number := p.number + 1 } key w n := step_of_slashes rfl hslashes
      rw [run_cons, run_cons, hopen, hclosed]
      unfold UsedUp at h
      split_ifs at h with hadded
      · rw [hadded, List.append_nil]
        exact ih h
      · have hline : added line = List.replicate (added line).length '\\' :=
          List.eq_replicate_of_mem h.1
        rw [hline, List.append_assoc, List.replicate_append_replicate]
        exact ih h.2

/-- A value that becomes an entry is the next one. -/
theorem finish_extend (hcurrent : p.current ≠ []) (hkey : key ≠ []) (value : List Char) (n : Nat)
    (rest : List (List Char)) :
    ∃ more, (run step (p.extend key value n) rest).finish =
      p.entries ++ ⟨p.current, key, trim (completed value rest), n⟩ :: more := by
  have hclose : ∀ p : Parser, ∀ value, p.current ≠ [] →
      (p.close key value n).entries = p.entries ++ [⟨p.current, key, trim value, n⟩] := by
    intro p value hcurrent
    simp [close, hcurrent, hkey]
  have hcomplete : ∀ p : Parser, ∀ value, p.current ≠ [] → value.getLast? ≠ some '\\' → ∀ rest,
      ∃ more, (run step (p.extend key value n) rest).finish =
        p.entries ++ ⟨p.current, key, trim (completed value rest), n⟩ :: more := by
    intro p value hcurrent hlast rest
    obtain ⟨more, hmore⟩ := prefix_finish (p.close key value n) rest
    refine ⟨more, ?_⟩
    rw [extend, if_neg hlast, ← hmore, hclose p value hcurrent,
      completed_of_closed hlast]
    simp
  induction rest generalizing p value with
  | nil =>
    by_cases hlast : value.getLast? = some '\\'
    · refine ⟨[], ?_⟩
      rw [extend, if_pos hlast]
      simpa [finish, completed, hlast] using hclose { p with opened := some (key, value, n) }
        value.dropLast hcurrent
    · exact hcomplete p value hcurrent hlast []
  | cons line rest ih =>
    by_cases hlast : value.getLast? = some '\\'
    · rw [run_cons, step_extend hlast, completed, if_pos hlast]
      exact ih (p := { p with number := p.number + 1 }) hcurrent _
    · exact hcomplete p value hcurrent hlast (line :: rest)

end Parser

end

/-- `parse_unit_text` of `src/unit/ini.rs:27`. -/
def parseUnitText (text : List Char) : List RawEntry := (run Parser.step .start (lines text)).finish

/-- A comment can be deleted where no value is open, and inside of a value whose backslashes are
used up before a line adds text to it. Where the value becomes an entry these are the only ones. -/
theorem assignments_of_deleted_comment {text text' : List Char} (comment : List Char)
    (before after : List (List Char)) (htext : lines text = before ++ comment :: after)
    (htext' : lines text' = before ++ after) (hcomment : isComment (trim comment) = true) :
    ((run Parser.step .start before).Spent after →
      (parseUnitText text).map RawEntry.assignment =
        (parseUnitText text').map RawEntry.assignment) ∧
    ((run Parser.step .start before).Keeps →
      (parseUnitText text).map RawEntry.assignment =
        (parseUnitText text').map RawEntry.assignment →
      (run Parser.step .start before).Spent after) := by
  simp only [parseUnitText, htext, htext', run_append, run_cons]
  generalize hbefore : run Parser.step .start before = p
  have hopened : ∀ o ∈ p.opened, o.2.1.getLast? = some '\\' := by
    rw [← hbefore]
    exact Parser.continued_run before
  cases hp : p.opened with
  | none =>
    refine ⟨fun _ => Parser.Alike.finish (Parser.Alike.run ?_ after), fun _ _ o ho => ?_⟩
    · simp only [Parser.step, hp, hcomment, Bool.or_true, if_true]
      exact ⟨rfl, by rw [hp], rfl⟩
    · rw [hp] at ho
      cases ho
  | some o =>
    obtain ⟨key, value, n⟩ := o
    obtain ⟨w, hvalue, hw⟩ := exists_backslashes value
    obtain ⟨k, hk⟩ : ∃ k, backslashes value = k + 1 := by
      refine Nat.exists_eq_succ_of_ne_zero fun hzero => hw ?_
      rw [hzero, List.replicate_zero, List.append_nil] at hvalue
      rw [← hvalue]
      exact hopened _ hp
    rw [hk] at hvalue
    -- the comment costs the value a backslash
    have hstep : p.step comment = Parser.extend { p with number := p.number + 1 } key
        (w ++ List.replicate k '\\') n := by
      simp only [Parser.step, hp, hcomment, if_true, List.append_nil, hvalue,
        (getLast?_backslashes k).2]
    have hself : run Parser.step p after =
        run Parser.step (p.extend key (w ++ List.replicate (k + 1) '\\') n) after := by
      rw [Parser.extend, if_pos (getLast?_backslashes k).1, ← hvalue, ← hp]
    have hspent : p.Spent after ↔ UsedUp (k + 1) after := by simp [Parser.Spent, hp, hk]
    rw [hspent, hstep]
    refine ⟨fun hused => ?_, fun hkeeps hsame => ?_⟩
    · rw [Parser.finish_of_usedUp hw hused.pred, hself, Parser.finish_of_usedUp hw hused]
      have halike : Parser.Alike { p with number := p.number + 1 } p := ⟨rfl, rfl, rfl⟩
      exact ((halike.close key w n n).run after).finish
    · obtain ⟨hcurrent, hkey⟩ := hkeeps _ hp
      by_contra hused
      obtain ⟨more, hmore⟩ := Parser.finish_extend hcurrent hkey
        (w ++ List.replicate (k + 1) '\\') n after
      obtain ⟨more', hmore'⟩ := Parser.finish_extend (p := { p with number := p.number + 1 })
        hcurrent hkey (w ++ List.replicate k '\\') n after
      rw [hself, hmore, hmore'] at hsame
      have hvalues : trim (completed (w ++ List.replicate k '\\') after) =
          trim (completed (w ++ List.replicate (k + 1) '\\') after) := by
        simp only [List.map_append, List.map_cons, List.append_cancel_left_eq,
          RawEntry.assignment, List.cons.injEq, Prod.mk.injEq] at hsame
        exact hsame.1.2.2
      have hlonger := inked_completed_lt hw hused
      rw [← inked_trim, hvalues, inked_trim] at hlonger
      exact Nat.lt_irrefl _ hlonger

/-- A comment between a continued line and a blank one, deleted. -/
theorem deleted_comment_in_value :
    (parseUnitText "[S]\nA=b\\\n # c\n\nD=e".toList).map RawEntry.assignment =
        (parseUnitText "[S]\nA=b\\\n\nD=e\n".toList).map RawEntry.assignment ∧
      (run Parser.step .start ["[S]".toList, "A=b\\".toList]).Spent [[], "D=e".toList] := by
  have hdeleted := assignments_of_deleted_comment
    " # c".toList ["[S]".toList, "A=b\\".toList] [[], "D=e".toList]
    (show lines "[S]\nA=b\\\n # c\n\nD=e".toList = _ by decide)
    (show lines "[S]\nA=b\\\n\nD=e\n".toList = _ by decide) (by decide)
  have hsame := hdeleted.1 (by decide)
  exact ⟨hsame, hdeleted.2 (by decide) hsame⟩

/-- The value `b d` is cut off where a comment stands between its lines. -/
theorem comment_ends_continued_value :
    lines "[S]\nA=b \\\n# c\nd\n".toList =
        ["[S]".toList, "A=b \\".toList] ++ "# c".toList :: ["d".toList] ∧
      lines "[S]\nA=b \\\nd\n".toList = ["[S]".toList, "A=b \\".toList] ++ ["d".toList] ∧
      (parseUnitText "[S]\nA=b \\\n# c\nd\n".toList).map RawEntry.assignment =
        [("S".toList, "A".toList, "b".toList)] ∧
      (parseUnitText "[S]\nA=b \\\nd\n".toList).map RawEntry.assignment =
        [("S".toList, "A".toList, "b d".toList)] := by
  decide

end Rustd.Unit
