import Rustd.Journal.Reader

/-!
# Following the journal log

A reader that reads to the end of the log, takes in what was appended and reads on. At the end it
stands after the last entry, by a position that becomes the first new entry when the log grows;
the next step goes past that entry.
-/

namespace Rustd.Journal.Reader

open Base List Option

/-- Call `rustd_journal_next` until it returns 0: the entries obtained. -/
def readAll : Nat → Reader → List (List UInt8) × Reader
  | 0, j => ([], j)
  | fuel + 1, j =>
    match rustdJournalNext j with
    | (true, j') =>
      let rest := readAll fuel j'
      (j'.entry.toList ++ rest.1, rest.2)
    | (false, j') => ([], j')

def readToEnd (j : Reader) : List (List UInt8) × Reader := readAll (j.paths.length + 1) j

def followRound (j : Reader) (file : List UInt8) : List (List UInt8) × Reader :=
  readToEnd (rustdJournalProcess .events (some file) j).2

def followRounds : List (List UInt8) → Reader → List (List UInt8)
  | [], _ => []
  | file :: files, j => (followRound j file).1 ++ followRounds files (followRound j file).2

/-- All entries that a reader gets as the file changes. -/
def follow (file : Option (List UInt8)) (files : List (List UInt8)) : List (List UInt8) :=
  let first := readToEnd (rustdJournalOpen file)
  first.1 ++ followRounds files first.2

def obtained (data : List UInt8) : List UInt8 := data.takeWhile (· != 0)

def upcoming (j : Reader) : Nat := (j.pathIndex.map (· + 1)).getD 0

structure AtEnd (j : Reader) : Prop where
  unfiltered : j.matchList = []
  position : j.pathIndex = if j.paths = [] then none else some j.paths.length

section

variable {j : Reader}

private theorem journalEntryMatches_of_unfiltered (h : j.matchList = []) (e : List UInt8) :
    j.journalEntryMatches e = true := by
  simp [journalEntryMatches, h]

private theorem rustdJournalNext_of_some (hmt : j.matchList = [])
    (h : j.paths[j.upcoming]? = some d) :
    rustdJournalNext j = (true, j.loadEntry j.upcoming d) := by
  obtain ⟨hlt, -⟩ := List.getElem?_eq_some_iff.mp h
  have hne : j.paths ≠ [] := by
    rintro hnil
    simp [hnil] at hlt
  have hma : ∀ index, (j.loadEntry index d).journalEntryMatches
      (d.takeWhile (· != 0)) = true :=
    fun index => journalEntryMatches_of_unfiltered hmt _
  rw [rustdJournalNext, if_neg hne, nextFrom]
  cases hix : j.pathIndex with
  | none =>
    have hzr : j.upcoming = 0 := by simp [upcoming, hix]
    rw [hzr] at h ⊢
    simp only [h, hma, if_true]
  | some index =>
    have hsu : j.upcoming = index + 1 := by simp [upcoming, hix]
    rw [hsu] at h hlt ⊢
    have hbf : ¬j.paths.length ≤ index := by omega
    simp only [if_neg hbf, h, hma, if_true]

private theorem rustdJournalNext_of_none (hpt : j.paths ≠ [])
    (hix : ∀ i, j.pathIndex = some i → i ≤ j.paths.length) (h : j.paths.length ≤ j.upcoming) :
    rustdJournalNext j = (false, { j with entry := none, pathIndex := some j.paths.length }) := by
  have hpv : 0 < j.paths.length := length_pos_of_ne_nil hpt
  rw [rustdJournalNext, if_neg hpt, nextFrom]
  cases hpo : j.pathIndex with
  | none =>
    simp only [upcoming, hpo, map_none, getD_none] at h
    omega
  | some i =>
    simp only [upcoming, hpo, map_some, getD_some] at h
    have hle := hix i hpo
    by_cases hend : j.paths.length ≤ i
    · have heq : i = j.paths.length := by omega
      subst heq
      simp only [if_pos hend]
    · have hnn : j.paths[i + 1]? = none := getElem?_eq_none (by omega)
      simp only [if_neg hend, hnn]

private theorem readAll_eq (f : Nat) (j : Reader) (hmt : j.matchList = []) (hpt : j.paths ≠ [])
    (hix : ∀ i, j.pathIndex = some i → i ≤ j.paths.length)
    (hfue : j.paths.length - j.upcoming < f) :
    readAll f j = ((j.paths.drop j.upcoming).map obtained,
      { j with entry := none, pathIndex := some j.paths.length }) := by
  induction f generalizing j with
  | zero => omega
  | succ f ih =>
    by_cases hend : j.paths.length ≤ j.upcoming
    · rw [readAll, rustdJournalNext_of_none hpt hix hend, drop_eq_nil_of_le hend]
      rfl
    have hlt : j.upcoming < j.paths.length := by omega
    have hsome : j.paths[j.upcoming]? = some (j.paths.get ⟨j.upcoming, hlt⟩) :=
      getElem?_eq_getElem hlt
    have hnx : (j.loadEntry j.upcoming (j.paths.get ⟨j.upcoming, hlt⟩)).upcoming =
        j.upcoming + 1 := rfl
    have hrest := ih (j.loadEntry j.upcoming (j.paths.get ⟨j.upcoming, hlt⟩)) hmt hpt
      (fun i h => by
        obtain rfl := some.inj h
        exact Nat.le_of_lt hlt)
      (by rw [hnx]; exact (by omega : j.paths.length - (j.upcoming + 1) < f))
    rw [hnx] at hrest
    rw [readAll, rustdJournalNext_of_some hmt hsome]
    simp only [hrest]
    rw [drop_eq_getElem_cons hlt]
    rfl

private theorem readToEnd_eq (hmt : j.matchList = [])
    (hix : ∀ i, j.pathIndex = some i → i ≤ j.paths.length)
    (hempty : j.paths = [] → j.pathIndex = none) :
    (readToEnd j).1 = (j.paths.drop j.upcoming).map obtained ∧ AtEnd (readToEnd j).2 ∧
      (readToEnd j).2.paths = j.paths := by
  by_cases hpt : j.paths = []
  · have hnx : rustdJournalNext j = (false, j) := by rw [rustdJournalNext, if_pos hpt]
    have hrea : readToEnd j = ([], j) := by
      rw [readToEnd, readAll, hnx]
    rw [hrea]
    refine ⟨?_, ⟨hmt, ?_⟩, rfl⟩
    · rw [hpt, drop_nil, map_nil]
    · rw [if_pos hpt, hempty hpt]
  · rw [readToEnd, readAll_eq _ j hmt hpt hix (by omega)]
    exact ⟨rfl, ⟨hmt, (if_neg hpt).symm⟩, rfl⟩

/-- After the end was reached, the first entry that is appended is passed over, unless it is the
first of all. -/
theorem followRound_eq (h : AtEnd j) {file : List UInt8}
    (hgw : j.paths <+: collectJournalFiles file) :
    (followRound j file).1 = (if j.paths = [] then collectJournalFiles file
        else (collectJournalFiles file).drop (j.paths.length + 1)).map obtained ∧
      AtEnd (followRound j file).2 ∧
      (followRound j file).2.paths = collectJournalFiles file := by
  have hln := hgw.length_le
  by_cases hpt : j.paths = []
  · have hpo : j.pathIndex = none := by rw [h.position, if_pos hpt]
    have hpr : (rustdJournalProcess .events (some file) j).2 =
        { j with paths := collectJournalFiles file, pathIndex := none } := by
      simp only [rustdJournalProcess, hpo, map_none]
    rw [if_pos hpt, followRound, hpr]
    exact readToEnd_eq h.unfiltered (fun i hix => by cases hix) (fun _ => rfl)
  · have hpo : j.pathIndex = some j.paths.length := by rw [h.position, if_neg hpt]
    have hkp : (if j.paths.length < (collectJournalFiles file).length then j.paths.length
        else (collectJournalFiles file).length) = j.paths.length := by
      split <;> omega
    have hpr : (rustdJournalProcess .events (some file) j).2 =
        { j with paths := collectJournalFiles file, pathIndex := some j.paths.length } := by
      simp only [rustdJournalProcess, hpo, map_some, hkp]
    rw [if_neg hpt, followRound, hpr]
    refine readToEnd_eq h.unfiltered ?_ ?_
    · intro i hix
      obtain rfl := some.inj hix
      exact hln
    · intro hempty
      exact absurd (prefix_nil.mp (hempty ▸ hgw)) hpt

end

section

/-- Entries are only added. -/
def Grows (a b : List (List UInt8)) : Prop := a <+: b

/-- A file that has entries does not change. -/
def GrowsUnread (a b : List (List UInt8)) : Prop := a = [] ∨ b = a

def lastEntries (entries : List (List UInt8)) (files : List (List UInt8)) : List (List UInt8) :=
  (files.map collectJournalFiles).getLastD entries

private theorem lastEntries_cons (es : List (List UInt8)) (f : List UInt8)
    (files : List (List UInt8)) :
    lastEntries es (f :: files) = lastEntries (collectJournalFiles f) files := by
  rw [lastEntries, map_cons, getLastD_cons, lastEntries]

private theorem prefix_lastEntries {files : List (List UInt8)}
    (h : List.IsChain Grows (es :: files.map collectJournalFiles)) :
    es <+: lastEntries es files := by
  induction files generalizing es with
  | nil => exact prefix_rfl
  | cons f files ih =>
    rw [map_cons, isChain_cons_cons] at h
    rw [lastEntries_cons]
    exact h.1.trans (ih h.2)

private theorem length_followRounds_le (hend : AtEnd j) (f : List (List UInt8))
    (h : List.IsChain Grows (j.paths :: f.map collectJournalFiles)) :
    (followRounds f j).length + j.paths.length ≤ (lastEntries j.paths f).length := by
  induction f generalizing j with
  | nil => simp [followRounds, lastEntries]
  | cons fi f ih =>
    rw [map_cons, isChain_cons_cons] at h
    obtain ⟨ho, hend', hpt⟩ := followRound_eq hend h.1
    have hrest := ih hend' (by rw [hpt]; exact h.2)
    have hln := h.1.length_le
    have hro : (followRound j fi).1.length + j.paths.length ≤
        (collectJournalFiles fi).length := by
      rw [ho, length_map]
      split
      · next hnil =>
        rw [hnil]
        exact Nat.le_refl _
      · rw [length_drop]
        omega
    rw [hpt] at hrest
    rw [followRounds, length_append, lastEntries_cons]
    omega

/-- The appended entries are obtained exactly when each of them is appended to an empty log or
together with the first ones. -/
theorem followRounds_eq_iff (hend : AtEnd j) (f : List (List UInt8))
    (h : List.IsChain Grows (j.paths :: f.map collectJournalFiles)) :
    followRounds f j = ((lastEntries j.paths f).drop j.paths.length).map obtained ↔
      List.IsChain GrowsUnread (j.paths :: f.map collectJournalFiles) := by
  induction f generalizing j with
  | nil => simp [followRounds, lastEntries]
  | cons fi f ih =>
    rw [map_cons, isChain_cons_cons] at h
    obtain ⟨ho, hend', hpt⟩ := followRound_eq hend h.1
    have hch : List.IsChain Grows
        ((followRound j fi).2.paths :: f.map collectJournalFiles) := by
      rw [hpt]
      exact h.2
    have hrest := ih hend' hch
    have hbn := length_followRounds_le hend' f hch
    have hln := h.1.length_le
    rw [hpt] at hrest hbn
    rw [map_cons, isChain_cons_cons, ← hrest, followRounds, lastEntries_cons, ho]
    by_cases hnil : j.paths = []
    · -- the log had no entries: all of the first ones are read
      obtain ⟨m, hmor⟩ := prefix_lastEntries h.2
      rw [if_pos hnil, hnil, ← hmor, length_nil, drop_zero, map_append,
        append_cancel_left_eq, drop_left]
      exact (and_iff_right (.inl rfl)).symm
    · rw [if_neg hnil]
      by_cases hsa : collectJournalFiles fi = j.paths
      · rw [hsa, drop_eq_nil_of_le (Nat.le_succ _), map_nil, nil_append]
        exact (and_iff_right (.inr rfl)).symm
      -- an entry is passed over, and the later rounds cannot make up for it
      have hmor : j.paths.length < (collectJournalFiles fi).length := by
        rcases Nat.lt_or_eq_of_le hln with hlt | heq
        · exact hlt
        · exact absurd (h.1.eq_of_length heq).symm hsa
      constructor
      · intro heq
        have hcn := congrArg List.length heq
        simp only [length_append, length_map, length_drop] at hcn
        omega
      rintro ⟨hu | hu, -⟩
      · exact absurd hu hnil
      · exact absurd hu hsa

def firstEntries (file : Option (List UInt8)) : List (List UInt8) :=
  (file.map collectJournalFiles).getD []

private theorem rustdJournalOpen_paths (file : Option (List UInt8)) :
    (rustdJournalOpen file).paths = firstEntries file := by
  cases file <;> rfl

/-- A reader without matches that reads to the end, takes in what was appended and reads on obtains
the entries of the log, each once and in order, exactly when entries are only ever appended while
the log has none. An entry appended at the end of a log that has entries is passed over. -/
theorem follow_complete_iff (file : Option (List UInt8)) (files : List (List UInt8))
    (hgrows : List.IsChain Grows (firstEntries file :: files.map collectJournalFiles)) :
    follow file files = (lastEntries (firstEntries file) files).map obtained ↔
      List.IsChain GrowsUnread (firstEntries file :: files.map collectJournalFiles) := by
  have hon : (rustdJournalOpen file).matchList = [] ∧
      (rustdJournalOpen file).pathIndex = none := by
    cases file <;> exact ⟨rfl, rfl⟩
  have hup : (rustdJournalOpen file).upcoming = 0 := by rw [upcoming, hon.2]; rfl
  obtain ⟨hfr, hend, hpt⟩ := readToEnd_eq hon.1
    (fun i h => by rw [hon.2] at h; cases h) (fun _ => hon.2)
  rw [hup, drop_zero, rustdJournalOpen_paths] at hfr
  rw [rustdJournalOpen_paths] at hpt
  have hiff := followRounds_eq_iff hend files (by rw [hpt]; exact hgrows)
  rw [hpt] at hiff
  obtain ⟨m, hmor⟩ := prefix_lastEntries hgrows
  rw [← hmor, drop_left] at hiff
  rw [← hiff, ← hmor, follow, hfr, map_append, append_cancel_left_eq]

/-- The entries of a log that is empty when it is opened are obtained. -/
theorem follow_complete_empty :
    follow none [ascii "A=1\n", ascii "A=1\n"] = [ascii "A=1"] :=
  (follow_complete_iff none [ascii "A=1\n", ascii "A=1\n"]
    (by
      have h : collectJournalFiles (ascii "A=1\n") = [ascii "A=1"] := by decide
      simp [firstEntries, Grows, h])).mpr
    (by
      have h : collectJournalFiles (ascii "A=1\n") = [ascii "A=1"] := by decide
      simp [firstEntries, GrowsUnread, h])

/-- The entry appended to a log that was read to its end is never obtained. -/
theorem follow_passes_over :
    collectJournalFiles (ascii "A=1\nA=2\nA=3\n") = [ascii "A=1", ascii "A=2", ascii "A=3"] ∧
      follow (some (ascii "A=1\n")) [ascii "A=1\nA=2\nA=3\n"] = [ascii "A=1", ascii "A=3"] := by
  decide

end

end Rustd.Journal.Reader
