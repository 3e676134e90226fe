import Rustd.Journal.Datagram

/-!
# Readers of the journal log

The part of `libs/journal/journal.c` that reads `entries.log`: how the file is cut into entries,
how a reader steps through them, and how it takes in what was appended. Allocations succeed.
-/

namespace Rustd.Journal

open Base

section

/-- Drop the newlines around an entry. -/
def trimNewlines (data : List UInt8) : List UInt8 :=
  ((data.dropWhile (· == newline)).reverse.dropWhile (· == newline)).reverse

/-- `append_journal_entry` of `libs/journal/journal.c:215`. -/
def appendJournalEntry (entries : List (List UInt8)) (data : List UInt8) : List (List UInt8) :=
  if trimNewlines data = [] then entries else entries ++ [trimNewlines data]

/-- The bytes up to the first two newlines in a row, and those after them. -/
def untilBlank : List UInt8 → List UInt8 × List UInt8
  | [] => ([], [])
  | [b] => ([b], [])
  | b :: c :: rest =>
    if b = newline ∧ c = newline then ([], rest)
    else (b :: (untilBlank (c :: rest)).1, (untilBlank (c :: rest)).2)

def hasBlank : List UInt8 → Bool
  | b :: c :: rest => (b == newline && c == newline) || hasBlank (c :: rest)
  | _ => false

/-- `strstr(data, "\n\n") != NULL`; the search ends at the first NUL byte. -/
def isFramed (data : List UInt8) : Bool := hasBlank (data.takeWhile (· != 0))

/-- The loop over entries that are separated by blank lines; every turn takes at least one byte. -/
def collectFramed : Nat → List UInt8 → List (List UInt8) → List (List UInt8)
  | 0, _, entries => entries
  | fuel + 1, data, entries =>
    if data = [] then entries
    else collectFramed fuel ((untilBlank data).2.dropWhile (· == newline))
      (appendJournalEntry entries (untilBlank data).1)

/-- The loop over entries that are lines. -/
def collectLines : Nat → List UInt8 → List (List UInt8) → List (List UInt8)
  | 0, _, entries => entries
  | fuel + 1, data, entries =>
    if data = [] then entries
    else collectLines fuel ((data.dropWhile (· != newline)).drop 1)
      (appendJournalEntry entries (data.takeWhile (· != newline)))

/-- The entries of a log file. -/
def collectJournalFiles (raw : List UInt8) : List (List UInt8) :=
  let data := raw.filter (· != 13)
  if isFramed data then collectFramed data.length data [] else collectLines data.length data []

end

/-- `struct rustd_journal_match`. -/
structure Match where
  data : List UInt8
  fieldLength : Nat
  term : Nat
  deriving DecidableEq

/-- `struct rustd_journal`, as far as stepping through the entries needs it. The position `none` is
before the first entry. -/
structure Reader where
  paths : List (List UInt8) := []
  pathIndex : Option Nat := none
  entry : Option (List UInt8) := none
  matchList : List Match := []
  matchTerm : Nat := 0
  deriving DecidableEq

namespace Reader

/-- `entry_has_exact_match` of `libs/journal/journal.c:499`. -/
def entryHasExactMatch (entry : List UInt8) (m : Match) : Bool :=
  (entry.splitOn newline).any (· == m.data)

/-- `same_match_field` of `libs/journal/journal.c:513`. -/
def sameMatchField (a b : Match) : Bool :=
  a.fieldLength == b.fieldLength && a.data.take a.fieldLength == b.data.take a.fieldLength

/-- The matches of one term, each field of which is tested where it first occurs. -/
def termHolds (entry : List UInt8) : List Match → List Match → Bool
  | _, [] => true
  | seen, m :: rest =>
    (seen.any (sameMatchField · m) ||
        (m :: rest).any (fun c => sameMatchField c m && entryHasExactMatch entry c)) &&
      termHolds entry (seen ++ [m]) rest

/-- `journal_entry_matches` of `libs/journal/journal.c:519`. -/
def journalEntryMatches (j : Reader) (entry : List UInt8) : Bool :=
  j.matchList == [] || (List.range (j.matchTerm + 1)).any (fun term =>
    let matches' := j.matchList.filter (·.term == term)
    matches' != [] && termHolds entry [] matches')

/-- Make an entry the current one. It is copied as a C string. -/
def loadEntry (j : Reader) (index : Nat) (data : List UInt8) : Reader :=
  { j with
    entry := some (data.takeWhile (· != 0))
    pathIndex := some index }

/-- The loop of `rustd_journal_next`. -/
def nextFrom : Nat → Reader → Bool × Reader
  | 0, j => (false, j)
  | fuel + 1, j =>
    match j.pathIndex with
    | none => match j.paths[0]? with
      | none => (false, j)
      | some data =>
        let j := j.loadEntry 0 data
        if j.journalEntryMatches (data.takeWhile (· != 0)) then (true, j) else nextFrom fuel j
    | some index =>
      if j.paths.length ≤ index then (false, { j with entry := none })
      else match j.paths[index + 1]? with
        | none => (false, { j with entry := none, pathIndex := some j.paths.length })
        | some data =>
          let j := j.loadEntry (index + 1) data
          if j.journalEntryMatches (data.takeWhile (· != 0)) then (true, j) else nextFrom fuel j

/-- `rustd_journal_next` of `libs/journal/journal.c:582`. -/
def rustdJournalNext (j : Reader) : Bool × Reader :=
  if j.paths = [] then (false, j) else nextFrom (j.paths.length + 1) j

/-- Open the log: a missing one has no entries. -/
def rustdJournalOpen (file : Option (List UInt8)) : Reader :=
  { paths := (file.map collectJournalFiles).getD [] }

/-- Part of `rustd_journal_process`, `libs/journal/journal.c:1134`. -/
inductive Wake where
  | unwatched
  | again
  | failed (errno : Nat)
  | events
  deriving DecidableEq

/-- Take in the log anew, keeping the position; the log may be unreadable. -/
def rustdJournalProcess (wake : Wake) (file : Option (List UInt8)) (j : Reader) : Int × Reader :=
  match wake with
  | .unwatched | .again => (0, j)
  | .failed errno => (-errno, j)
  | .events => match file with
    | none => (2, { j with paths := [], pathIndex := none })
    | some raw =>
      let paths := collectJournalFiles raw
      let pathIndex := j.pathIndex.map (fun index =>
        if index < paths.length then index else paths.length)
      (if j.paths.length < paths.length then 1 else 2, { j with paths, pathIndex })

end Reader

end Rustd.Journal
