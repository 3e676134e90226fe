import Rustd.Base.ColonTable

/-!
# User and group files

`src/bin/rustd-sysusers.rs`: how entries of `/etc/passwd` and `/etc/group` are read and written, and
which entries are read as they were written.
-/

namespace Rustd.Sysusers

open Base List

/-- `ExistingUser` of `src/bin/rustd-sysusers.rs:69`. -/
structure ExistingUser where
  name : List Char
  uid : UInt32
  gid : UInt32
  gecos : List Char
  home : List Char
  shell : List Char
  deriving DecidableEq

/-- `ExistingGroup` of `src/bin/rustd-sysusers.rs:79`. -/
structure ExistingGroup where
  name : List Char
  gid : UInt32
  members : List (List Char)
  deriving DecidableEq

/-- A number, or that of the user `nobody` if it is none. -/
def readId (text : List Char) : UInt32 := ((parseUnsigned (2 ^ 32) text).getD 65534).toUInt32

private theorem readId_decimal (id : UInt32) : readId (decimal id.toNat) = id := by
  rw [readId, parseUnsigned_decimal id.toNat_lt]
  exact UInt32.ofNat_toNat

/-- The user on a line of `/etc/passwd`. -/
def userOfParts : List (List Char) → Option ExistingUser
  | name :: _ :: uid :: gid :: gecos :: home :: shell :: _ =>
    some ⟨name, readId uid, readId gid, gecos, home, shell⟩
  | _ => none

/-- The table in `/etc/passwd`. -/
def passwdTable : ColonTable ExistingUser where
  key := ExistingUser.name
  ofParts := userOfParts
  key_ofParts parts user h := by
    unfold userOfParts at h
    split at h
    · cases h
      exact ⟨_, cons_ne_nil _ _, rfl⟩
    · cases h

/-- The members in the fourth field of a line of `/etc/group`. -/
def readMembers : List (List Char) → List (List Char)
  | [] => []
  | field :: _ => if field = [] then [] else ((field.splitOn ',').map trim).filter (· ≠ [])

/-- The group on a line of `/etc/group`. -/
def groupOfParts : List (List Char) → Option ExistingGroup
  | name :: _ :: gid :: rest => some ⟨name, readId gid, readMembers rest⟩
  | _ => none

/-- The table in `/etc/group`. -/
def groupTable : ColonTable ExistingGroup where
  key := ExistingGroup.name
  ofParts := groupOfParts
  key_ofParts parts group h := by
    unfold groupOfParts at h
    split at h
    · cases h
      exact ⟨_, cons_ne_nil _ _, rfl⟩
    · cases h

/-- The line that is written for a user. -/
def ExistingUser.line (u : ExistingUser) : List Char :=
  [':'].intercalate [u.name, "x".toList, decimal u.uid.toNat, decimal u.gid.toNat, u.gecos, u.home,
    u.shell]

/-- The line that is written for a group. -/
def ExistingGroup.line (g : ExistingGroup) : List Char :=
  [':'].intercalate [g.name, "x".toList, decimal g.gid.toNat, [','].intercalate g.members]

structure ExistingUser.Clean (u : ExistingUser) : Prop where
  name : ColonTable.CleanKey u.name
  gecos : ColonTable.CleanField u.gecos
  home : ColonTable.CleanField u.home
  shell : ColonTable.CleanField u.shell

private theorem colon_not_mem_decimal (n : Nat) : ':' ∉ decimal n := by
  intro hmem
  exact absurd (isDigit_of_mem_decimal hmem) (by decide)

private theorem newline_not_mem_decimal (n : Nat) : '\n' ∉ decimal n := by
  intro hmem
  exact absurd (isDigit_of_mem_decimal hmem) (by decide)

variable {u : ExistingUser} {g : ExistingGroup} {row b : List Char}

theorem clean_of_parse (h : passwdTable.parse row = some u) (hrow : '\n' ∉ row) : u.Clean := by
  have hname := ColonTable.cleanKey_of_parse h hrow
  obtain ⟨p, hprt, hfl⟩ := ColonTable.ofParts_of_parse h hrow
  change userOfParts p = some u at hprt
  unfold userOfParts at hprt
  split at hprt
  · cases hprt
    exact ⟨hname, hfl _ (by simp), hfl _ (by simp), hfl _ (by simp)⟩
  · cases hprt

private theorem colon_not_mem_middle (h : u.Clean) : ∀ part ∈ ["x".toList, decimal u.uid.toNat,
    decimal u.gid.toNat, u.gecos, u.home], ':' ∉ part := by
  simp only [forall_mem_cons, not_mem_nil, false_implies, implies_true, and_true]
  exact ⟨by decide, colon_not_mem_decimal _, colon_not_mem_decimal _, h.gecos.1, h.home.1⟩

theorem parse_line (h : u.Clean) (hbl : Blank b) :
    passwdTable.parse (b ++ u.line) = some { u with shell := trimEnd u.shell } := by
  refine (ColonTable.parse_fields hbl h.name (colon_not_mem_middle h) h.shell.1).trans ?_
  change some (ExistingUser.mk u.name (readId (decimal u.uid.toNat))
    (readId (decimal u.gid.toNat)) u.gecos u.home (trimEnd u.shell)) = _
  rw [readId_decimal, readId_decimal]

theorem newline_not_mem_line (h : u.Clean) : '\n' ∉ u.line := by
  refine not_mem_intercalate (by decide) ?_
  simp only [forall_mem_cons, not_mem_nil, false_implies, implies_true, and_true]
  exact ⟨h.name.2.1, by decide, newline_not_mem_decimal _, newline_not_mem_decimal _, h.gecos.2,
    h.home.2, h.shell.2⟩

theorem parse_groupLine (h : ColonTable.CleanKey g.name) (hmm : g.members = [])
    (hbl : Blank b) : groupTable.parse (b ++ g.line) = some g := by
  have hmi : ∀ part ∈ ["x".toList, decimal g.gid.toNat], ':' ∉ part := by
    simp only [forall_mem_cons, not_mem_nil, false_implies, implies_true, and_true]
    exact ⟨by decide, colon_not_mem_decimal _⟩
  have hls : ':' ∉ [','].intercalate g.members := by
    rw [hmm]
    exact not_mem_nil
  refine (ColonTable.parse_fields hbl h hmi hls).trans ?_
  rw [hmm]
  change some (ExistingGroup.mk g.name (readId (decimal g.gid.toNat)) []) = _
  rw [readId_decimal, ← hmm]

theorem newline_not_mem_groupLine (h : ColonTable.CleanKey g.name) (hmm : g.members = []) :
    '\n' ∉ g.line := by
  refine not_mem_intercalate (by decide) ?_
  simp only [forall_mem_cons, not_mem_nil, false_implies, implies_true, and_true]
  refine ⟨h.2.1, by decide, newline_not_mem_decimal _, ?_⟩
  rw [hmm]
  exact not_mem_nil

end Rustd.Sysusers
