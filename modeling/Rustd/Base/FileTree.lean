import Rustd.Base.Path

/-!
# File trees

A tree of directories, files, symbolic links and device nodes. A location is the list of names
that leads to an entry from the root; every entry is in a directory. The primitive changes are
total: they leave the tree as it is where a file system refuses. Paths are walked through
directories only, so no symbolic link is followed on the way.
-/

namespace Rustd.Base

abbrev Location := List Name

inductive Node where
  | directory
  | file (content : List Char)
  | symlink (target : List Char)
  | device (block : Bool) (major minor : Nat)
  deriving DecidableEq

abbrev Entries := AList fun _ : Location => Node

namespace Entries

def node (entries : Entries) (loc : Location) : Option Node :=
  if loc = [] then some .directory else entries.lookup loc

def Closed (entries : Entries) : Prop :=
  ∀ loc ∈ entries, loc ≠ [] ∧ entries.node loc.dropLast = some .directory

end Entries

structure FileTree where
  entries : Entries
  closed : entries.Closed

namespace FileTree

variable {t : FileTree} {loc other : Location}

def node (t : FileTree) (loc : Location) : Option Node := t.entries.node loc

def isDirectory (t : FileTree) (loc : Location) : Bool := t.node loc == some .directory

def empty : FileTree := ⟨∅, fun _ h => absurd h (AList.notMem_empty _)⟩

variable (entries : Entries)

private theorem node_insert (h : loc ≠ []) (n : Node) (other : Location) :
    (Entries.node (entries.insert loc n) other) =
      if other = loc then some n else entries.node other := by
  unfold Entries.node
  by_cases hother : other = loc
  · subst hother
    rw [if_neg h, if_pos rfl, AList.lookup_insert]
  rw [if_neg hother]
  split
  · rfl
  · rw [AList.lookup_insert_ne hother]

private theorem node_erase (h : loc ≠ []) (other : Location) :
    (Entries.node (entries.erase loc) other) =
      if other = loc then none else entries.node other := by
  unfold Entries.node
  by_cases hother : other = loc
  · subst hother
    rw [if_neg h, if_pos rfl, AList.lookup_erase]
  rw [if_neg hother]
  split
  · rfl
  · rw [AList.lookup_erase_ne hother]

/-- Put an entry into a directory, in place of a file or link or where there is none. -/
def put (t : FileTree) (loc : Location) (node : Node) : FileTree :=
  if h : loc ≠ [] ∧ t.node loc.dropLast = some .directory ∧ t.node loc ≠ some .directory then
    { entries := t.entries.insert loc node
      closed := by
        intro a ha
        have hparent : ∀ dir, t.node dir = some .directory →
            Entries.node (t.entries.insert loc node) dir = some .directory := by
          intro dir hdir
          rw [node_insert _ h.1, if_neg]
          · exact hdir
          · rintro rfl
            exact h.2.2 hdir
        rcases (AList.mem_insert t.entries).mp ha with rfl | ha
        · exact ⟨h.1, hparent _ h.2.1⟩
        · exact ⟨(t.closed a ha).1, hparent _ (t.closed a ha).2⟩ }
  else t

def unlink (t : FileTree) (loc : Location) : FileTree :=
  if h : t.node loc ≠ some .directory then
    { entries := t.entries.erase loc
      closed := by
        intro a ha
        obtain ⟨-, ha⟩ := AList.mem_erase.mp ha
        have hne : loc ≠ [] := by
          rintro rfl
          exact h rfl
        refine ⟨(t.closed a ha).1, ?_⟩
        rw [node_erase _ hne, if_neg]
        · exact (t.closed a ha).2
        · intro heq
          exact h (heq ▸ (t.closed a ha).2) }
  else t

def children (t : FileTree) (dir : Location) : List Name :=
  t.entries.keys.filterMap fun loc => if loc.dropLast = dir then loc.getLast? else none

theorem mem_children {dir : Location} : u ∈ t.children dir ↔ t.node (dir ++ [u]) ≠ none := by
  have hnd : t.node (dir ++ [u]) = t.entries.lookup (dir ++ [u]) := if_neg (by simp)
  rw [hnd, ne_eq, AList.lookup_eq_none, not_not, AList.mem_keys, children, List.mem_filterMap]
  constructor
  · rintro ⟨loc, hloc, heq⟩
    split at heq
    · next hdir =>
      obtain ⟨hne, -⟩ := t.closed loc (AList.mem_keys.mpr hloc)
      rw [List.getLast?_eq_getLast_of_ne_nil hne, Option.some.injEq] at heq
      rwa [← hdir, ← heq, List.dropLast_append_getLast hne]
    · cases heq
  · intro hmem
    exact ⟨dir ++ [u], hmem, by simp⟩

/-! ### What is where after a change -/

theorem node_put (hne : loc ≠ []) (hpa : t.node loc.dropLast = some .directory)
    (hkp : t.node loc ≠ some .directory) (n : Node) (other : Location) :
    (t.put loc n).node other = if other = loc then some n else t.node other := by
  rw [put, dif_pos ⟨hne, hpa, hkp⟩]
  exact node_insert t.entries hne n other

theorem node_unlink (h : t.node loc ≠ some .directory) (other : Location) :
    (t.unlink loc).node other = if other = loc then none else t.node other := by
  have hne : loc ≠ [] := by
    rintro rfl
    exact h rfl
  rw [unlink, dif_pos h]
  exact node_erase t.entries hne other

theorem node_put_of_ne (h : other ≠ loc) (n : Node) : (t.put loc n).node other = t.node other := by
  unfold put
  split
  · next hput => exact (node_insert t.entries hput.1 n other).trans (if_neg h)
  · rfl

theorem node_unlink_of_ne (h : other ≠ loc) : (t.unlink loc).node other = t.node other := by
  by_cases hdir : t.node loc ≠ some .directory
  · rw [node_unlink hdir, if_neg h]
  · rw [unlink, dif_neg hdir]

end FileTree

end Rustd.Base
