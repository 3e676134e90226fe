import Rustd.Base.FileTree

/-!
# Calls on a file tree

The calls of a program that change a file tree by path, each of which may fail, with a record of
the locations that were changed. `Within inside d d'` says that a program has changed entries at
locations of `inside` only.
-/

namespace Rustd.Base

open List Option

structure Disk where
  tree : FileTree
  changed : List Location := []

namespace FileTree

variable {t t' : FileTree} {cur loc : Location} {names us : List Name}

def walk (t : FileTree) : Location → List Name → Option Location
  | cur, [] => some cur
  | cur, c :: names =>
    if t.isDirectory cur then
      if c = dotDot then walk t cur.dropLast names else walk t (cur ++ [c]) names
    else none

def validPath (p : Path) : Bool := p.components.all fun c => !c.contains '\x00'

def entry (t : FileTree) (p : Path) : Option Location :=
  if p.trailing || !validPath p then none
  else match p.fileName with
    | none => none
    | some name =>
      ((t.walk [] p.components.dropLast).filter t.isDirectory).map (· ++ [name])

def resolve (t : FileTree) (p : Path) : Option Location :=
  if validPath p then
    (t.walk [] p.components).filter fun loc =>
      (t.node loc).isSome && (!p.trailing || t.isDirectory loc)
  else none

def readFile (t : FileTree) (p : Path) : Option (List Char) :=
  match (t.resolve p).bind t.node with
  | some (.file content) => some content
  | _ => none

private theorem walk_eq (h : dotDot ∉ names) (hwl : t.walk cur names = some loc) :
    loc = cur ++ names := by
  induction names generalizing cur with
  | nil =>
    rw [walk, some.injEq] at hwl
    rw [← hwl, append_nil]
  | cons c names ih =>
    rw [mem_cons, not_or] at h
    rw [walk] at hwl
    split at hwl
    · rw [if_neg (Ne.symm h.1)] at hwl
      rw [ih h.2 hwl, append_assoc, singleton_append]
    · cases hwl

private theorem isDirectory_of_below (h : t.node (loc ++ u :: us) ≠ none) :
    t.isDirectory loc = true := by
  induction us using List.reverseRecOn generalizing u with
  | nil =>
    have hmem : loc ++ [u] ∈ t.entries := by
      rw [← AList.lookup_isSome, isSome_iff_ne_none]
      rwa [node, Entries.node, if_neg (by simp)] at h
    have hpa := (t.closed _ hmem).2
    rw [dropLast_concat] at hpa
    exact beq_iff_eq.mpr hpa
  | append_singleton us l ih =>
    refine ih (?_ : t.node (loc ++ u :: us) ≠ none)
    have hmem : loc ++ u :: (us ++ [l]) ∈ t.entries := by
      rw [← AList.lookup_isSome, isSome_iff_ne_none]
      rwa [node, Entries.node, if_neg (by simp)] at h
    have hpa := (t.closed _ hmem).2
    rw [← cons_append, ← append_assoc, dropLast_concat] at hpa
    change t.node (loc ++ u :: us) = _ at hpa
    rw [hpa]
    exact some_ne_none _

private theorem walk_of_node (h : dotDot ∉ us) (hnd : t.node (cur ++ us) ≠ none) :
    t.walk cur us = some (cur ++ us) := by
  induction us generalizing cur with
  | nil => rw [walk, append_nil]
  | cons c us ih =>
    rw [mem_cons, not_or] at h
    rw [walk, if_pos (isDirectory_of_below hnd), if_neg (Ne.symm h.1), ih h.2]
    · rw [append_assoc, singleton_append]
    · rwa [append_assoc, singleton_append]

variable {p : Path}

theorem readFile_eq (hvl : validPath p = true) (htg : p.trailing = false)
    (hdt : dotDot ∉ p.components) :
    t.readFile p = match t.node p.components with
      | some (.file content) => some content
      | _ => none := by
  unfold readFile resolve
  rw [if_pos hvl]
  cases hnd : t.node p.components with
  | none =>
    have hnn : (t.walk [] p.components).filter (fun loc =>
        (t.node loc).isSome && (!p.trailing || t.isDirectory loc)) = none := by
      rw [filter_eq_none_iff]
      intro loc hloc
      rw [walk_eq hdt hloc, nil_append, hnd]
      simp
    rw [hnn]
    rfl
  | some n =>
    have hwl : t.walk [] p.components = some p.components := by
      rw [walk_of_node hdt (by rw [nil_append, hnd]; exact some_ne_none _)]
      rfl
    rw [hwl, filter_some, if_pos (by simp [hnd, htg]), bind_some, hnd]

theorem walk_append (t : FileTree) (cur : Location) (us more : List Name) :
    t.walk cur (us ++ more) = (t.walk cur us).bind fun loc => t.walk loc more := by
  induction us generalizing cur with
  | nil => rfl
  | cons c us ih =>
    rw [cons_append, walk, walk]
    split
    · split
      · exact ih _
      · exact ih _
    · rfl

theorem isDirectory_dropLast (h : t.isDirectory loc = true) :
    t.isDirectory loc.dropLast = true := by
  rcases eq_nil_or_concat loc with rfl | ⟨dir, u, rfl⟩
  · exact h
  rw [concat_eq_append] at h ⊢
  rw [dropLast_concat]
  have hnd : t.node (dir ++ u :: []) ≠ none := by
    rw [beq_iff_eq.mp h]
    exact some_ne_none _
  exact isDirectory_of_below hnd

theorem readFile_of_dotDot (h : p.components = us ++ [dotDot]) : t.readFile p = none := by
  have hdir : ∀ loc, t.resolve p = some loc → t.isDirectory loc = true := by
    intro loc hloc
    unfold resolve at hloc
    split at hloc
    · obtain ⟨hwl, -⟩ := filter_eq_some_iff.mp hloc
      rw [h, walk_append] at hwl
      obtain ⟨dir, -, hls⟩ := bind_eq_some_iff.mp hwl
      rw [walk] at hls
      split at hls
      · next hisdir =>
        rw [if_pos rfl, walk, some.injEq] at hls
        rw [← hls]
        exact isDirectory_dropLast hisdir
      · cases hls
    · cases hloc
  unfold readFile
  cases hre : t.resolve p with
  | none => rfl
  | some loc => rw [bind_some, beq_iff_eq.mp (hdir loc hre)]

theorem readFile_of_trailing (h : p.trailing = true) : t.readFile p = none := by
  unfold readFile
  cases hre : t.resolve p with
  | none => rfl
  | some loc =>
    unfold resolve at hre
    split at hre
    · obtain ⟨-, hdir⟩ := filter_eq_some_iff.mp hre
      have hdir : t.isDirectory loc = true := by
        simp only [h, Bool.not_true, Bool.false_or, Bool.and_eq_true] at hdir
        exact hdir.2
      rw [bind_some, beq_iff_eq.mp hdir]
    · cases hre

theorem entry_of_trailing (h : p.trailing = true) : t.entry p = none := by
  rw [entry, h, Bool.true_or, if_pos rfl]

theorem entry_of_dotDot (h : p.components = us ++ [dotDot]) : t.entry p = none := by
  have hname : p.fileName = none := by simp [Path.fileName, h]
  rw [entry, hname]
  split <;> rfl

theorem entry_eq (hdt : dotDot ∉ p.components) (h : t.entry p = some loc) :
    loc = p.components ∧ p.components ≠ [] := by
  unfold entry at h
  split at h
  · cases h
  split at h
  · cases h
  next name hname =>
  obtain ⟨dir, hdir, rfl⟩ := map_eq_some_iff.mp h
  obtain ⟨hwl, -⟩ := filter_eq_some_iff.mp hdir
  obtain ⟨hls, -⟩ := filter_eq_some_iff.mp hname
  have hne : p.components ≠ [] := by
    intro hnil
    rw [hnil] at hls
    cases hls
  have hdr : dotDot ∉ p.components.dropLast := fun hmem =>
    hdt (dropLast_subset _ hmem)
  rw [getLast?_eq_getLast_of_ne_nil hne, some.injEq] at hls
  rw [walk_eq hdr hwl, nil_append, ← hls, dropLast_append_getLast hne]
  exact ⟨rfl, hne⟩

theorem entry_valid (h : t.entry p = some loc) : validPath p = true := by
  unfold entry at h
  split at h
  · cases h
  rename_i hvl
  simp only [Bool.or_eq_true, Bool.not_eq_true', not_or, Bool.not_eq_false] at hvl
  exact hvl.2

theorem entry_parent (h : t.entry p = some loc) :
    loc ≠ [] ∧ t.node loc.dropLast = some .directory := by
  unfold entry at h
  split at h
  · cases h
  split at h
  · cases h
  obtain ⟨dir, hdir, rfl⟩ := map_eq_some_iff.mp h
  obtain ⟨-, his⟩ := filter_eq_some_iff.mp hdir
  rw [dropLast_concat]
  exact ⟨by simp, beq_iff_eq.mp his⟩

end FileTree

namespace Disk

variable {d d' d'' : Disk} {p : Path} {loc : Location} {inside : Location → Prop}

def put (d : Disk) (loc : Location) (node : Node) : Disk :=
  ⟨d.tree.put loc node, d.changed ++ [loc]⟩

def unlink (d : Disk) (loc : Location) : Disk := ⟨d.tree.unlink loc, d.changed ++ [loc]⟩

def writeFile (d : Disk) (p : Path) (content : List Char) : Option Disk :=
  (d.tree.entry p).bind fun loc =>
    match d.tree.node loc with
    | none => some (d.put loc (.file content))
    | some (.file _) => some (d.put loc (.file content))
    | _ => none

def removeEntry (d : Disk) (loc : Location) : Option Disk :=
  match d.tree.node loc with
  | none => none
  | some .directory => none
  | some _ => some (d.unlink loc)

def removeFile (d : Disk) (p : Path) : Option Disk := (d.tree.entry p).bind d.removeEntry

def rename (d : Disk) (source target : Path) : Option Disk :=
  (d.tree.entry source).bind fun a => (d.tree.entry target).bind fun b =>
    match d.tree.node a, d.tree.node b with
    | some (.file _), some .directory => none
    | some (.file content), _ => some ((d.unlink a).put b (.file content))
    | _, _ => none

def makeDirectories (d : Disk) : Location → List Name → Option Disk
  | _, [] => some d
  | cur, c :: names =>
    if c = dotDot then makeDirectories d cur.dropLast names
    else match d.tree.node (cur ++ [c]) with
      | none => makeDirectories (d.put (cur ++ [c]) .directory) (cur ++ [c]) names
      | some .directory => makeDirectories d (cur ++ [c]) names
      | _ => none

def createDirAll (d : Disk) (p : Path) : Option Disk :=
  if FileTree.validPath p then d.makeDirectories [] p.components else none

/-- Nothing changes outside the given places. -/
structure Within (inside : Location → Prop) (d d' : Disk) : Prop where
  frame : ∀ loc, ¬inside loc → d'.tree.node loc = d.tree.node loc
  record : ∃ new, d'.changed = d.changed ++ new ∧ ∀ loc ∈ new, inside loc

theorem Within.refl (d : Disk) : Within inside d d :=
  ⟨fun _ _ => rfl, [], (append_nil _).symm, by simp⟩

theorem Within.trans (h : Within inside d d') (h' : Within inside d' d'') :
    Within inside d d'' := by
  obtain ⟨new, hnew, hins⟩ := h.record
  obtain ⟨n', hnew', hins'⟩ := h'.record
  refine ⟨fun loc hloc => (h'.frame loc hloc).trans (h.frame loc hloc), new ++ n', ?_, ?_⟩
  · rw [hnew', hnew, append_assoc]
  intro loc hloc
  rcases mem_append.mp hloc with hloc | hloc
  · exact hins loc hloc
  · exact hins' loc hloc

theorem Within.mono (h : Within inside d d')
    (hmo : ∀ loc, inside loc → i' loc) : Within i' d d' := by
  obtain ⟨new, hnew, hins⟩ := h.record
  exact ⟨fun loc hloc => h.frame loc fun hin => hloc (hmo loc hin), new, hnew,
    fun loc hloc => hmo loc (hins loc hloc)⟩

private theorem within_put (hloc : inside loc) (n : Node) : Within inside d (d.put loc n) := by
  refine ⟨fun v hother => ?_, [loc], rfl, by simpa using hloc⟩
  have hne : v ≠ loc := fun heq => hother (heq ▸ hloc)
  exact FileTree.node_put_of_ne hne n

private theorem within_unlink (hloc : inside loc) : Within inside d (d.unlink loc) := by
  refine ⟨fun v hother => ?_, [loc], rfl, by simpa using hloc⟩
  have hne : v ≠ loc := fun heq => hother (heq ▸ hloc)
  exact FileTree.node_unlink_of_ne hne

variable {content : List Char} {source target tgt : Path} {result res : Option Disk}
  {next : Disk → Disk × Bool} {r : Disk × Bool}

theorem writeFile_eq_some (h : d.writeFile p content = some d') :
    ∃ loc, d.tree.entry p = some loc ∧ d' = d.put loc (.file content) ∧
      d'.tree.node loc = some (.file content) := by
  obtain ⟨loc, hloc, hput⟩ := bind_eq_some_iff.mp h
  obtain ⟨hne, hpa⟩ := FileTree.entry_parent hloc
  refine ⟨loc, hloc, ?_⟩
  split at hput
  · next hnd =>
    cases hput
    exact ⟨rfl, (FileTree.node_put hne hpa (by rw [hnd]; simp) _ loc).trans (if_pos rfl)⟩
  · next hnd =>
    cases hput
    exact ⟨rfl, (FileTree.node_put hne hpa (by rw [hnd]; simp) _ loc).trans (if_pos rfl)⟩
  · cases hput

theorem removeEntry_eq_some (h : d.removeEntry loc = some d') :
    d' = d.unlink loc ∧ d'.tree.node loc = none := by
  unfold removeEntry at h
  split at h
  · cases h
  · cases h
  rename_i hnd hkn
  cases h
  refine ⟨rfl, (FileTree.node_unlink (fun hdir => ?_) loc).trans (if_pos rfl)⟩
  rw [hkn, some.injEq] at hdir
  exact hnd hdir

theorem removeFile_eq_some (h : d.removeFile p = some d') :
    ∃ loc, d.tree.entry p = some loc ∧ d' = d.unlink loc ∧ d'.tree.node loc = none := by
  obtain ⟨loc, hloc, hrv⟩ := bind_eq_some_iff.mp h
  exact ⟨loc, hloc, removeEntry_eq_some hrv⟩

theorem rename_eq_some (h : d.rename source tgt = some d') :
    ∃ a b content, d.tree.entry source = some a ∧ d.tree.entry tgt = some b ∧
      d.tree.node a = some (.file content) ∧ d' = (d.unlink a).put b (.file content) ∧
      d'.tree.node b = some (.file content) := by
  obtain ⟨a, ha, h⟩ := bind_eq_some_iff.mp h
  obtain ⟨b, hb, h⟩ := bind_eq_some_iff.mp h
  obtain ⟨hne, hpa⟩ := FileTree.entry_parent hb
  refine ⟨a, b, ?_⟩
  split at h
  · cases h
  · next content hnd hb' =>
    cases h
    refine ⟨content, ha, hb, hnd, rfl, ?_⟩
    have hno : d.tree.node a ≠ some .directory := by rw [hnd]; simp
    have hkp : (d.tree.unlink a).node b ≠ some .directory := by
      rw [FileTree.node_unlink hno]
      split
      · simp
      · exact hb'
    have hpa' : (d.tree.unlink a).node b.dropLast = some .directory := by
      rw [FileTree.node_unlink hno, if_neg]
      · exact hpa
      · rintro rfl
        exact hno hpa
    exact (FileTree.node_put hne hpa' hkp _ b).trans (if_pos rfl)
  · cases h

theorem within_writeFile (h : d.writeFile p content = some d')
    (hins : ∀ loc, d.tree.entry p = some loc → inside loc) : Within inside d d' := by
  obtain ⟨loc, hloc, rfl, -⟩ := writeFile_eq_some h
  exact within_put (hins loc hloc) _

theorem within_removeEntry (h : d.removeEntry loc = some d') (hins : inside loc) :
    Within inside d d' := by
  obtain ⟨rfl, -⟩ := removeEntry_eq_some h
  exact within_unlink hins

theorem within_removeFile (h : d.removeFile p = some d')
    (hins : ∀ loc, d.tree.entry p = some loc → inside loc) : Within inside d d' := by
  obtain ⟨loc, hloc, rfl, -⟩ := removeFile_eq_some h
  exact within_unlink (hins loc hloc)

theorem within_rename (h : d.rename source tgt = some d')
    (hsc : ∀ loc, d.tree.entry source = some loc → inside loc)
    (hta : ∀ loc, d.tree.entry tgt = some loc → inside loc) : Within inside d d' := by
  obtain ⟨a, b, content, ha, hb, -, rfl, -⟩ := rename_eq_some h
  exact (within_unlink (hsc a ha)).trans (within_put (hta b hb) _)

private theorem within_makeDirectories {names : List Name} {cur : Location} (hdt : dotDot ∉ names)
    (h : d.makeDirectories cur names = some d') :
    Within (fun loc => loc <+: cur ++ names ∧ d.tree.node loc = none) d d' := by
  induction names generalizing d cur with
  | nil =>
    rw [makeDirectories, some.injEq] at h
    rw [← h]
    exact Within.refl d
  | cons c names ih =>
    rw [mem_cons, not_or] at hdt
    rw [makeDirectories, if_neg (Ne.symm hdt.1)] at h
    have hap : cur ++ c :: names = cur ++ [c] ++ names := by simp
    split at h
    · next hnn =>
      have hput : Within (fun loc => loc <+: cur ++ c :: names ∧ d.tree.node loc = none) d
          (d.put (cur ++ [c]) .directory) :=
        within_put ⟨hap ▸ prefix_append _ _, hnn⟩ _
      refine hput.trans ((ih hdt.2 h).mono fun loc hloc => ?_)
      rw [hap]
      refine ⟨hloc.1, ?_⟩
      by_cases heq : loc = cur ++ [c]
      · rw [heq, hnn]
      · exact (FileTree.node_put_of_ne heq _).symm.trans hloc.2
    · rw [hap]
      exact ih hdt.2 h
    · cases h

theorem within_createDirAll (hdt : dotDot ∉ p.components) (h : d.createDirAll p = some d') :
    Within (fun loc => loc <+: p.components ∧ d.tree.node loc = none) d d' := by
  unfold createDirAll at h
  split at h
  · have hwi := within_makeDirectories hdt h
    rwa [nil_append] at hwi
  · cases h

/-! ### Programs that stop at the first failure -/

def attempt (d : Disk) (result : Option Disk) : Disk × Bool :=
  match result with
  | some d' => (d', true)
  | none => (d, false)

def andThen (r : Disk × Bool) (next : Disk → Disk × Bool) : Disk × Bool :=
  if r.2 then next r.1 else r

def forEach {α : Type} (items : List α) (body : Disk → α → Disk × Bool) (d : Disk) : Disk × Bool :=
  match items with
  | [] => (d, true)
  | item :: items => andThen (body d item) (forEach items body)

theorem within_attempt (h : ∀ d', res = some d' → Within inside d d') :
    Within inside d (attempt d res).1 := by
  cases res with
  | none => exact Within.refl d
  | some d' => exact h d' rfl

theorem within_andThen (h : Within inside d r.1)
    (hnx : r.2 = true → Within inside r.1 (next r.1).1) : Within inside d (andThen r next).1 := by
  unfold andThen
  split
  · next hok => exact h.trans (hnx hok)
  · exact h

theorem within_forEach (h : ∀ a ∈ xs, ∀ d, Within inside d (b d a).1) (d : Disk) :
    Within inside d (forEach xs b d).1 := by
  induction xs generalizing d with
  | nil => exact Within.refl d
  | cons a xs ih =>
    exact within_andThen (h a mem_cons_self d) fun _ =>
      ih (fun a hitm => h a (mem_cons_of_mem _ hitm)) _

theorem andThen_ok (h : (andThen r next).2 = true) : r.2 = true ∧ andThen r next = next r.1 := by
  unfold andThen at h ⊢
  split at h
  · next hok => exact ⟨hok, if_pos hok⟩
  · next hfail => exact absurd h hfail

theorem attempt_ok (h : (attempt d res).2 = true) : res = some (attempt d res).1 := by
  cases res with
  | none => cases h
  | some d' => rfl

end Disk

end Rustd.Base
