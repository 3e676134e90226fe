import Rustd.Base.Disk

/-!
# Where a path can lead

The entry that a path names depends on the tree only in whether the directories on the way exist.
`CanName p loc` says, from the components alone, that there is a tree in which `p` names an entry at
`loc` that is no directory.
-/

namespace Rustd.Base

open List Option

def enter (cur : Location) (c : Name) : Location := if c = dotDot then cur.dropLast else cur ++ [c]

def visited : Location → List Name → List Location
  | cur, [] => [cur]
  | cur, c :: names => cur :: visited (enter cur c) names

def Path.location (p : Path) : Option Location :=
  p.fileName.map fun name => p.components.dropLast.foldl enter [] ++ [name]

def CanName (p : Path) (loc : Location) : Prop :=
  p.trailing = false ∧ FileTree.validPath p = true ∧ p.location = some loc ∧
    loc ∉ visited [] p.components.dropLast

instance (p : Path) (loc : Location) : Decidable (CanName p loc) := instDecidableAnd

variable {names us : List Name}

/-! ### Paths without parent components -/

private theorem foldl_enter (h : dotDot ∉ names) (cur : Location) :
    names.foldl enter cur = cur ++ names := by
  induction names generalizing cur with
  | nil => rw [foldl_nil, append_nil]
  | cons c names ih =>
    rw [mem_cons, not_or] at h
    rw [foldl_cons, ih h.2, enter, if_neg (Ne.symm h.1), append_assoc, singleton_append]

private theorem length_le_of_mem_visited {cur loc : Location} (h : dotDot ∉ us)
    (hmem : loc ∈ visited cur us) : loc.length ≤ cur.length + us.length := by
  induction us generalizing cur with
  | nil =>
    obtain rfl := mem_singleton.mp hmem
    exact Nat.le_refl _
  | cons c us ih =>
    rw [mem_cons, not_or] at h
    rcases mem_cons.mp hmem with rfl | hmem
    · omega
    have hle := ih h.2 hmem
    rw [enter, if_neg (Ne.symm h.1), length_append, length_singleton] at hle
    rw [length_cons]
    omega

theorem canName_iff (h : dotDot ∉ p.components) {loc : Location} :
    CanName p loc ↔ p.trailing = false ∧ FileTree.validPath p = true ∧ p.components ≠ [] ∧
      loc = p.components := by
  have hdr : dotDot ∉ p.components.dropLast := fun hmem => h (dropLast_subset _ hmem)
  unfold CanName Path.location Path.fileName
  rw [foldl_enter hdr, nil_append]
  rcases eq_nil_or_concat p.components with hnil | ⟨dir, u, hc⟩
  · simp [hnil]
  rw [concat_eq_append] at hc
  rw [hc] at h ⊢
  simp only [mem_append, mem_singleton, not_or] at h
  simp only [getLast?_concat, dropLast_concat, filter_some, map_some,
    bne_iff_ne, ne_eq, Ne.symm h.2, not_false_eq_true, if_true, some.injEq]
  constructor
  · rintro ⟨htg, hvl, rfl, -⟩
    exact ⟨htg, hvl, by simp, rfl⟩
  rintro ⟨htg, hvl, -, rfl⟩
  refine ⟨htg, hvl, rfl, fun hmem => ?_⟩
  have hle := length_le_of_mem_visited h.1 hmem
  rw [length_append, length_singleton, length_nil] at hle
  omega

namespace FileTree

variable {t : FileTree} {cur loc : Location} {names us : List Name} {p : Path}

private theorem walk_cons (t : FileTree) (cur : Location) (c : Name) (us : List Name) :
    t.walk cur (c :: us) = if t.isDirectory cur then t.walk (enter cur c) us else none := by
  rw [walk, enter]
  split
  · split
    · rfl
    · rfl
  · rfl

private theorem walk_filter_eq_some : (t.walk cur us).filter t.isDirectory = some loc ↔
      loc = us.foldl enter cur ∧ ∀ dir ∈ visited cur us, t.isDirectory dir = true := by
  induction us generalizing cur with
  | nil =>
    rw [walk, filter_eq_some_iff, some.injEq]
    simp only [visited, foldl_nil, mem_singleton, forall_eq]
    constructor
    · rintro ⟨rfl, hdir⟩
      exact ⟨rfl, hdir⟩
    · rintro ⟨rfl, hdir⟩
      exact ⟨rfl, hdir⟩
  | cons c us ih =>
    rw [walk_cons, visited, foldl_cons, forall_mem_cons]
    by_cases hdir : t.isDirectory cur = true
    · rw [if_pos hdir, ih]
      exact ⟨fun h => ⟨h.1, hdir, h.2⟩, fun h => ⟨h.1, h.2.2⟩⟩
    rw [if_neg hdir]
    constructor
    · intro h
      cases h
    · intro h
      exact absurd h.2.1 hdir

private theorem entry_eq_some :
    t.entry p = some loc ↔ p.trailing = false ∧ validPath p = true ∧ p.location = some loc ∧
      ∀ dir ∈ visited [] p.components.dropLast, t.isDirectory dir = true := by
  unfold entry Path.location
  cases htg : p.trailing with
  | true => simp
  | false =>
    by_cases hvl : validPath p = true
    · rw [hvl, if_neg (by simp)]
      cases hname : p.fileName with
      | none => simp
      | some n =>
        simp only [map_eq_some_iff, walk_filter_eq_some, some.injEq,
          exists_eq_left', true_and]
        constructor
        · rintro ⟨dir, ⟨rfl, hdrs⟩, rfl⟩
          exact ⟨rfl, hdrs⟩
        · rintro ⟨rfl, hdrs⟩
          exact ⟨_, ⟨rfl, hdrs⟩, rfl⟩
    · rw [if_pos (by simp [hvl])]
      simp [hvl]

theorem canName_of_entry (h : t.entry p = some loc) (hnd : t.node loc ≠ some .directory) :
    CanName p loc := by
  obtain ⟨htg, hvl, hloc, hdrs⟩ := entry_eq_some.mp h
  exact ⟨htg, hvl, hloc, fun hmem => hnd (beq_iff_eq.mp (hdrs loc hmem))⟩

private theorem components_of_fileName (h : p.fileName = some u) :
    p.components = p.components.dropLast ++ [u] ∧ u ≠ dotDot := by
  obtain ⟨hls, hdt⟩ := filter_eq_some_iff.mp h
  refine ⟨?_, bne_iff_ne.mp hdt⟩
  have hne : p.components ≠ [] := by
    intro hnil
    rw [hnil] at hls
    cases hls
  rw [getLast?_eq_getLast_of_ne_nil hne, some.injEq] at hls
  rw [← hls, dropLast_append_getLast hne]

theorem resolve_of_entry (h : t.entry p = some loc) (hnd : t.node loc ≠ none) :
    t.resolve p = some loc := by
  obtain ⟨htg, hvl, hloc, hdrs⟩ := entry_eq_some.mp h
  obtain ⟨u, hname, rfl⟩ := map_eq_some_iff.mp hloc
  obtain ⟨hc, hdt⟩ := components_of_fileName hname
  obtain ⟨hwl, hdir⟩ := filter_eq_some_iff.mp (walk_filter_eq_some.mpr ⟨rfl, hdrs⟩)
  have hall : t.walk [] p.components =
      some (p.components.dropLast.foldl enter [] ++ [u]) := by
    rw [hc, walk_append, ← hc, hwl, bind_some, walk, if_pos hdir, if_neg hdt, walk]
  rw [resolve, if_pos hvl, hall, filter_some, if_pos]
  rw [htg, Bool.not_false, Bool.true_or, Bool.and_true]
  exact isSome_iff_ne_none.mpr hnd

theorem resolve_of_walked (hvl : validPath p = true)
    (h : ∀ dir ∈ visited [] p.components, t.isDirectory dir = true) :
    (t.resolve p).isSome = true := by
  obtain ⟨hwl, hdir⟩ := filter_eq_some_iff.mp (walk_filter_eq_some.mpr ⟨rfl, h⟩)
  have hnd : (t.node (p.components.foldl enter [])).isSome = true := by
    rw [beq_iff_eq.mp hdir]
    rfl
  rw [resolve, if_pos hvl, hwl, filter_some, if_pos]
  · rfl
  · rw [hnd, hdir, Bool.or_true, Bool.and_true]

/-! ### Trees in which a path names something -/

private theorem mem_visited_start (cur : Location) (names : List Name) :
    cur ∈ visited cur names := by
  cases names <;> exact mem_cons_self

private theorem exists_directories (ht : ∀ loc, t.node loc = none ∨ t.node loc = some .directory)
    (hcur : t.isDirectory cur = true) (names : List Name) :
    ∃ t' : FileTree, ∀ loc, t'.node loc =
      if loc ∈ visited cur names then some .directory else t.node loc := by
  induction names generalizing t cur with
  | nil =>
    refine ⟨t, fun loc => ?_⟩
    split
    · next hmem =>
      rw [mem_singleton.mp hmem]
      exact beq_iff_eq.mp hcur
    · rfl
  | cons c names ih =>
    -- the tree in which the next location is a directory, and the others are as before
    obtain ⟨t₁, ht₁⟩ : ∃ t₁ : FileTree, ∀ loc, t₁.node loc =
        if loc = enter cur c then some .directory else t.node loc := by
      by_cases hnx : t.node (enter cur c) = some .directory
      · refine ⟨t, fun loc => ?_⟩
        split
        · next heq => rw [heq, hnx]
        · rfl
      have hdt : c ≠ dotDot := by
        rintro rfl
        rw [enter, if_pos rfl] at hnx
        exact hnx (beq_iff_eq.mp (isDirectory_dropLast hcur))
      rw [enter, if_neg hdt] at hnx ⊢
      refine ⟨t.put (cur ++ [c]) .directory, fun loc => node_put (by simp) ?_ hnx _ loc⟩
      rw [dropLast_concat]
      exact beq_iff_eq.mp hcur
    have hdrs : ∀ loc, t₁.node loc = none ∨ t₁.node loc = some .directory := by
      intro loc
      rw [ht₁]
      split
      · exact .inr rfl
      · exact ht loc
    have hnx : t₁.isDirectory (enter cur c) = true := by
      rw [isDirectory, ht₁, if_pos rfl]
      rfl
    obtain ⟨t', ht'⟩ := ih hdrs hnx
    refine ⟨t', fun loc => ?_⟩
    rw [ht', ht₁, visited]
    by_cases hloc : loc ∈ visited (enter cur c) names
    · rw [if_pos hloc, if_pos (mem_cons_of_mem _ hloc)]
    have hne : loc ≠ enter cur c := fun heq => hloc (heq ▸ mem_visited_start _ _)
    rw [if_neg hloc, if_neg hne]
    by_cases hcr : loc = cur
    · rw [if_pos (hcr ▸ mem_cons_self), hcr]
      exact beq_iff_eq.mp hcur
    rw [if_neg]
    rw [mem_cons, not_or]
    exact ⟨hcr, hloc⟩

theorem exists_walked (us : List Name) :
    ∃ t : FileTree, ∀ loc, t.node loc =
      if loc ∈ visited [] us then some .directory else none := by
  have hempty : ∀ loc, empty.node loc = if loc = [] then some .directory else none := fun _ => rfl
  have hon : ∀ loc, empty.node loc = none ∨ empty.node loc = some .directory := by
    intro loc
    rw [hempty]
    split
    · exact .inr rfl
    · exact .inl rfl
  obtain ⟨t, ht⟩ := exists_directories hon (show empty.isDirectory [] = true from rfl) us
  refine ⟨t, fun loc => ?_⟩
  rw [ht, hempty]
  by_cases hloc : loc ∈ visited [] us
  · rw [if_pos hloc, if_pos hloc]
  · rw [if_neg hloc, if_neg hloc, if_neg]
    exact fun heq => hloc (heq ▸ mem_visited_start [] us)

theorem makeDirectories_of_walked {d : Disk} {names : List Name} {cur : Location}
    (h : ∀ dir ∈ visited cur names, d.tree.isDirectory dir = true) :
    d.makeDirectories cur names = some d := by
  induction names generalizing cur with
  | nil => rfl
  | cons c names ih =>
    rw [visited, forall_mem_cons] at h
    have hnx := h.2 _ (mem_visited_start _ _)
    have hrest := ih h.2
    rw [Disk.makeDirectories]
    unfold enter at hnx hrest
    split at hnx
    · next hdt => rwa [if_pos hdt] at hrest ⊢
    rename_i hdt
    rw [if_neg hdt] at hrest ⊢
    rw [beq_iff_eq.mp hnx]
    exact hrest

theorem exists_missing (h : CanName p loc) :
    ∃ t : FileTree, t.entry p = some loc ∧ t.node loc = none := by
  obtain ⟨htg, hvl, hloc, hfre⟩ := h
  obtain ⟨t, ht⟩ := exists_walked p.components.dropLast
  refine ⟨t, entry_eq_some.mpr ⟨htg, hvl, hloc, fun dir hdir => ?_⟩, ?_⟩
  · rw [isDirectory, ht, if_pos hdir]
    rfl
  · rw [ht, if_neg hfre]

theorem exists_present (h : CanName p loc) :
    ∃ t : FileTree, t.entry p = some loc ∧ t.node loc = some (.file []) := by
  obtain ⟨t, hent, hnd⟩ := exists_missing h
  obtain ⟨hne, hpa⟩ := entry_parent hent
  have hput := node_put hne hpa (by rw [hnd]; simp) (.file [])
  refine ⟨t.put loc (.file []), ?_, by rw [hput, if_pos rfl]⟩
  rw [entry_eq_some] at hent ⊢
  refine ⟨hent.1, hent.2.1, hent.2.2.1, fun dir hdir => ?_⟩
  have hneq : dir ≠ loc := by
    rintro rfl
    exact h.2.2.2 hdir
  rw [isDirectory, hput, if_neg hneq]
  exact hent.2.2.2 dir hdir

end FileTree

end Rustd.Base
