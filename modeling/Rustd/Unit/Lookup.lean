import Rustd.Base.Reachable

/-!
# Lookup of unit files

`src/unit/loader.rs`: a unit name is joined to the search directories, and with `.d` appended to the
search and control directories, as it is. For every name and every loader this says which files can
be read.
-/

namespace Rustd.Unit

open Base List Option

/-- `ManagerScope` of `src/config.rs:15`. -/
inductive ManagerScope where
  | system
  | user
  deriving DecidableEq

/-- `UnitLoader` of `src/unit/loader.rs:337`. -/
structure UnitLoader where
  searchDirs : List Path
  controlDirs : List Path
  scope : ManagerScope

/-- What the file system answers about paths while a unit is loaded: whether the path is a mask,
whether it exists, the text of a file, and the names in a directory. A path that can only lead to a
directory is never read as a file. -/
structure View where
  masked : Path → Bool
  present : Path → Bool
  content : Path → Option (List Char)
  directory : Path → Option (List Name)
  content_named : ∀ p text, content p = some text → ∃ loc, CanName p loc
  directory_valid : ∀ p names, directory p = some names →
    FileTree.validPath p = true ∧ ∀ name ∈ names, PlainName name ∧ '\x00' ∉ name

variable (view : View) (loader : UnitLoader) (name : List Char)

/-- `split_unit_name` of `src/unit/specifier.rs:157`. -/
def splitUnitName : List Char × List Char × List Char :=
  let (base, suffix) := (rsplitOnce '.' name).getD (name, [])
  match splitOnce '@' base with
  | some (stem, inst) => (stem, inst, suffix)
  | none => (base, [], suffix)

/-- Part of `UnitLoader::load`, `src/unit/loader.rs:407`. -/
def templateOf : Option (List Char) :=
  let (stem, inst, suffix) := splitUnitName name
  if inst = [] then none else some (stem ++ "@.".toList ++ suffix)

/-- The search for one text in the directories; `none` if nothing was found, `some none` if a mask
was met. -/
def searchFor (view : View) (dirs : List Path) (text : List Char) : Option (Option Path) :=
  match dirs with
  | [] => none
  | dir :: dirs =>
    if view.masked (dir.join text) then some none
    else if view.present (dir.join text) then some (some (dir.join text))
    else searchFor view dirs text

/-- The instance is given for a template. -/
def findUnitFile : Option (Path × Option (List Char)) :=
  match searchFor view loader.searchDirs name with
  | some found => found.map fun p => (p, none)
  | none =>
    match templateOf name with
    | none => none
    | some template =>
      match searchFor view loader.searchDirs template with
      | some found => found.map fun p => (p, some (splitUnitName name).2.1)
      | none => none

/-- `UnitLoader::builtin_slice` of `src/unit/loader.rs:510`. -/
def builtinSlice : Bool :=
  name == "-.slice".toList || (name == "system.slice".toList && loader.scope == .system)

/-- Part of `UnitLoader::dropin_paths`, `src/unit/loader.rs:555`. -/
def dropinDirs : List Path :=
  (loader.searchDirs.reverse ++ loader.controlDirs).flatMap fun dir =>
    dir.join (name ++ ".d".toList) ::
      (templateOf name).toList.map fun template => dir.join (template ++ ".d".toList)

/-- `UnitLoader::dropin_paths` of `src/unit/loader.rs:555`. -/
def dropinPaths : List Path :=
  (dropinDirs loader name).flatMap fun dir =>
    ((view.directory dir).getD []).filter
      (fun file => (splitExtension file).2 == some "conf".toList)
      |>.insertionSort (· ≤ ·) |>.map dir.join

/-- Part of `UnitLoader::load`, `src/unit/loader.rs:407`. -/
structure Sources where
  path : Path
  inst : Option (List Char)
  base : List Char
  dropins : List (Path × List Char)

/-- The part of `UnitLoader::load` that reads files. -/
def load : Option Sources :=
  if builtinSlice loader name then none
  else match findUnitFile view loader name with
    | none => none
    | some (p, inst) =>
      (view.content p).map fun base =>
        ⟨p, inst, base, (dropinPaths view loader name).filterMap fun q =>
          (view.content q).map fun text => (q, text)⟩

/-- Part of `UnitLoader::load`, `src/unit/loader.rs:407`. -/
def filesRead : List Path :=
  match load view loader name with
  | none => []
  | some sources => sources.path :: sources.dropins.map Prod.fst

/-! ### Where files may be read -/

def directoryLocation (p : Path) : Location := p.components.foldl enter []

/-- The location is directly inside a configured directory, or in a `.d` directory there. -/
def Located (loc : Location) : Prop :=
  ∃ dir ∈ loader.searchDirs ++ loader.controlDirs, ∃ name,
    loc = directoryLocation dir ++ [name] ∨
      ∃ file, loc = directoryLocation dir ++ [name ++ ".d".toList, file]

/-- Only files inside the configured directories are read. -/
def Confined : Prop :=
  ∀ view, ∀ p ∈ filesRead view loader name, ∀ loc, CanName p loc → Located loader loc

def lookupTexts : List (List Char) := name :: (templateOf name).toList

def UnitsInside : Prop :=
  ∀ text ∈ lookupTexts name, ∀ dir ∈ loader.searchDirs, ∀ loc, CanName (dir.join text) loc →
    Located loader loc

def CanBeFound : Prop :=
  ∃ text ∈ lookupTexts name, ∃ dir ∈ loader.searchDirs, ∃ loc, CanName (dir.join text) loc

/-- Every directory of drop-ins is one of the directories, or a `.d` directory there. -/
def DropinsInside : Prop :=
  ∀ p ∈ dropinDirs loader name, FileTree.validPath p = true →
    ∃ dir ∈ loader.searchDirs ++ loader.controlDirs, directoryLocation p = directoryLocation dir ∨
      ∃ stem, directoryLocation p = directoryLocation dir ++ [stem ++ ".d".toList]

/-- The name leads into the configured directories. -/
def KeepsInside : Prop :=
  builtinSlice loader name = true ∨
    UnitsInside loader name ∧ (CanBeFound loader name → DropinsInside loader name)

/-! ### Names of drop-ins -/

variable {view : View} {loader : UnitLoader} {name text : List Char} {p : Path}
  {dirs : List Path}

private theorem mem_of_mem_visited {cur loc : Location} {names : List Name}
    (h : loc ∈ visited cur names) (hc : c ∈ loc) : c ∈ cur ∨ c ∈ names := by
  induction names generalizing cur with
  | nil =>
    rw [mem_singleton.mp h] at hc
    exact .inl hc
  | cons d names ih =>
    rcases mem_cons.mp h with rfl | h
    · exact .inl hc
    rcases ih h with hcur | hmem
    · unfold enter at hcur
      split at hcur
      · exact .inl (dropLast_subset _ hcur)
      rcases mem_append.mp hcur with hcur | hcur
      · exact .inl hcur
      · exact .inr (mem_cons.mpr (.inl (mem_singleton.mp hcur)))
    · exact .inr (mem_cons_of_mem _ hmem)

private theorem exists_conf (names : List Name) :
    ∃ file, PlainName file ∧ '\x00' ∉ file ∧ (splitExtension file).2 = some "conf".toList ∧
      file ∉ names := by
  let stem := List.replicate (names.flatten.length + 1) 'a'
  have hlr : ∀ c ∈ stem ++ '.' :: "conf".toList, c = 'a' ∨ c ∈ ".conf".toList := by
    intro c hc
    rcases mem_append.mp hc with hc | hc
    · exact .inl (eq_of_mem_replicate hc)
    · exact .inr hc
  refine ⟨stem ++ '.' :: "conf".toList, plainName_of_length (fun hmem => ?_) ?_, fun hmem => ?_, ?_,
    ?_⟩
  · exact absurd (hlr _ hmem) (by decide)
  · rw [length_append, length_cons]
    have : ("conf".toList).length = 4 := by decide
    omega
  · exact absurd (hlr _ hmem) (by decide)
  · rw [splitExtension, rsplitOnce_eq_some.mpr ⟨by decide, rfl⟩]
    simp [stem]
  intro hmem
  have hle := (sublist_flatten_of_mem hmem).length_le
  rw [length_append, length_replicate] at hle
  omega

variable {dir q : Path} {file : Name}

private theorem location_join (h : PlainName file) (dir : Path) :
    (dir.join file).location = some (directoryLocation dir ++ [file]) := by
  rw [h.join, Path.location, h.fileName]
  simp [directoryLocation]

private theorem canName_join (hdir : FileTree.validPath dir = true) (h : PlainName file)
    (hnul : '\x00' ∉ file) (hfh : file ∉ dir.components) :
    CanName (dir.join file) (directoryLocation dir ++ [file]) := by
  refine ⟨by rw [h.join], ?_, location_join h dir, fun hmem => ?_⟩
  · rw [h.join, FileTree.validPath, all_append, Bool.and_eq_true]
    refine ⟨hdir, ?_⟩
    simpa using hnul
  rw [h.join, dropLast_concat] at hmem
  have hfil := mem_of_mem_visited hmem (mem_append_right _ (mem_singleton_self file))
  rcases hfil with hfil | hfil
  · cases hfil
  · exact hfh hfil

/-! ### The files that are read -/

private theorem searchFor_eq_some (h : searchFor view dirs text = some (some p)) :
    ∃ dir ∈ dirs, dir.join text = p := by
  induction dirs with
  | nil => cases h
  | cons dir dirs ih =>
    rw [searchFor] at h
    split at h
    · cases h
    split at h
    · cases h
      exact ⟨dir, mem_cons_self, rfl⟩
    · obtain ⟨d', hdir', hp⟩ := ih h
      exact ⟨d', mem_cons_of_mem _ hdir', hp⟩

private theorem searchFor_sole (hm : ∀ q, view.masked q = false)
    (h : ∀ q, view.present q = true ↔ q = p) :
    searchFor view dirs text = if p ∈ dirs.map (·.join text) then some (some p) else none := by
  induction dirs with
  | nil => rfl
  | cons dir dirs ih =>
    rw [searchFor, hm, if_neg (by simp), ih, map_cons]
    by_cases hp : dir.join text = p
    · rw [if_pos ((h _).mpr hp), hp, if_pos mem_cons_self]
    · rw [if_neg (mt (h _).mp hp)]
      simp only [mem_cons, Ne.symm hp, false_or]

private theorem findUnitFile_eq_some (h : findUnitFile view loader name = some (p, i)) :
    ∃ text ∈ lookupTexts name, ∃ dir ∈ loader.searchDirs, dir.join text = p := by
  unfold findUnitFile at h
  split at h
  · next found hse =>
    obtain ⟨q, rfl, hq⟩ := map_eq_some_iff.mp h
    cases hq
    exact ⟨name, mem_cons_self, searchFor_eq_some hse⟩
  split at h
  · cases h
  · next template htemplate =>
    split at h
    · next found hse =>
      obtain ⟨q, rfl, hq⟩ := map_eq_some_iff.mp h
      cases hq
      refine ⟨template, mem_cons_of_mem _ ?_, searchFor_eq_some hse⟩
      exact mem_toList.mpr htemplate
    · cases h

private theorem findUnitFile_sole (hm : ∀ q, view.masked q = false)
    (h : ∀ q, view.present q = true ↔ q = p) {text : List Char}
    (htx : text ∈ lookupTexts name) (hdir : dir ∈ loader.searchDirs) (hp : dir.join text = p) :
    ∃ i, findUnitFile view loader name = some (p, i) := by
  have hmem : p ∈ loader.searchDirs.map (·.join text) := hp ▸ List.mem_map_of_mem hdir
  unfold findUnitFile
  rw [searchFor_sole hm h]
  rcases mem_cons.mp htx with rfl | hte
  · rw [if_pos hmem]
    exact ⟨none, rfl⟩
  split
  · next found hfn =>
    split at hfn
    · cases hfn
      exact ⟨none, rfl⟩
    · cases hfn
  · rw [mem_toList.mp hte]
    dsimp only
    rw [searchFor_sole hm h, if_pos hmem]
    exact ⟨_, rfl⟩

private theorem mem_dropinPaths :
    q ∈ dropinPaths view loader name ↔ ∃ dir ∈ dropinDirs loader name, ∃ us,
      view.directory dir = some us ∧ ∃ file ∈ us,
        (splitExtension file).2 = some "conf".toList ∧ dir.join file = q := by
  unfold dropinPaths
  rw [mem_flatMap]
  refine exists_congr fun dir => and_congr_right fun _ => ?_
  rw [List.mem_map]
  cases view.directory dir with
  | none => simp
  | some us => simp [mem_insertionSort, and_assoc]

private theorem mem_filesRead :
    q ∈ filesRead view loader name ↔ builtinSlice loader name = false ∧ ∃ p i,
      findUnitFile view loader name = some (p, i) ∧ (view.content p).isSome = true ∧
        (q = p ∨ q ∈ dropinPaths view loader name ∧ (view.content q).isSome = true) := by
  unfold filesRead load
  cases hbu : builtinSlice loader name with
  | true => simp
  | false =>
    cases hfnd : findUnitFile view loader name with
    | none => simp
    | some f =>
      obtain ⟨p, i⟩ := f
      cases hbs : view.content p with
      | none => simp [hbs]
      | some b => simp [hbs, mem_filterMap, isSome_iff_exists]

/-! ### The theorem -/

def sampleView (p : Path) (files : List Path) (hfiles : ∀ q ∈ files, ∃ loc, CanName q loc)
    (dir : Path) (names : List Name) (hdir : FileTree.validPath dir = true)
    (hnames : ∀ name ∈ names, PlainName name ∧ '\x00' ∉ name) : View where
  masked _ := false
  present q := q == p
  content q := if q ∈ files then some [] else none
  directory q := if q = dir then some names else none
  content_named q text h := by
    split at h
    · next hmem => exact hfiles q hmem
    · cases h
  directory_valid q found h := by
    split at h
    · next heq =>
      cases h
      rw [heq]
      exact ⟨hdir, hnames⟩
    · cases h

private theorem unitsInside_of_confined (h : Confined loader name)
    (hbu : builtinSlice loader name = false) : UnitsInside loader name := by
  intro text htx dir hdir loc hloc
  -- a file system in which this path is the only file
  let view := sampleView (dir.join text) [dir.join text]
    (fun q hq => ⟨loc, mem_singleton.mp hq ▸ hloc⟩) ⟨[], false⟩ [] rfl
    (fun name hname => by cases hname)
  have hma : ∀ q, view.masked q = false := fun _ => rfl
  obtain ⟨i, hfnd⟩ := findUnitFile_sole hma (fun q => beq_iff_eq) htx hdir rfl
  refine h view (dir.join text) (mem_filesRead.mpr ⟨hbu, _, i, hfnd, ?_, .inl rfl⟩) loc hloc
  change (if dir.join text ∈ [dir.join text] then some [] else none).isSome = true
  rw [if_pos (mem_singleton_self _)]
  rfl

/-- A file in a directory is located exactly when the directory is a configured one or a `.d`
directory there. -/
theorem located_concat_iff {loc : Location} :
    Located loader (loc ++ [file]) ↔ ∃ dir ∈ loader.searchDirs ++ loader.controlDirs,
      loc = directoryLocation dir ∨ ∃ s, loc = directoryLocation dir ++ [s ++ ".d".toList] := by
  refine exists_congr fun dir => and_congr_right fun _ => ?_
  constructor
  · rintro ⟨s, heq | ⟨v, heq⟩⟩
    · exact .inl (append_inj_left' heq rfl)
    · refine .inr ⟨s, ?_⟩
      have hsl : loc ++ [file] =
          (directoryLocation dir ++ [s ++ ".d".toList]) ++ [v] := by
        rw [heq, append_assoc, singleton_append]
      exact append_inj_left' hsl rfl
  · rintro (rfl | ⟨s, rfl⟩)
    · exact ⟨file, .inl rfl⟩
    · exact ⟨s, .inr ⟨file, by simp⟩⟩

private theorem dropinsInside_of_confined (h : Confined loader name)
    (hbu : builtinSlice loader name = false) (hfn : CanBeFound loader name) :
    DropinsInside loader name := by
  intro d hd hvl
  obtain ⟨text, htx, dir, hdir, un, hunt⟩ := hfn
  obtain ⟨file, hpl, hnul, hco, hfh⟩ := exists_conf d.components
  have hfil := canName_join hvl hpl hnul hfh
  -- a file system with the unit file and one drop-in
  let view := sampleView (dir.join text) [dir.join text, d.join file]
    (by
      intro q hq
      rcases mem_cons.mp hq with rfl | hq
      · exact ⟨un, hunt⟩
      · exact ⟨_, mem_singleton.mp hq ▸ hfil⟩)
    d [file] hvl (fun name hname => mem_singleton.mp hname ▸ ⟨hpl, hnul⟩)
  have hcn : ∀ q ∈ [dir.join text, d.join file], (view.content q).isSome = true := by
    intro q hq
    change (if q ∈ [dir.join text, d.join file] then some [] else none).isSome = true
    rw [if_pos hq]
    rfl
  have hma : ∀ q, view.masked q = false := fun _ => rfl
  obtain ⟨i, hfnd⟩ := findUnitFile_sole hma (fun q => beq_iff_eq) htx hdir rfl
  have hmem : d.join file ∈ dropinPaths view loader name :=
    mem_dropinPaths.mpr ⟨d, hd, [file], if_pos rfl, file, mem_singleton_self _, hco, rfl⟩
  have hrea : d.join file ∈ filesRead view loader name :=
    mem_filesRead.mpr ⟨hbu, _, i, hfnd, hcn _ mem_cons_self,
      .inr ⟨hmem, hcn _ (mem_cons_of_mem _ (mem_singleton_self _))⟩⟩
  exact located_concat_iff.mp (h view _ hrea _ hfil)

/-- The files that a name makes the loader read are directly inside the configured directories or
their `.d` directories, whatever the file system holds, exactly when the paths that the name leads
to are. -/
theorem confined_iff_keepsInside (loader : UnitLoader) (name : List Char) :
    Confined loader name ↔ KeepsInside loader name := by
  constructor
  · intro h
    cases hbu : builtinSlice loader name with
    | true => exact .inl hbu
    | false =>
      exact .inr ⟨unitsInside_of_confined h hbu, dropinsInside_of_confined h hbu⟩
  · intro h view q hrea loc hloc
    obtain ⟨hbu, p, i, hfnd, hbs, hq⟩ := mem_filesRead.mp hrea
    obtain ⟨hun, hdr⟩ : UnitsInside loader name ∧
        (CanBeFound loader name → DropinsInside loader name) := by
      refine h.resolve_left fun htru => ?_
      rw [hbu] at htru
      cases htru
    obtain ⟨text, htx, dir, hdir, rfl⟩ := findUnitFile_eq_some hfnd
    rcases hq with rfl | ⟨hq, -⟩
    · exact hun text htx dir hdir loc hloc
    obtain ⟨b, hbs⟩ := isSome_iff_exists.mp hbs
    obtain ⟨un, hunt⟩ := view.content_named _ _ hbs
    obtain ⟨d, hmem, ns, hna, file, hfil, -, rfl⟩ := mem_dropinPaths.mp hq
    obtain ⟨hvl, hpl⟩ := view.directory_valid _ _ hna
    have hins := hdr ⟨text, htx, dir, hdir, un, hunt⟩ d hmem hvl
    have hlo := hloc.2.2.1
    rw [location_join (hpl file hfil).1, some.injEq] at hlo
    rw [← hlo]
    exact located_concat_iff.mpr hins

/-- A name without a slash keeps the loader inside its directories. -/
theorem keepsInside_of_plainName (h : ∀ text ∈ lookupTexts name, PlainName text) :
    KeepsInside loader name := by
  refine .inr ⟨fun text htext dir hdir loc hloc => ?_, fun _ d hd _ => ?_⟩
  · have hlocation := hloc.2.2.1
    rw [location_join (h text htext), some.injEq] at hlocation
    exact ⟨dir, mem_append_left _ hdir, text, .inl hlocation.symm⟩
  · obtain ⟨dir, hdir, text, htext, rfl⟩ : ∃ dir ∈ loader.searchDirs ++ loader.controlDirs,
        ∃ text ∈ lookupTexts name, dir.join (text ++ ".d".toList) = d := by
      simpa [dropinDirs, lookupTexts, or_and_right, exists_or, and_assoc, eq_comm] using hd
    have hnonempty : 0 < text.length := by
      refine length_pos_iff.mpr fun hnil => ?_
      have hkept := (h text htext).kept
      rw [hnil] at hkept
      exact absurd hkept (by decide)
    have hplain : PlainName (text ++ ".d".toList) := by
      refine plainName_of_length ?_ (by rw [length_append]; exact Nat.add_le_add_right hnonempty 2)
      exact not_mem_append (h text htext).noSlash (by decide)
    refine ⟨dir, hdir, .inr ⟨text, ?_⟩⟩
    rw [directoryLocation, hplain.join, foldl_append, foldl_cons, foldl_nil, enter,
      if_neg hplain.notParent, directoryLocation]

def sampleLoader : UnitLoader :=
  ⟨[⟨["etc".toList, "rustd".toList, "system".toList], false⟩], [], .system⟩

/-- Names with a slash make the loader read files elsewhere. -/
theorem unit_names_not_confined :
    ¬Confined sampleLoader "/tmp/x.service".toList ∧
      ¬Confined sampleLoader "../../../tmp/x.service".toList := by
  have hou : ¬Located sampleLoader ["tmp".toList, "x.service".toList] := by
    rintro ⟨dir, hdir, s, hloc⟩
    obtain rfl := mem_singleton.mp hdir
    have hhd : ∀ rest, ["tmp".toList, "x.service".toList] ≠ "etc".toList :: rest :=
      fun rest heq => absurd (List.cons.inj heq).1 (by decide)
    rcases hloc with heq | ⟨file, heq⟩
    · exact hhd _ heq
    · exact hhd _ heq
  constructor
  · intro h
    have hun := unitsInside_of_confined h (by decide)
    exact hou (hun _ mem_cons_self _ mem_cons_self _ (by decide))
  intro h
  have hun := unitsInside_of_confined h (by decide)
  exact hou (hun _ mem_cons_self _ mem_cons_self _ (by decide))

end Rustd.Unit
