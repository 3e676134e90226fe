import Rustd.Base.Interference
import Rustd.Base.Reachable

/-!
# Device nodes, links and database records

`src/udev.rs`: `persist_device` as the calls that it makes. Rules and events set all strings of a
device. Names of nodes and of links that are created stay below `/dev`; the id in the database and
the links that are removed need not.
-/

namespace Rustd.Udev

open Base List

/-- The fields of `Device` that `persist_device` reads. -/
structure Device where
  action : List Char
  devpath : List Char
  kernel : List Char
  subsystem : List Char
  properties : List (List Char × List Char)
  name : Option (List Char)
  symlinks : List (List Char)
  tags : List (List Char)
  mode : Option UInt32
  deriving DecidableEq

namespace Device

def get (device : Device) (key : String) : Option (List Char) :=
  device.properties.lookup key.toList

def block (device : Device) : Bool := device.subsystem == "block".toList

end Device

/-- The calls that are made. `dress` stands for setting the permissions, the label and the owner of
a node. -/
inductive Call where
  | makeDirectories (p : Path)
  | makeNode (p : Path) (block : Bool) (mode : UInt32) (major minor : Nat)
  | dress (p : Path) (mode : Option UInt32)
  | removeFile (p : Path)
  | makeLink (target : List Char) (p : Path)
  | writeFile (p : Path) (text : List Char)
  deriving DecidableEq

/-- `trim_start_matches("/dev/")`. -/
def trimDev : List Char → List Char
  | '/' :: 'd' :: 'e' :: 'v' :: '/' :: rest => trimDev rest
  | text => text

variable (device dv : Device)

/-- `device_node` of `src/udev.rs:878`. -/
def deviceNode : Option (List Char) :=
  (device.name.or (device.get "DEVNAME")).bind fun name =>
    let name := trimDev name
    if name ≠ [] ∧ ¬dotDot <:+: name then some ("/dev/".toList ++ name) else none

def makeParent (p : Path) : List (Step Call) :=
  match p.parent with
  | none => []
  | some parent => [⟨.makeDirectories parent, true⟩]

/-- `create_node` of `src/udev.rs:887`. -/
def createNode (node : List Char) : List (Step Call) :=
  match (device.get "MAJOR").bind (parseUnsigned (2 ^ 32)),
      (device.get "MINOR").bind (parseUnsigned (2 ^ 32)) with
  | some major, some minor =>
    let p := Path.ofText node
    makeParent p ++ [⟨.makeNode p device.block (device.mode.getD 0o660) major minor, true⟩,
      ⟨.dress p device.mode, true⟩]
  | _, _ => []

def devDirectory : Path := ⟨["dev".toList], false⟩

def dataDirectory : Path := ⟨["run".toList, "udev".toList, "data".toList], false⟩

/-- `create_symlink` of `src/udev.rs:962`. -/
def createSymlink (link node : List Char) : List (Step Call) :=
  if link.head? = some '/' ∨ dotDot <:+: link then []
  else
    let p := devDirectory.join link
    makeParent p ++ [⟨.removeFile p, false⟩, ⟨.makeLink node p, true⟩]

/-- `database_id` of `src/udev.rs:986`. -/
def databaseId : List Char :=
  match device.get "MAJOR", device.get "MINOR" with
  | some major, some minor => (if device.block then 'b' else 'c') :: (major ++ ':' :: minor)
  | _, _ => '+' :: (device.subsystem ++ ':' :: device.kernel)

def databasePath : Path := dataDirectory.join (databaseId device)

/-- `remove_device` of `src/udev.rs:974`. -/
def removeDevice : List (Step Call) :=
  (deviceNode device).toList.map (fun node => ⟨.removeFile (Path.ofText node), false⟩) ++
    (device.symlinks.filter fun link => ¬dotDot <:+: link).map
      (fun link => ⟨.removeFile (devDirectory.join link), false⟩) ++
    [⟨.removeFile (databasePath device), false⟩]

def recordLine (key : Char) (text : List Char) : List Char := key :: ':' :: (text ++ ['\n'])

/-- The text of the record. -/
def databaseRecord : List Char :=
  recordLine 'P' device.devpath ++
    (deviceNode device).toList.flatMap (fun node => recordLine 'N' (trimDev node)) ++
    device.symlinks.flatMap (recordLine 'S') ++ device.tags.flatMap (recordLine 'G') ++
    device.properties.flatMap fun item => recordLine 'E' (item.1 ++ '=' :: item.2)

def createDevice : List (Step Call) :=
  (deviceNode device).toList.flatMap (fun node =>
    createNode device node ++ device.symlinks.flatMap fun link => createSymlink link node)

/-- `persist_device` of `src/udev.rs:813`. -/
def persistDevice : List (Step Call) :=
  ⟨.makeDirectories dataDirectory, true⟩ ::
    if device.action = "remove".toList then removeDevice device
    else createDevice device ++ [⟨.writeFile (databasePath device) (databaseRecord device), true⟩]

/-! ### What the calls do -/

inductive Change where
  | directory (loc : Location)
  | entry (loc : Location)
  deriving DecidableEq

/-- What a call meets: the tree, the number of entries that it gets to change, and whether it
reports success once it has changed them. -/
structure Moment where
  tree : FileTree
  limit : Nat
  granted : Bool

/-- The entries that a call changes, if it can be carried out on the tree. A node that exists is
kept. -/
def Call.changes (t : FileTree) : Call → Option (List Change)
  | .makeDirectories p => (Disk.createDirAll ⟨t, []⟩ p).map fun d => d.changed.map .directory
  | .makeNode p _ _ _ _ =>
    if (t.resolve p).isSome then some [] else (t.entry p).map fun loc => [.entry loc]
  | .dress _ _ => some []
  | .removeFile p => (Disk.removeFile ⟨t, []⟩ p).map fun d => d.changed.map .entry
  | .makeLink target p =>
    if '\x00' ∈ target then none
    else ((t.entry p).filter fun loc => (t.node loc).isNone).map fun loc => [.entry loc]
  | .writeFile p text => (Disk.writeFile ⟨t, []⟩ p text).map fun d => d.changed.map .entry

def Call.perform (m : Moment) (call : Call) : List Change × Bool :=
  match call.changes m.tree with
  | none => ([], false)
  | some changes => (changes.take m.limit, m.granted && changes.length ≤ m.limit)

/-- The directories that `persist_device` may write to. -/
def roots : List Location := [devDirectory.components, dataDirectory.components]

def Below (loc : Location) : Prop := ∃ dir ∈ roots, dir <+: loc ∧ dir ≠ loc

instance (loc : Location) : Decidable (Below loc) := List.decidableBEx _ _

/-- The changes that are allowed: those below the directories, and the creation of the directories
themselves. -/
def Permitted : Change → Prop
  | .directory loc => Below loc ∨ ∃ dir ∈ roots, loc <+: dir
  | .entry loc => Below loc

/-- Whatever happens to the tree between the calls, only entries below the directories are created
and removed. -/
def Confined : Prop :=
  ∀ moments, ∀ change ∈ Step.run Call.perform (persistDevice device) moments, Permitted change

/-! ### Single calls -/

variable {p : Path} {call : Call} {device dv : Device} {loc : Location}

def Harmless (call : Call) : Prop := ∀ m, ∀ change ∈ (call.perform m).1, Permitted change

def NamesBelow (p : Path) : Prop := ∀ loc, CanName p loc → Below loc

private theorem harmless_of_changes
    (h : ∀ t changes, call.changes t = some changes → ∀ c ∈ changes, Permitted c) :
    Harmless call := by
  intro m c hch
  unfold Call.perform at hch
  split at hch
  · cases hch
  · next changes hcg => exact h _ changes hcg c (take_subset _ _ hch)

variable {text link node : List Char} {t : FileTree} {changes : List Change} {s : Step Call}

private theorem perform_of_changes (h : call.changes t = some changes) :
    call.perform ⟨t, changes.length, true⟩ = (changes, true) := by
  rw [Call.perform, h]
  simp

theorem Harmless.below (h : Harmless call) (hcg : call.changes t = some [.entry loc]) :
    Below loc := by
  refine h ⟨t, [Change.entry loc].length, true⟩ (.entry loc) ?_
  rw [perform_of_changes hcg]
  exact mem_singleton_self _

private theorem changes_removeFile (h : t.entry p = some loc) (hnd : t.node loc = some (.file [])) :
    (Call.removeFile p).changes t = some [.entry loc] := by
  simp [Call.changes, Disk.removeFile, h, Disk.removeEntry, hnd, Disk.unlink]

private theorem changes_writeFile (h : t.entry p = some loc) (hnd : t.node loc = none)
    (text : List Char) : (Call.writeFile p text).changes t = some [.entry loc] := by
  simp [Call.changes, Disk.writeFile, h, hnd, Disk.put]

private theorem harmless_removeFile_iff : Harmless (.removeFile p) ↔ NamesBelow p := by
  constructor
  · intro h loc hloc
    obtain ⟨t, hent, hnd⟩ := FileTree.exists_present hloc
    exact h.below (changes_removeFile hent hnd)
  · intro h
    refine harmless_of_changes fun t changes hcg c hch => ?_
    obtain ⟨d, hd, rfl⟩ := Option.map_eq_some_iff.mp hcg
    obtain ⟨loc, hloc, hrv⟩ := Option.bind_eq_some_iff.mp hd
    obtain ⟨rfl, -⟩ := Disk.removeEntry_eq_some hrv
    obtain rfl := mem_singleton.mp hch
    refine h loc (FileTree.canName_of_entry hloc fun hdir => ?_)
    rw [Disk.removeEntry, hdir] at hrv
    cases hrv

private theorem harmless_writeFile_iff : Harmless (.writeFile p text) ↔ NamesBelow p := by
  constructor
  · intro h loc hloc
    obtain ⟨t, hent, hnd⟩ := FileTree.exists_missing hloc
    exact h.below (changes_writeFile hent hnd text)
  · intro h
    refine harmless_of_changes fun t changes hcg c hch => ?_
    obtain ⟨d, hd, rfl⟩ := Option.map_eq_some_iff.mp hcg
    obtain ⟨loc, hloc, rfl, -⟩ := Disk.writeFile_eq_some hd
    obtain rfl := mem_singleton.mp hch
    refine h loc (FileTree.canName_of_entry hloc fun hdir => ?_)
    rw [Disk.writeFile, hloc, Option.bind_some, hdir] at hd
    cases hd

private theorem harmless_makeNode (h : NamesBelow p) (b : Bool) (mo : UInt32) (ma m : Nat) :
    Harmless (.makeNode p b mo ma m) := by
  refine harmless_of_changes fun t changes hcg c hch => ?_
  rw [Call.changes] at hcg
  split at hcg
  · cases hcg
    cases hch
  rename_i hmg
  obtain ⟨loc, hloc, rfl⟩ := Option.map_eq_some_iff.mp hcg
  obtain rfl := mem_singleton.mp hch
  refine h loc (FileTree.canName_of_entry hloc fun hdir => hmg ?_)
  rw [FileTree.resolve_of_entry hloc (by rw [hdir]; simp)]
  rfl

private theorem harmless_makeLink (h : NamesBelow p) (tgt : List Char) :
    Harmless (.makeLink tgt p) := by
  refine harmless_of_changes fun t changes hcg c hch => ?_
  rw [Call.changes] at hcg
  split at hcg
  · cases hcg
  obtain ⟨loc, hloc, rfl⟩ := Option.map_eq_some_iff.mp hcg
  obtain ⟨hent, hnn⟩ := Option.filter_eq_some_iff.mp hloc
  obtain rfl := mem_singleton.mp hch
  refine h loc (FileTree.canName_of_entry hent fun hdir => ?_)
  rw [hdir] at hnn
  cases hnn

private theorem harmless_makeDirectories (hdt : dotDot ∉ p.components) {dir : Location}
    (hro : dir ∈ roots) (h : dir <+: p.components ∨ p.components <+: dir) :
    Harmless (.makeDirectories p) := by
  refine harmless_of_changes fun t changes hcg change hch => ?_
  obtain ⟨d, hd, rfl⟩ := Option.map_eq_some_iff.mp hcg
  obtain ⟨new, hnew, hins⟩ := (Disk.within_createDirAll hdt hd).record
  obtain ⟨loc, hloc, rfl⟩ := List.mem_map.mp hch
  rw [hnew, nil_append] at hloc
  have hpr := (hins loc hloc).1
  change Below loc ∨ ∃ dir ∈ roots, loc <+: dir
  rcases h with h | h
  · rcases prefix_or_prefix_of_prefix h hpr with hbe | hway
    · by_cases heq : dir = loc
      · exact .inr ⟨dir, hro, heq ▸ prefix_rfl⟩
      · exact .inl ⟨dir, hro, hbe, heq⟩
    · exact .inr ⟨dir, hro, hway⟩
  · exact .inr ⟨dir, hro, hpr.trans h⟩

/-! ### Paths below `/dev` -/

/-- A path into `/dev` that has no parent components. -/
structure IntoDev (p : Path) : Prop where
  dev : devDirectory.components <+: p.components
  dots : dotDot ∉ p.components
  named : p.components = devDirectory.components → p.trailing = true

private theorem namesBelow_of_intoDev (h : IntoDev p) : NamesBelow p := by
  intro loc hloc
  obtain ⟨hname, -, -, rfl⟩ := (canName_iff h.dots).mp hloc
  refine ⟨devDirectory.components, by decide, h.dev, fun heq => ?_⟩
  rw [h.named heq.symm] at hname
  cases hname

private theorem harmless_makeParent (h : IntoDev p) (hs : s ∈ makeParent p) : Harmless s.call := by
  unfold makeParent at hs
  split at hs
  · cases hs
  rename_i parent hpa
  obtain rfl := mem_singleton.mp hs
  unfold Path.parent at hpa
  split at hpa
  · cases hpa
  cases hpa
  refine harmless_makeDirectories (fun hmem => h.dots (dropLast_subset _ hmem))
    (show devDirectory.components ∈ roots by decide) ?_
  have hparent := dropLast_prefix p.components
  exact prefix_or_prefix_of_prefix h.dev hparent

private theorem dotDot_not_mem_componentsOf (h : ¬dotDot <:+: text) : dotDot ∉ componentsOf text :=
  fun hmem => h (isInfix_of_mem_componentsOf hmem)

private theorem intoDev_components (h : ¬dotDot <:+: text) :
    IntoDev ⟨devDirectory.components ++ componentsOf text, endsInDirectory text⟩ := by
  refine ⟨prefix_append _ _, ?_, fun heq => ?_⟩
  · rw [mem_append, not_or]
    exact ⟨by decide, dotDot_not_mem_componentsOf h⟩
  · exact endsInDirectory_of_componentsOf (append_right_eq_self.mp heq)

private theorem intoDev_join (hr : link.head? ≠ some '/') (h : ¬dotDot <:+: link) :
    IntoDev (devDirectory.join link) := by
  rw [Path.join, if_neg hr]
  exact intoDev_components h

private theorem intoDev_deviceNode (h : deviceNode dv = some node) :
    IntoDev (Path.ofText node) := by
  obtain ⟨u, -, hname⟩ := Option.bind_eq_some_iff.mp h
  dsimp only at hname
  split at hname
  · next hkp =>
    cases hname
    have hsls : "/dev/".toList ++ trimDev u = [] ++ '/' :: ("dev".toList ++ '/' :: trimDev u) := rfl
    rw [Path.ofText, hsls, componentsOf_append_slash, componentsOf_append_slash,
      endsInDirectory_append_slash, endsInDirectory_append_slash]
    exact intoDev_components hkp.2
  · cases hname

/-! ### Calls that can succeed -/

private theorem passes_of_changes (h : call.changes t = some changes) (r : Bool) :
    Step.Passes Call.perform ⟨call, r⟩ := by
  intro _
  exact ⟨⟨t, changes.length, true⟩, by rw [perform_of_changes h]⟩

private theorem changes_of_passes (h : Step.Passes Call.perform ⟨call, true⟩) :
    ∃ t changes, call.changes t = some changes := by
  obtain ⟨m, hm⟩ := h rfl
  unfold Call.perform at hm
  split at hm
  · cases hm
  · next changes hcg => exact ⟨m.tree, changes, hcg⟩

private theorem passes_makeDirectories (h : FileTree.validPath p = true) :
    Step.Passes Call.perform ⟨.makeDirectories p, true⟩ := by
  obtain ⟨t, ht⟩ := FileTree.exists_walked p.components
  have hcg : (Call.makeDirectories p).changes t = some [] := by
    rw [Call.changes, Disk.createDirAll, if_pos h, FileTree.makeDirectories_of_walked]
    · rfl
    intro dir hdir
    rw [FileTree.isDirectory, ht, if_pos hdir]
    rfl
  exact passes_of_changes hcg true

private theorem passes_makeParent (h : FileTree.validPath p = true) (hs : s ∈ makeParent p) :
    Step.Passes Call.perform s := by
  unfold makeParent at hs
  split at hs
  · cases hs
  rename_i parent hpa
  obtain rfl := mem_singleton.mp hs
  unfold Path.parent at hpa
  split at hpa
  · cases hpa
  cases hpa
  refine passes_makeDirectories (List.all_eq_true.mpr fun c hc => ?_)
  exact List.all_eq_true.mp h c (dropLast_subset _ hc)

private theorem passes_makeNode_iff :
    Step.Passes Call.perform ⟨.makeNode p b mo ma m, true⟩ ↔ FileTree.validPath p = true := by
  constructor
  · intro h
    obtain ⟨t, changes, hcg⟩ := changes_of_passes h
    rw [Call.changes] at hcg
    split at hcg
    · next hsome =>
      by_contra hvl
      rw [FileTree.resolve, if_neg hvl] at hsome
      cases hsome
    · obtain ⟨loc, hloc, -⟩ := Option.map_eq_some_iff.mp hcg
      exact FileTree.entry_valid hloc
  · intro h
    obtain ⟨t, ht⟩ := FileTree.exists_walked p.components
    have hcg : (Call.makeNode p b mo ma m).changes t = some [] := by
      rw [Call.changes, if_pos]
      refine FileTree.resolve_of_walked h fun dir hdir => ?_
      rw [FileTree.isDirectory, ht, if_pos hdir]
      rfl
    exact passes_of_changes hcg true

private theorem passes_makeLink_iff {tgt : List Char} :
    Step.Passes Call.perform ⟨.makeLink tgt p, true⟩ ↔ '\x00' ∉ tgt ∧ ∃ loc, CanName p loc := by
  constructor
  · intro h
    obtain ⟨t, changes, hcg⟩ := changes_of_passes h
    rw [Call.changes] at hcg
    split at hcg
    · cases hcg
    rename_i hta
    obtain ⟨loc, hloc, -⟩ := Option.map_eq_some_iff.mp hcg
    obtain ⟨hent, hnn⟩ := Option.filter_eq_some_iff.mp hloc
    refine ⟨hta, loc, FileTree.canName_of_entry hent fun hdir => ?_⟩
    rw [hdir] at hnn
    cases hnn
  · rintro ⟨hta, loc, hloc⟩
    obtain ⟨t, hent, hnd⟩ := FileTree.exists_missing hloc
    have hcg : (Call.makeLink tgt p).changes t = some [.entry loc] := by
      rw [Call.changes, if_neg hta, hent, Option.filter_some, hnd]
      rfl
    exact passes_of_changes hcg true

/-! ### The program -/

private theorem confined_iff_harmless :
    Confined dv ↔ ∀ l s r, persistDevice dv = l ++ s :: r →
      (∀ b ∈ l, Step.Passes Call.perform b) → Harmless s.call := by
  constructor
  · intro h l s r hste hbf m c hch
    obtain ⟨moments, hrun⟩ : ∃ moments, c ∈
        Step.run Call.perform (l ++ s :: r) moments := Step.exists_run hbf hch
    rw [← hste] at hrun
    exact h moments c hrun
  · intro h moments c hch
    obtain ⟨l, s, r, m, hste, hbf, hm⟩ := Step.exists_of_mem_run hch
    exact h l s r hste hbf m c hm

def Numbered (device : Device) : Prop :=
  ((device.get "MAJOR").bind (parseUnsigned (2 ^ 32))).isSome = true ∧
    ((device.get "MINOR").bind (parseUnsigned (2 ^ 32))).isSome = true

def Reaches (device : Device) : Prop :=
  ∀ node, deviceNode device = some node →
    (Numbered device → FileTree.validPath (Path.ofText node) = true) ∧
    ∀ link ∈ device.symlinks, link.head? ≠ some '/' → ¬dotDot <:+: link →
      '\x00' ∉ node ∧ FileTree.validPath (devDirectory.join link) = true ∧
        endsInDirectory link = false

/-- The condition: a link that is removed, and the record when it is removed or written, are below
the directories whenever they can exist at all. -/
def KeepsBelow (device : Device) : Prop :=
  (device.action = "remove".toList → ∀ link ∈ device.symlinks, ¬dotDot <:+: link →
    NamesBelow (devDirectory.join link)) ∧
  (device.action = "remove".toList ∨ Reaches device → NamesBelow (databasePath device))

private theorem harmless_dress (p : Path) (m : Option UInt32) : Harmless (.dress p m) := by
  refine harmless_of_changes fun t changes hcg c hch => ?_
  cases hcg
  cases hch

private theorem harmless_createNode (hnd : deviceNode dv = some node)
    (hs : s ∈ createNode dv node) : Harmless s.call := by
  have hdev := intoDev_deviceNode hnd
  unfold createNode at hs
  split at hs
  · rcases mem_append.mp hs with hs | hs
    · exact harmless_makeParent hdev hs
    · rcases mem_cons.mp hs with rfl | hs
      · exact harmless_makeNode (namesBelow_of_intoDev hdev) _ _ _ _
      · obtain rfl := mem_singleton.mp hs
        exact harmless_dress _ _
  · cases hs

private theorem harmless_createSymlink (hs : s ∈ createSymlink link node) : Harmless s.call := by
  unfold createSymlink at hs
  split at hs
  · cases hs
  rename_i hkp
  rw [not_or] at hkp
  have hdev := intoDev_join hkp.1 hkp.2
  rcases mem_append.mp hs with hs | hs
  · exact harmless_makeParent hdev hs
  rcases mem_cons.mp hs with rfl | hs
  · exact harmless_removeFile_iff.mpr (namesBelow_of_intoDev hdev)
  · obtain rfl := mem_singleton.mp hs
    exact harmless_makeLink (namesBelow_of_intoDev hdev) node

private theorem mem_createDevice :
    s ∈ createDevice dv ↔ ∃ node, deviceNode dv = some node ∧
      (s ∈ createNode dv node ∨ ∃ link ∈ dv.symlinks, s ∈ createSymlink link node) := by
  simp only [createDevice, mem_flatMap, Option.mem_toList, mem_append]

private theorem harmless_createDevice (hs : s ∈ createDevice dv) : Harmless s.call := by
  obtain ⟨node, hnd, hs | ⟨link, -, hs⟩⟩ := mem_createDevice.mp hs
  · exact harmless_createNode hnd hs
  · exact harmless_createSymlink hs

private theorem passes_createNode_iff : (∀ s ∈ createNode dv node, Step.Passes Call.perform s) ↔
      (Numbered dv → FileTree.validPath (Path.ofText node) = true) := by
  unfold createNode Numbered
  split
  · next ma m hma hmi =>
    rw [hma, hmi]
    constructor
    · intro h _
      refine passes_makeNode_iff.mp (h _ (mem_append_right _ mem_cons_self))
    intro h s hs
    have hvl := h ⟨rfl, rfl⟩
    rcases mem_append.mp hs with hs | hs
    · exact passes_makeParent hvl hs
    rcases mem_cons.mp hs with rfl | hs
    · exact passes_makeNode_iff.mpr hvl
    · obtain rfl := mem_singleton.mp hs
      exact passes_of_changes (t := FileTree.empty) rfl true
  · next hnn =>
    refine ⟨fun _ hsome => ?_, fun _ s hs => by cases hs⟩
    obtain ⟨ma, hma⟩ := Option.isSome_iff_exists.mp hsome.1
    obtain ⟨m, hmi⟩ := Option.isSome_iff_exists.mp hsome.2
    exact absurd hmi (hnn ma m hma)

private theorem exists_canName_iff (h : IntoDev p) :
    (∃ loc, CanName p loc) ↔ FileTree.validPath p = true ∧ p.trailing = false := by
  constructor
  · rintro ⟨loc, htg, hvl, -, -⟩
    exact ⟨hvl, htg⟩
  rintro ⟨hvl, htg⟩
  refine ⟨p.components, (canName_iff h.dots).mpr ⟨htg, hvl, fun hnil => ?_, rfl⟩⟩
  exact absurd (prefix_nil.mp (hnil ▸ h.dev)) (by decide)

private theorem passes_createSymlink_iff :
    (∀ s ∈ createSymlink link node, Step.Passes Call.perform s) ↔
      (link.head? ≠ some '/' → ¬dotDot <:+: link →
        '\x00' ∉ node ∧ FileTree.validPath (devDirectory.join link) = true ∧
          endsInDirectory link = false) := by
  unfold createSymlink
  split
  · next hskipped =>
    refine ⟨fun _ hr hdt => ?_, fun _ s hs => by cases hs⟩
    exact absurd hskipped (not_or.mpr ⟨hr, hdt⟩)
  next hkp =>
  rw [not_or] at hkp
  have htg : (devDirectory.join link).trailing = endsInDirectory link := by
    rw [Path.join, if_neg hkp.1]
  have hlnk := exists_canName_iff (intoDev_join hkp.1 hkp.2)
  rw [htg] at hlnk
  constructor
  · intro h _ _
    have hpss := h _ (mem_append_right _ (mem_cons_of_mem _ mem_cons_self))
    obtain ⟨hta, hname⟩ := passes_makeLink_iff.mp hpss
    exact ⟨hta, hlnk.mp hname⟩
  intro h s hs
  obtain ⟨hta, hvl⟩ := h hkp.1 hkp.2
  rcases mem_append.mp hs with hs | hs
  · exact passes_makeParent hvl.1 hs
  rcases mem_cons.mp hs with rfl | hs
  · intro hrr
    cases hrr
  · obtain rfl := mem_singleton.mp hs
    exact passes_makeLink_iff.mpr ⟨hta, hlnk.mpr hvl⟩

private theorem passes_createDevice_iff :
    (∀ s ∈ createDevice device, Step.Passes Call.perform s) ↔ Reaches device := by
  constructor
  · intro h node hnd
    refine ⟨passes_createNode_iff.mp fun s hs => ?_, fun link hlnk => ?_⟩
    · exact h s (mem_createDevice.mpr ⟨node, hnd, .inl hs⟩)
    · refine passes_createSymlink_iff.mp fun s hs => ?_
      exact h s (mem_createDevice.mpr ⟨node, hnd, .inr ⟨link, hlnk, hs⟩⟩)
  · intro h s hs
    obtain ⟨node, hnd, hs | ⟨link, hlnk, hs⟩⟩ := mem_createDevice.mp hs
    · exact passes_createNode_iff.mpr (h node hnd).1 s hs
    · exact passes_createSymlink_iff.mpr ((h node hnd).2 link hlnk) s hs

private theorem harmless_dataDirectory : Harmless (.makeDirectories dataDirectory) :=
  harmless_makeDirectories (by decide) (show dataDirectory.components ∈ roots by decide)
    (.inl prefix_rfl)

private theorem passes_dataDirectory :
    Step.Passes Call.perform ⟨.makeDirectories dataDirectory, true⟩ :=
  passes_makeDirectories (by decide)

private theorem mem_removeDevice :
    s ∈ removeDevice dv ↔
      (∃ node, deviceNode dv = some node ∧ s = ⟨.removeFile (Path.ofText node), false⟩) ∨
      (∃ link ∈ dv.symlinks, ¬dotDot <:+: link ∧
        s = ⟨.removeFile (devDirectory.join link), false⟩) ∨
      s = ⟨.removeFile (databasePath dv), false⟩ := by
  simp only [removeDevice, mem_append, List.mem_map, Option.mem_toList, mem_filter,
    decide_eq_true_eq, mem_singleton, or_assoc, and_assoc, @eq_comm _ _ s]

private theorem passes_removeDevice (hs : s ∈ removeDevice dv) : Step.Passes Call.perform s := by
  intro hrr
  rcases mem_removeDevice.mp hs with ⟨node, -, rfl⟩ | ⟨link, -, -, rfl⟩ | rfl
  · cases hrr
  · cases hrr
  · cases hrr

private theorem harmless_of_mem_removeDevice (h : Confined dv)
    (hrv : dv.action = "remove".toList) (hs : s ∈ removeDevice dv) : Harmless s.call := by
  obtain ⟨before, rest, hsl⟩ := append_of_mem hs
  refine confined_iff_harmless.mp h (⟨.makeDirectories dataDirectory, true⟩ :: before) s rest ?_ ?_
  · rw [persistDevice, if_pos hrv, hsl, cons_append]
  intro b hb
  rcases mem_cons.mp hb with rfl | hb
  · exact passes_dataDirectory
  · exact passes_removeDevice (hsl ▸ mem_append_left _ hb)

private theorem not_writeFile_of_mem_makeParent (hs : s ∈ makeParent p) (q : Path)
    (text : List Char) :
    s.call ≠ .writeFile q text := by
  unfold makeParent at hs
  split at hs
  · cases hs
  · obtain rfl := mem_singleton.mp hs
    exact Call.noConfusion

private theorem not_writeFile_of_mem_createDevice (hs : s ∈ createDevice dv) (q : Path)
    (text : List Char) : s.call ≠ .writeFile q text := by
  obtain ⟨node, -, hs | ⟨link, -, hs⟩⟩ := mem_createDevice.mp hs
  · unfold createNode at hs
    split at hs
    · rcases mem_append.mp hs with hs | hs
      · exact not_writeFile_of_mem_makeParent hs q text
      · rcases mem_cons.mp hs with rfl | hs
        · exact Call.noConfusion
        · obtain rfl := mem_singleton.mp hs
          exact Call.noConfusion
    · cases hs
  · unfold createSymlink at hs
    split at hs
    · cases hs
    rcases mem_append.mp hs with hs | hs
    · exact not_writeFile_of_mem_makeParent hs q text
    rcases mem_cons.mp hs with rfl | hs
    · exact Call.noConfusion
    · obtain rfl := mem_singleton.mp hs
      exact Call.noConfusion

private theorem createDevice_of_split {before rest : List (Step Call)} (h : createDevice device ++
        [⟨.writeFile (databasePath device) (databaseRecord device), true⟩] =
      before ++ ⟨.writeFile (databasePath device) (databaseRecord device), true⟩ :: rest)
    (hs : s ∈ createDevice device) : s ∈ before := by
  rcases append_eq_append_iff.mp h with ⟨more, rfl, -⟩ | ⟨more, hall, hls⟩
  · exact mem_append_left _ hs
  rcases more with _ | ⟨first, more⟩
  · rwa [hall, append_nil] at hs
  -- the record would have been written among the calls before it
  obtain rfl := (List.cons.inj hls).1
  have hmem : (⟨.writeFile (databasePath device) (databaseRecord device), true⟩ : Step Call) ∈
      createDevice device := hall ▸ mem_append_right _ mem_cons_self
  exact absurd rfl (not_writeFile_of_mem_createDevice hmem _ _)

/-- `persist_device` creates and removes entries below `/dev` and `/run/udev/data` only, whatever
happens to the tree between its calls, exactly when the record and the links that are removed are
there. -/
theorem confined_iff_keepsBelow (device : Device) : Confined device ↔ KeepsBelow device := by
  constructor
  · intro h
    refine ⟨fun hrv link hlnk hdt => ?_, fun hrh => ?_⟩
    · have hmem := mem_removeDevice.mpr (.inr (.inl ⟨link, hlnk, hdt, rfl⟩))
      exact harmless_removeFile_iff.mp (harmless_of_mem_removeDevice h hrv hmem)
    by_cases hrv : device.action = "remove".toList
    · have hmem : (⟨.removeFile (databasePath device), false⟩ : Step Call) ∈
          removeDevice device := mem_removeDevice.mpr (.inr (.inr rfl))
      exact harmless_removeFile_iff.mp (harmless_of_mem_removeDevice h hrv hmem)
    refine harmless_writeFile_iff.mp (confined_iff_harmless.mp h
      (⟨.makeDirectories dataDirectory, true⟩ :: createDevice device)
      ⟨.writeFile (databasePath device) (databaseRecord device), true⟩ [] ?_ ?_)
    · rw [persistDevice, if_neg hrv, cons_append]
    · intro b hb
      rcases mem_cons.mp hb with rfl | hb
      · exact passes_dataDirectory
      · exact passes_createDevice_iff.mpr (hrh.resolve_left hrv) b hb
  · rintro ⟨hlin, hrecord⟩
    refine confined_iff_harmless.mpr fun l s r hste hbf => ?_
    rcases l with _ | ⟨a, l⟩
    · rw [← (List.cons.inj hste).1]
      exact harmless_dataDirectory
    have hrest := (List.cons.inj hste).2
    split at hrest
    · next hrv =>
      have hs : s ∈ removeDevice device := hrest ▸ mem_append_right _ mem_cons_self
      rcases mem_removeDevice.mp hs with ⟨node, hnd, rfl⟩ | ⟨link, hlnk, hdt, rfl⟩ | rfl
      · exact harmless_removeFile_iff.mpr (namesBelow_of_intoDev (intoDev_deviceNode hnd))
      · exact harmless_removeFile_iff.mpr (hlin hrv link hlnk hdt)
      · exact harmless_removeFile_iff.mpr (hrecord (.inl hrv))
    · have hs : s ∈ createDevice device ++ [⟨.writeFile (databasePath device)
          (databaseRecord device), true⟩] := hrest ▸ mem_append_right _ mem_cons_self
      rcases mem_append.mp hs with hs | hs
      · exact harmless_createDevice hs
      obtain rfl := mem_singleton.mp hs
      refine harmless_writeFile_iff.mpr (hrecord (.inr ?_))
      refine passes_createDevice_iff.mp fun b hb => hbf b ?_
      exact mem_cons_of_mem _ (createDevice_of_split hrest hb)

def removedWith (link : String) : Device :=
  ⟨"remove".toList, "/devices/x".toList, "x".toList, "misc".toList, [], none, [link.toList], [],
    none⟩

def addedIn (subsystem : String) : Device :=
  ⟨"add".toList, "/devices/x".toList, "x".toList, subsystem.toList, [], none, [], [], none⟩

/-- The link of a device that is removed can be any file, and the subsystem of a device that is
added can lead out of the database. -/
theorem persistDevice_not_confined :
    ¬Confined (removedWith "/etc/passwd") ∧ ¬Confined (addedIn "a/../../../../etc/") := by
  constructor
  · intro h
    have hmem : (⟨.removeFile (devDirectory.join "/etc/passwd".toList), false⟩ : Step Call) ∈
        removeDevice (removedWith "/etc/passwd") :=
      mem_removeDevice.mpr (.inr (.inl
        ⟨"/etc/passwd".toList, mem_singleton_self _, by decide, rfl⟩))
    have hbe := harmless_removeFile_iff.mp (harmless_of_mem_removeDevice h rfl hmem)
    exact absurd (hbe ["etc".toList, "passwd".toList] (by decide)) (by decide)
  · intro h
    have hha := confined_iff_harmless.mp h [⟨.makeDirectories dataDirectory, true⟩] _ [] rfl
      (by
        intro b hb
        obtain rfl := mem_singleton.mp hb
        exact passes_dataDirectory)
    have hbe := harmless_writeFile_iff.mp hha
    exact absurd (hbe ["etc".toList, ":x".toList] (by decide)) (by decide)

end Rustd.Udev
