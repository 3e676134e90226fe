import Rustd.Sysusers.Plan

/-!
# Applying the plan

`src/bin/rustd-sysusers.rs`: the new groups and users are appended to their files as lines. New
memberships are not written, entries are not checked, and the first new line is joined to whatever
follows the last newline of the file. This says exactly when the files are read as the plan.
-/

namespace Rustd.Sysusers

open Base List Option

/-- The two files; `none` stands for content that is no text and that nothing is read from. -/
structure Files where
  passwd : Option (List Char)
  group : Option (List Char)
  deriving DecidableEq

variable (file : Option (List Char)) (host : Host) (plan pl : Plan) (rules rs : List SysUserRule)
  (files : Files)

/-- `read_passwd`: the users. -/
def readPasswd : Users := fun k =>
  file.bind fun text => passwdTable.read text k

/-- `read_group`: the groups. -/
def readGroup : Groups := fun k =>
  file.bind fun text => groupTable.read text k

def startPlan : Plan where
  users := readPasswd files.passwd
  usedUids := ((files.passwd.map passwdTable.entries).getD []).map ExistingUser.uid
  groups := readGroup files.group
  usedGids := ((files.group.map groupTable.entries).getD []).map ExistingGroup.gid
  newGroups := []
  newUsers := []
  newMemberships := []

def planOf : Plan :=
  planRules host rules (startPlan files)

def appendLines (rows : List (List Char)) : Option (List Char) :=
  file.map fun text => text ++ rows.flatMap (· ++ ['\n'])

/-- The files after a run that is no dry run. The copies of the new groups have no members. -/
def applyPlan : Files where
  passwd := appendLines files.passwd (plan.newUsers.map ExistingUser.line)
  group := appendLines files.group (plan.newGroups.map ExistingGroup.line)

/-- The files are read as the plan, and a second run plans nothing. -/
def Applied : Prop :=
  let plan := planOf host rules files
  let files' := applyPlan plan files
  let second := planOf host rules files'
  (readPasswd files'.passwd = plan.users ∧ readGroup files'.group = plan.groups) ∧
    second.newUsers = [] ∧ second.newGroups = [] ∧ second.newMemberships = []

/-- The new users are read as planned: their fields can stand on a line, no shell ends with white
space, and the first line is not joined to another text (or is read as planned all the same). -/
def UsersKept (new : List ExistingUser) : Prop :=
  match new with
  | [] => True
  | first :: rest => ∃ text, file = some text ∧ (∀ u ∈ first :: rest, u.Clean) ∧
      (∀ u ∈ rest, trimEnd u.shell = u.shell) ∧
      if Blank (lastLine text) then trimEnd first.shell = first.shell
      else passwdTable.parse (lastLine text ++ first.line) = some first

/-- The groups are read as planned: no member is added, names can stand on a line, and the first
line is not joined to another text (or is read as planned all the same). -/
def GroupsKept : Prop :=
  match plan.newGroups with
  | [] => plan.newMemberships = []
  | first :: rest => ∃ text, file = some text ∧
      (∀ g ∈ first :: rest, ColonTable.CleanKey g.name) ∧
      if Blank (lastLine text) then plan.newMemberships = []
      else (∀ m ∈ plan.newMemberships, m.2 = first.name) ∧
        groupTable.parse (lastLine text ++ first.line) = plan.groups first.name

variable {host : Host} {rules rs : List SysUserRule} {files : Files} {plan pl : Plan}
  {file : Option (List Char)} {users : Users} {groups : Groups}

private theorem planned_planOf (host : Host) (rs : List SysUserRule) (files : Files) :
    Planned (readPasswd files.passwd) (readGroup files.group) (planOf host rs files) :=
  planned_planRules host rs (startPlan files) rfl rfl rfl

variable {k text : List Char} {u : ExistingUser} {α : Type} {xs : List α} {key : α → List Char}
  {g : ExistingGroup}

/-! ### Users -/

private theorem clean_of_readPasswd (h : readPasswd file k = some u) : u.Clean := by
  obtain ⟨text, -, hrea⟩ := bind_eq_some_iff.mp h
  obtain ⟨row, hrow, hprs, -⟩ := ColonTable.table_eq_some hrea
  exact clean_of_parse hprs (newline_not_mem_of_mem_lines hrow)

private theorem readPasswd_appendLines_nil :
    readPasswd (appendLines file []) = readPasswd file := by
  cases file with
  | none => rfl
  | some text => simp [appendLines]

private theorem find?_of_mem (hds : xs.Pairwise fun a b => key a ≠ key b)
    (ha : a ∈ xs) : (xs.find? fun b => key b = key a) = some a := by
  induction xs with
  | nil => cases ha
  | cons b xs ih =>
    rw [pairwise_cons] at hds
    rcases mem_cons.mp ha with rfl | ha
    · rw [find?_cons, decide_eq_true rfl]
    · rw [find?_cons, decide_eq_false (hds.1 a ha)]
      exact ih hds.2 ha

private theorem find?_of_forall_ne (h : ∀ a ∈ xs, key a ≠ k) :
    (xs.find? fun b => key b = k) = none :=
  find?_eq_none.mpr fun a ha => by simpa using h a ha

private theorem users_of_mem (h : Planned users groups pl) (hu : u ∈ pl.newUsers) :
    pl.users u.name = some u := by
  rw [h.users, find?_of_mem h.usersDistinct hu]
  rfl

private theorem users_of_forall_ne (h : Planned users groups pl)
    (hk : ∀ u ∈ pl.newUsers, u.name ≠ k) :
    pl.users k = users k := by
  rw [h.users, find?_of_forall_ne hk]
  rfl

/-- A user is read back from a line after white space when the shell does not end with white
space. -/
theorem parse_line_eq_iff (h : u.Clean) (hbl : Blank b) :
    passwdTable.parse (b ++ u.line) = some u ↔ trimEnd u.shell = u.shell := by
  rw [parse_line h hbl, some.injEq]
  constructor
  · intro heq
    exact congrArg ExistingUser.shell heq
  · intro heq
    rw [heq]

private theorem readPasswd_append_eq_iff (h : Planned (readPasswd (some text)) groups pl)
    (hnew : pl.newUsers = a :: l)
    (hcln : ∀ u ∈ a :: l, u.Clean) :
    readPasswd (appendLines (some text) ((a :: l).map ExistingUser.line)) = pl.users ↔
      passwdTable.parse (lastLine text ++ a.line) = some a ∧
        ∀ u ∈ l, trimEnd u.shell = u.shell := by
  have hmem : ∀ u ∈ a :: l, u ∈ pl.newUsers := fun u hu => hnew ▸ hu
  have hiff := ColonTable.read_append_eq_iff passwdTable text ExistingUser.line pl.users
    (fun u hu => h.usersFresh u (hmem u hu))
    (hnew ▸ h.usersDistinct)
    (fun u hu => newline_not_mem_line (hcln u hu))
    (fun u hu => ⟨_, parse_line (hcln u (mem_cons_of_mem _ hu)) blank_nil, rfl⟩)
    ⟨a, users_of_mem h (hmem a mem_cons_self), rfl⟩
  refine hiff.trans ?_
  change passwdTable.parse (lastLine text ++ a.line) = pl.users a.name ∧ _ ↔ _
  rw [users_of_mem h (hmem a mem_cons_self)]
  refine and_congr_right fun _ => ?_
  have hrest : (∀ u ∈ l, passwdTable.parse u.line = pl.users u.name) ↔
      ∀ u ∈ l, trimEnd u.shell = u.shell := by
    refine forall_congr' fun u => imp_congr_right fun hu => ?_
    rw [users_of_mem h (hmem u (mem_cons_of_mem _ hu))]
    exact parse_line_eq_iff (hcln u (mem_cons_of_mem _ hu)) blank_nil
  constructor
  · rintro ⟨hlines, -⟩
    exact hrest.mp hlines
  intro hs
  refine ⟨hrest.mpr hs, fun k hk => ?_⟩
  exact users_of_forall_ne h (hnew ▸ hk)

private theorem readPasswd_eq_iff (h : Planned (readPasswd file) groups pl) :
    readPasswd (appendLines file (pl.newUsers.map ExistingUser.line)) = pl.users ↔
      UsersKept file pl.newUsers := by
  cases hnew : pl.newUsers with
  | nil =>
    rw [map_nil, readPasswd_appendLines_nil]
    refine iff_of_true ?_ trivial
    funext k
    refine (users_of_forall_ne h fun u hu => ?_).symm
    rw [hnew] at hu
    cases hu
  | cons a l =>
    have hrea : readPasswd (appendLines file ((a :: l).map ExistingUser.line)) =
        pl.users → ∀ u ∈ a :: l, u.Clean := by
      intro heq u hu
      have hpln := users_of_mem h (hnew ▸ hu)
      rw [← heq] at hpln
      exact clean_of_readPasswd hpln
    cases file with
    | none =>
      constructor
      · intro heq
        have hnn := congrFun heq a.name
        rw [users_of_mem h (hnew ▸ mem_cons_self)] at hnn
        cases hnn
      · rintro ⟨text, htx, -⟩
        cases htx
    | some text =>
      constructor
      · intro heq
        have hcln := hrea heq
        obtain ⟨hfr, hs⟩ := (readPasswd_append_eq_iff h hnew hcln).mp heq
        refine ⟨text, rfl, hcln, hs, ?_⟩
        split
        · next hbl => exact (parse_line_eq_iff (hcln _ mem_cons_self) hbl).mp hfr
        · exact hfr
      · rintro ⟨s', htx, hcln, hs, hfr⟩
        cases htx
        refine (readPasswd_append_eq_iff h hnew hcln).mpr ⟨?_, hs⟩
        split at hfr
        · next hbl =>
          exact (parse_line_eq_iff (hcln _ mem_cons_self) hbl).mpr hfr
        · exact hfr

/-! ### Groups -/

private theorem cleanKey_of_readGroup (h : readGroup file k = some g) : ColonTable.CleanKey k := by
  obtain ⟨text, -, hrea⟩ := bind_eq_some_iff.mp h
  obtain ⟨row, hrow, hprs, hkey⟩ := ColonTable.table_eq_some hrea
  rw [← hkey]
  exact ColonTable.cleanKey_of_parse hprs (newline_not_mem_of_mem_lines hrow)

private theorem readGroup_appendLines_nil : readGroup (appendLines file []) = readGroup file := by
  cases file with
  | none => rfl
  | some text => simp [appendLines]

private theorem groups_of_mem (h : Planned users groups pl) (hg : g ∈ pl.newGroups) :
    pl.groups g.name = some (withAdded pl.newMemberships g.name g) := by
  rw [h.groups, find?_of_mem h.groupsDistinct hg]
  rfl

private theorem groups_of_forall_ne (h : Planned users groups pl)
    (hk : ∀ g ∈ pl.newGroups, g.name ≠ k) :
    pl.groups k = (groups k).map (withAdded pl.newMemberships k) := by
  rw [h.groups, find?_of_forall_ne hk]
  rfl

private theorem withAdded_eq_iff :
    withAdded me k g = g ↔ ∀ m ∈ me, m.2 ≠ k := by
  have had : withAdded me k g = g ↔
      (me.filter fun m => m.2 = k).map Prod.fst = [] := by
    constructor
    · intro heq
      have hmm := congrArg ExistingGroup.members heq
      exact append_right_eq_self.mp hmm
    · intro hnil
      rw [withAdded, hnil, append_nil]
  rw [had, map_eq_nil_iff, filter_eq_nil_iff]
  simp

private theorem groups_eq_iff (h : Planned users groups pl) (hk : ∀ g ∈ pl.newGroups, g.name ≠ k) :
    pl.groups k = groups k ↔ ∀ m ∈ pl.newMemberships, m.2 ≠ k := by
  have hpln := groups_of_forall_ne h hk
  cases hgr : groups k with
  | none =>
    rw [hgr] at hpln
    refine iff_of_true hpln fun m hm hmk => ?_
    exact h.present m hm (hmk ▸ hpln)
  | some g =>
    rw [hpln, hgr, map_some, some.injEq, withAdded_eq_iff]

private theorem readGroup_append_eq_iff (h : Planned users (readGroup (some text)) pl)
    (hnew : pl.newGroups = a :: l)
    (hcln : ∀ g ∈ a :: l, ColonTable.CleanKey g.name) :
    readGroup (appendLines (some text) ((a :: l).map ExistingGroup.line)) = pl.groups ↔
      groupTable.parse (lastLine text ++ a.line) = pl.groups a.name ∧
        ∀ m ∈ pl.newMemberships, m.2 = a.name := by
  have hmem : ∀ g ∈ a :: l, g ∈ pl.newGroups := fun g hg => hnew ▸ hg
  have hempty : ∀ g ∈ a :: l, g.members = [] := fun g hg => (h.groupsFresh g (hmem g hg)).2
  have hli : ∀ g ∈ l, groupTable.parse g.line = some g := fun g hg =>
    parse_groupLine (hcln g (mem_cons_of_mem _ hg)) (hempty g (mem_cons_of_mem _ hg)) blank_nil
  have hds : (a :: l).Pairwise fun g g' => g.name ≠ g'.name := hnew ▸ h.groupsDistinct
  have hiff := ColonTable.read_append_eq_iff groupTable text ExistingGroup.line pl.groups
    (fun g hg => (h.groupsFresh g (hmem g hg)).1) hds
    (fun g hg => newline_not_mem_groupLine (hcln g hg) (hempty g hg))
    (fun g hg => ⟨g, hli g hg, rfl⟩)
    ⟨_, groups_of_mem h (hmem a mem_cons_self), rfl⟩
  refine hiff.trans (and_congr_right fun _ => ?_)
  have hos : (∀ k, (∀ g ∈ a :: l, groupTable.key g ≠ k) →
      pl.groups k = groupTable.read text k) ↔
      ∀ k, (∀ g ∈ a :: l, g.name ≠ k) → ∀ m ∈ pl.newMemberships, m.2 ≠ k :=
    forall_congr' fun k => imp_congr_right fun hk => groups_eq_iff h (hnew ▸ hk)
  have hrest : (∀ g ∈ l, groupTable.parse g.line = pl.groups (groupTable.key g)) ↔
      ∀ g ∈ l, ∀ m ∈ pl.newMemberships, m.2 ≠ g.name := by
    refine forall_congr' fun g => imp_congr_right fun hg => ?_
    have hpln := groups_of_mem h (hmem g (mem_cons_of_mem _ hg))
    change groupTable.parse g.line = pl.groups g.name ↔ _
    rw [hli g hg, hpln, some.injEq, eq_comm, withAdded_eq_iff]
  rw [hos, hrest]
  constructor
  · rintro ⟨hnn, hkp⟩ m hm
    by_contra hfr
    refine hkp m.2 (fun g hg => ?_) m hm rfl
    rcases mem_cons.mp hg with rfl | hg
    · exact Ne.symm hfr
    · exact (hnn g hg m hm).symm
  · intro hall
    rw [pairwise_cons] at hds
    refine ⟨fun g hg m hm => ?_, fun k hk m hm => ?_⟩
    · rw [hall m hm]
      exact hds.1 g hg
    · rw [hall m hm]
      exact hk a mem_cons_self

private theorem readGroup_eq_iff (h : Planned users (readGroup file) plan) :
    readGroup (appendLines file (plan.newGroups.map ExistingGroup.line)) = plan.groups ↔
      GroupsKept file plan := by
  unfold GroupsKept
  cases hnew : plan.newGroups with
  | nil =>
    have hnn : ∀ k, ∀ g ∈ plan.newGroups, g.name ≠ k := by
      intro k g hg
      rw [hnew] at hg
      cases hg
    rw [map_nil, readGroup_appendLines_nil]
    constructor
    · intro heq
      refine eq_nil_iff_forall_not_mem.mpr fun m hm => ?_
      exact (groups_eq_iff h (hnn m.2)).mp (congrFun heq m.2).symm m hm rfl
    intro hnil
    funext k
    refine ((groups_eq_iff h (hnn k)).mpr fun m hm => ?_).symm
    rw [hnil] at hm
    cases hm
  | cons a l =>
    have hmem : a ∈ plan.newGroups := hnew ▸ mem_cons_self
    have hrea : readGroup (appendLines file ((a :: l).map ExistingGroup.line)) =
        plan.groups → ∀ g ∈ a :: l, ColonTable.CleanKey g.name := by
      intro heq g hg
      have hpln := groups_of_mem h (hnew ▸ hg)
      rw [← heq] at hpln
      exact cleanKey_of_readGroup hpln
    cases file with
    | none =>
      constructor
      · intro heq
        have hnn := congrFun heq a.name
        rw [groups_of_mem h hmem] at hnn
        cases hnn
      · rintro ⟨text, htx, -⟩
        cases htx
    | some text =>
      -- after white space, the first line is read as planned when the group has no new member
      have hfr : Blank (lastLine text) → ColonTable.CleanKey a.name →
          (groupTable.parse (lastLine text ++ a.line) = plan.groups a.name ↔
            ∀ m ∈ plan.newMemberships, m.2 ≠ a.name) := by
        intro hbl hcln
        rw [parse_groupLine hcln (h.groupsFresh a hmem).2 hbl, groups_of_mem h hmem,
          some.injEq, eq_comm, withAdded_eq_iff]
      constructor
      · intro heq
        have hcln := hrea heq
        obtain ⟨hprs, hall⟩ := (readGroup_append_eq_iff h hnew hcln).mp heq
        refine ⟨text, rfl, hcln, ?_⟩
        split
        · next hbl =>
          have hne := (hfr hbl (hcln _ mem_cons_self)).mp hprs
          exact eq_nil_iff_forall_not_mem.mpr fun m hm => hne m hm (hall m hm)
        · exact ⟨hall, hprs⟩
      · rintro ⟨s', htx, hcln, hkp⟩
        cases htx
        refine (readGroup_append_eq_iff h hnew hcln).mpr ?_
        split at hkp
        · next hbl =>
          rw [hkp] at hfr ⊢
          refine ⟨(hfr hbl (hcln _ mem_cons_self)).mpr fun m hm => ?_, fun m hm => ?_⟩
          · cases hm
          · cases hm
        · exact ⟨hkp.2, hkp.1⟩

/-! ### The run -/

/-- All new entries are read as planned. -/
def Kept (host : Host) (rules : List SysUserRule) (files : Files) : Prop :=
  UsersKept files.passwd (planOf host rules files).newUsers ∧
    GroupsKept files.group (planOf host rules files)

/-- After a run the files are read as its plan and a second run plans nothing new, exactly when all
new entries are kept. -/
theorem applied_iff_kept (host : Host) (rules : List SysUserRule) (files : Files) :
    Applied host rules files ↔ Kept host rules files := by
  have hpln := planned_planOf host rules files
  have huse := readPasswd_eq_iff hpln
  have hgp := readGroup_eq_iff hpln
  constructor
  · rintro ⟨⟨hpa, hgr⟩, -⟩
    exact ⟨huse.mp hpa, hgp.mp hgr⟩
  rintro ⟨hpa, hgr⟩
  have hrea := And.intro (huse.mpr hpa) (hgp.mpr hgr)
  refine ⟨hrea, ?_⟩
  -- every rule is satisfied by the files, so the second plan is where it started
  have hsn : planOf host rules (applyPlan (planOf host rules files) files) =
      startPlan (applyPlan (planOf host rules files) files) := by
    refine planRules_of_satisfied fun r hrl => ?_
    have hsa := satisfied_planRules host rules (startPlan files) r hrl
    change Satisfied (readPasswd _) (readGroup _) r
    exact hrea.1.symm ▸ hrea.2.symm ▸ hsa
  rw [hsn]
  exact ⟨rfl, rfl, rfl⟩

/-! ### The condition on the rules and the files -/

/-- What `Kept` asks where both files are text and only white space follows their last newline. -/
structure RulesKept (host : Host) (rules : List SysUserRule) (files : Files) : Prop where
  users : ∀ name gecos home shell, readPasswd files.passwd name = none →
    rules.findSome? (·.fieldsFor host name) = some (gecos, home, shell) →
      ColonTable.CleanKey name ∧ ColonTable.CleanField gecos ∧ ColonTable.CleanField home ∧
        ColonTable.CleanField shell ∧ trimEnd shell = shell
  groups : ∀ name, readGroup files.group name = none → (∃ rule ∈ rules, rule.Wants name) →
    ColonTable.CleanKey name
  members : ∀ user group, .member user group ∈ rules →
    (readGroup files.group group = none ∧ ∀ rule ∈ rules, ¬rule.Wants group) ∨
      ∃ g, readGroup files.group group = some g ∧ user ∈ g.members

private theorem usersKept_iff_of_blank (hblank : Blank (lastLine text)) (new : List ExistingUser) :
    UsersKept (some text) new ↔ ∀ u ∈ new, u.Clean ∧ trimEnd u.shell = u.shell := by
  cases new with
  | nil => simp [UsersKept]
  | cons first rest =>
    simp only [UsersKept, if_pos hblank, some.injEq, exists_eq_left', forall_mem_cons,
      forall_and]
    tauto

private theorem groupsKept_iff_of_blank (hblank : Blank (lastLine text)) (plan : Plan) :
    GroupsKept (some text) plan ↔
      (∀ g ∈ plan.newGroups, ColonTable.CleanKey g.name) ∧ plan.newMemberships = [] := by
  unfold GroupsKept
  cases plan.newGroups with
  | nil => simp
  | cons first rest => simp only [if_pos hblank, some.injEq, exists_eq_left']

private theorem newUsers_planOf (name gecos home shell : List Char) :
    (∃ u ∈ (planOf host rules files).newUsers, u.name = name ∧
        u.fields = (gecos, home, shell)) ↔
      readPasswd files.passwd name = none ∧
        rules.findSome? (·.fieldsFor host name) = some (gecos, home, shell) := by
  have hfields : ((planOf host rules files).newUsers.find? (·.name = name)).map
      ExistingUser.fields = if readPasswd files.passwd name = none then
        rules.findSome? (·.fieldsFor host name) else none :=
    newUsers_planRules host rules (startPlan files) rfl name
  have hplanned := planned_planOf host rules files
  rw [← Option.ite_none_right_eq_some, ← hfields, map_eq_some_iff]
  constructor
  · rintro ⟨u, hu, rfl, hf⟩
    exact ⟨u, find?_of_mem hplanned.usersDistinct hu, hf⟩
  · rintro ⟨u, hfind, hf⟩
    exact ⟨u, mem_of_find?_eq_some hfind, by simpa using find?_some hfind, hf⟩

/-- Where both files end so, the condition is one on the rules and what the files hold. -/
theorem kept_iff_rulesKept {passwd group : List Char} (hpasswd : Blank (lastLine passwd))
    (hgroup : Blank (lastLine group)) :
    Kept host rules ⟨some passwd, some group⟩ ↔ RulesKept host rules ⟨some passwd, some group⟩ := by
  have hnames := newGroups_planRules host rules (startPlan ⟨some passwd, some group⟩) rfl rfl rfl
  have hmembers :=
    newMemberships_planRules host rules (startPlan ⟨some passwd, some group⟩) rfl rfl rfl
  rw [Kept, usersKept_iff_of_blank hpasswd, groupsKept_iff_of_blank hgroup]
  constructor
  · rintro ⟨husers, hgroups, hnil⟩
    refine ⟨fun name gecos home shell hnone hfields => ?_, fun name hnone hwants => ?_,
      hmembers.mp hnil⟩
    · obtain ⟨u, hu, rfl, hf⟩ := (newUsers_planOf name gecos home shell).mpr ⟨hnone, hfields⟩
      obtain ⟨rfl, rfl, rfl⟩ : u.gecos = gecos ∧ u.home = home ∧ u.shell = shell := by
        simpa [ExistingUser.fields] using hf
      obtain ⟨⟨hname, hgecos, hhome, hshell⟩, htrim⟩ := husers u hu
      exact ⟨hname, hgecos, hhome, hshell, htrim⟩
    · obtain ⟨g, hg, rfl⟩ := (hnames name).mpr ⟨hnone, hwants⟩
      exact hgroups g hg
  · rintro ⟨husers, hgroups, hrules⟩
    refine ⟨fun u hu => ?_, fun g hg => ?_, hmembers.mpr hrules⟩
    · obtain ⟨hnone, hfields⟩ := (newUsers_planOf u.name u.gecos u.home u.shell).mp
        ⟨u, hu, rfl, rfl⟩
      obtain ⟨hname, hgecos, hhome, hshell, htrim⟩ := husers _ _ _ _ hnone hfields
      exact ⟨⟨hname, hgecos, hhome, hshell⟩, htrim⟩
    · obtain ⟨hnone, hwants⟩ := (hnames g.name).mp ⟨g, hg, rfl⟩
      exact hgroups g.name hnone hwants

def sampleFiles (groups : String) : Files :=
  ⟨some "root:x:0:0:root:/root:/bin/sh\n".toList, some groups.toList⟩

/-- A new member is not written, and a new group is lost when the file does not end with a
newline. -/
theorem plan_not_applied :
    ¬Applied ⟨true, true⟩ [.member "root".toList "wheel".toList]
      (sampleFiles "root:x:0:\nwheel:x:10:\n") ∧
    ¬Applied ⟨true, true⟩ [.group "kvm".toList "-".toList] (sampleFiles "root:x:0:") := by
  constructor
  · intro h
    have hwh := congrFun h.1.2 "wheel".toList
    revert hwh
    decide +kernel
  intro h
  have hkvm := congrFun h.1.2 "kvm".toList
  revert hkvm
  decide +kernel

end Rustd.Sysusers
