import Rustd.Base.Run
import Rustd.Sysusers.Databases

/-!
# The plan of a run

`src/bin/rustd-sysusers.rs`: three passes over the rules add groups, users and memberships to what
was read. Every pass establishes what its rules ask for and keeps what the others have established,
so planning again from the result adds nothing.
-/

namespace Rustd.Sysusers

open Base List Option Function

/-- `SysUserRule` of `src/bin/rustd-sysusers.rs:46`. -/
inductive SysUserRule where
  | user (name uidSpec gecos home shell : List Char)
  | group (name gidSpec : List Char)
  | member (user group : List Char)
  | range (min max : UInt32)
  deriving DecidableEq

abbrev Users := List Char → Option ExistingUser

abbrev Groups := List Char → Option ExistingGroup

/-- The maps and lists of `main`. -/
structure Plan where
  users : Users
  usedUids : List UInt32
  groups : Groups
  usedGids : List UInt32
  newGroups : List ExistingGroup
  newUsers : List ExistingUser
  newMemberships : List (List Char × List Char)

structure Host where
  sbinNologin : Bool
  usrSbinNologin : Bool
  deriving DecidableEq

/-- `allocate_next_id` of `src/bin/rustd-sysusers.rs:289`. -/
def allocateNextId (used : List UInt32) (preferred : Option UInt32) (min max : Nat) : UInt32 :=
  let candidates := preferred.toList ++
    (List.range' min (max + 1 - min) ++ List.range' 1000 59000).map Nat.toUInt32
  (candidates.find? fun id => id ∉ used).getD 65534

variable (host : Host) (plan pl : Plan) (name u uidSpec : List Char)

def addGroup (preferred : Option UInt32) : Plan :=
  let gid := allocateNextId plan.usedGids preferred 100 999
  let new : ExistingGroup := ⟨name, gid, []⟩
  { plan with
    usedGids := gid :: plan.usedGids
    groups := update plan.groups name (some new)
    newGroups := plan.newGroups ++ [new] }

def parseId (text : List Char) : Option UInt32 :=
  (parseUnsigned (2 ^ 32) text).map Nat.toUInt32

/-- The first pass. -/
def processGroup : SysUserRule → Plan
  | .group name gidSpec =>
    if (plan.groups name).isSome then plan else addGroup plan name (parseId gidSpec)
  | _ => plan

def ensureGroup : Plan × UInt32 :=
  match plan.groups name with
  | some group => (plan, group.gid)
  | none => (addGroup plan name none, allocateNextId plan.usedGids none 100 999)

def userGroup : Plan × UInt32 :=
  match splitOnce ':' uidSpec with
  | some (_, group) =>
    match parseId group with
    | some gid => (plan, gid)
    | none => ensureGroup plan group
  | none => ensureGroup plan name

def defaultShell : List Char :=
  if host.sbinNologin then "/sbin/nologin".toList
  else if host.usrSbinNologin then "/usr/sbin/nologin".toList
  else "/bin/false".toList

/-- A field of a rule, or what stands for `-`. -/
def orElse (field default : List Char) : List Char := if field = "-".toList then default else field

/-- Part of `main`, `src/bin/rustd-sysusers.rs:309`. -/
def addUser (gid : UInt32) (name uidSpec gecos home shell : List Char) : Plan :=
  let target := ((splitOnce ':' uidSpec).map Prod.fst).getD uidSpec
  let uid := allocateNextId plan.usedUids (parseId target) 100 999
  let new : ExistingUser := ⟨name, uid, gid, orElse gecos name, orElse home "/".toList,
    orElse shell (defaultShell host)⟩
  { plan with
    usedUids := uid :: plan.usedUids
    users := update plan.users name (some new)
    newUsers := plan.newUsers ++ [new] }

/-- The second pass. -/
def processUser : SysUserRule → Plan
  | .user name uidSpec gecos home shell =>
    let grouped := userGroup plan name uidSpec
    if (plan.users name).isSome then grouped.1
    else addUser host grouped.1 grouped.2 name uidSpec gecos home shell
  | _ => plan

local instance lawfulBEq_chars : LawfulBEq (List Char) := inferInstance

/-- The third pass. -/
def processMember : SysUserRule → Plan
  | .member user group =>
    match plan.groups group with
    | none => plan
    | some g =>
      if user ∈ g.members then plan
      else
        { plan with
          groups :=
            update plan.groups group (some { g with members := g.members ++ [user] })
          newMemberships := plan.newMemberships ++ [(user, group)] }
  | _ => plan

/-- The plan for some rules. -/
def planRules (rules : List SysUserRule) (start : Plan) : Plan :=
  rules.foldl processMember (rules.foldl (processUser host) (rules.foldl processGroup start))

/-! ### What the rules ask for -/

def wantedGroup : Option (List Char) :=
  match splitOnce ':' uidSpec with
  | some (_, group) => if (parseId group).isSome then none else some group
  | none => some name

def Satisfied (users : Users) (groups : Groups) : SysUserRule → Prop
  | .user name uidSpec _ _ _ =>
    users name ≠ none ∧ ∀ group ∈ wantedGroup name uidSpec, groups group ≠ none
  | .group name _ => groups name ≠ none
  | .member user group => ∀ g, groups group = some g → user ∈ g.members
  | .range _ _ => True

variable {plan pl plan' : Plan} {host : Host} {name u uidSpec : List Char} {rule : SysUserRule}

private theorem userGroup_eq (plan : Plan) (name uidSpec : List Char) :
    (∃ g, wantedGroup name uidSpec = some g ∧
      userGroup plan name uidSpec = ensureGroup plan g) ∨
    wantedGroup name uidSpec = none ∧ (userGroup plan name uidSpec).1 = plan := by
  unfold userGroup wantedGroup
  split
  · next g _ =>
    cases parseId g with
    | some gid => exact .inr ⟨rfl, rfl⟩
    | none => exact .inl ⟨g, rfl, rfl⟩
  · exact .inl ⟨name, rfl, rfl⟩

private theorem ensureGroup_of_some (h : plan.groups u ≠ none) : (ensureGroup plan u).1 = plan := by
  unfold ensureGroup
  split
  · rfl
  · next hnn => exact absurd hnn h

private theorem ensureGroup_of_none (h : pl.groups name = none) :
    (ensureGroup pl name).1 = addGroup pl name none := by
  unfold ensureGroup
  rw [h]

private theorem processGroup_of_satisfied (h : Satisfied plan.users plan.groups rule) :
    processGroup plan rule = plan := by
  cases rule with
  | group name gidSpec =>
    rw [processGroup, if_pos (isSome_iff_ne_none.mpr h)]
  | user | member | range => rfl

private theorem processUser_of_satisfied (h : Satisfied plan.users plan.groups rule) :
    processUser host plan rule = plan := by
  cases rule with
  | user name uidSpec gecos home shell =>
    have hgr : (userGroup plan name uidSpec).1 = plan := by
      rcases userGroup_eq plan name uidSpec with ⟨group, hwn, heq⟩ | ⟨-, heq⟩
      · rw [heq, ensureGroup_of_some (h.2 group hwn)]
      · exact heq
    rw [processUser, if_pos (isSome_iff_ne_none.mpr h.1), hgr]
  | group | member | range => rfl

private theorem processMember_of_satisfied (h : Satisfied plan.users plan.groups rule) :
    processMember plan rule = plan := by
  cases rule with
  | member user group =>
    rw [processMember]
    split
    · rfl
    · next g hg => rw [if_pos (h g hg)]
  | user | group | range => rfl

private theorem foldl_of_fixes {r : List SysUserRule} {step : Plan → SysUserRule → Plan}
    (h : ∀ rule ∈ r, step plan rule = plan) : r.foldl step plan = plan := by
  induction r with
  | nil => rfl
  | cons rule r ih =>
    rw [foldl_cons, h rule mem_cons_self]
    exact ih fun rule hrl => h rule (mem_cons_of_mem _ hrl)

theorem planRules_of_satisfied
    (h : ∀ rule ∈ r, Satisfied plan.users plan.groups rule) : planRules host r plan = plan := by
  rw [planRules, foldl_of_fixes fun rule hrl => processGroup_of_satisfied (h rule hrl),
    foldl_of_fixes fun rule hrl => processUser_of_satisfied (h rule hrl),
    foldl_of_fixes fun rule hrl => processMember_of_satisfied (h rule hrl)]

/-! ### What a pass keeps -/

structure Grows (plan plan' : Plan) : Prop where
  users : ∀ k, plan.users k ≠ none → plan'.users k ≠ none
  groups : ∀ k g, plan.groups k = some g → ∃ g', plan'.groups k = some g' ∧ g.members ⊆ g'.members

theorem Grows.refl (plan : Plan) : Grows plan plan :=
  ⟨fun _ h => h, fun _ g h => ⟨g, h, List.Subset.refl _⟩⟩

theorem Grows.trans {plan'' : Plan} (h : Grows pl plan') (h' : Grows plan' plan'') :
    Grows pl plan'' := by
  refine ⟨fun k hk => h'.users k (h.users k hk), fun k g hg => ?_⟩
  obtain ⟨g', hg', hsub⟩ := h.groups k g hg
  obtain ⟨g'', hg'', hsub'⟩ := h'.groups k g' hg'
  exact ⟨g'', hg'', List.Subset.trans hsub hsub'⟩

private theorem Grows.group_ne_none (h : Grows pl plan') (hk : pl.groups k ≠ none) :
    plan'.groups k ≠ none := by
  obtain ⟨g, hg⟩ := ne_none_iff_exists'.mp hk
  obtain ⟨g', hg', -⟩ := h.groups k g hg
  rw [hg']
  exact some_ne_none _

private theorem grows_addGroup (h : pl.groups name = none) (p : Option UInt32) :
    Grows pl (addGroup pl name p) := by
  refine ⟨fun _ hk => hk, fun k g hg => ⟨g, ?_, List.Subset.refl _⟩⟩
  have hne : k ≠ name := by
    rintro rfl
    rw [h] at hg
    cases hg
  change update pl.groups name _ k = some g
  rw [update_of_ne hne, hg]

private theorem grows_ensureGroup (plan : Plan) (name : List Char) :
    Grows plan (ensureGroup plan name).1 := by
  by_cases h : plan.groups name = none
  · rw [ensureGroup_of_none h]
    exact grows_addGroup h none
  · rw [ensureGroup_of_some h]
    exact Grows.refl plan

private theorem grows_userGroup (plan : Plan) (name uidSpec : List Char) :
    Grows plan (userGroup plan name uidSpec).1 := by
  rcases userGroup_eq plan name uidSpec with ⟨g, -, heq⟩ | ⟨-, heq⟩
  · rw [heq]
    exact grows_ensureGroup plan g
  · rw [heq]
    exact Grows.refl plan

private theorem grows_processGroup (pl : Plan) (rule : SysUserRule) :
    Grows pl (processGroup pl rule) := by
  cases rule with
  | group name gidSpec =>
    rw [processGroup]
    split
    · exact Grows.refl pl
    · next hnn => exact grows_addGroup (by simpa using hnn) _
  | user | member | range => exact Grows.refl pl

private theorem grows_addUser (pl : Plan) (gid : UInt32) {ge home s : List Char} :
    Grows pl (addUser host pl gid name uidSpec ge home s) := by
  refine ⟨fun k hk => ?_, fun k g hg => ⟨g, hg, List.Subset.refl _⟩⟩
  unfold addUser
  dsimp only
  by_cases hname : k = name
  · rw [hname, update_self]
    exact some_ne_none _
  · rw [update_of_ne hname]
    exact hk

private theorem grows_processUser (pl : Plan) (rule : SysUserRule) :
    Grows pl (processUser host pl rule) := by
  cases rule with
  | user name uidSpec gecos home shell =>
    refine (grows_userGroup pl name uidSpec).trans ?_
    rw [processUser]
    split
    · exact Grows.refl _
    · exact grows_addUser _ _
  | group | member | range => exact Grows.refl pl

private theorem grows_processMember (pl : Plan) (rule : SysUserRule) :
    Grows pl (processMember pl rule) ∧
      ∀ k, pl.groups k = none → (processMember pl rule).groups k = none := by
  cases rule with
  | member user group =>
    rw [processMember]
    split
    · exact ⟨Grows.refl pl, fun _ h => h⟩
    rename_i g hg
    split
    · exact ⟨Grows.refl pl, fun _ h => h⟩
    refine ⟨⟨fun _ hk => hk, fun k g' hg' => ?_⟩, fun k hk => ?_⟩
    · by_cases hgr : k = group
      · subst hgr
        rw [hg] at hg'
        cases hg'
        exact ⟨_, update_self .., subset_append_left _ _⟩
      · exact ⟨g', (update_of_ne hgr ..).trans hg', List.Subset.refl _⟩
    · have hgr : k ≠ group := by
        rintro rfl
        rw [hg] at hk
        cases hk
      exact (update_of_ne hgr ..).trans hk
  | user | group | range => exact ⟨Grows.refl pl, fun _ h => h⟩

/-! ### What a pass establishes -/

private theorem establishes_group (pl : Plan) (g : List Char) :
    (processGroup pl (.group name g)).groups name ≠ none := by
  rw [processGroup]
  split
  · next hsome => exact isSome_iff_ne_none.mp hsome
  change update pl.groups name _ name ≠ none
  rw [update_self]
  exact some_ne_none _

private theorem establishes_ensureGroup (pl : Plan) (name : List Char) :
    (ensureGroup pl name).1.groups name ≠ none := by
  by_cases h : pl.groups name = none
  · rw [ensureGroup_of_none h]
    change update pl.groups name _ name ≠ none
    rw [update_self]
    exact some_ne_none _
  · rw [ensureGroup_of_some h]
    exact h

private theorem establishes_user (plan : Plan) (ge home shell : List Char) :
    let plan' := processUser host plan (.user name uidSpec ge home shell)
    Satisfied plan'.users plan'.groups (.user name uidSpec ge home shell) := by
  intro plan'
  have hgp : ∀ g ∈ wantedGroup name uidSpec,
      (userGroup plan name uidSpec).1.groups g ≠ none := by
    intro g hgr
    rcases userGroup_eq plan name uidSpec with ⟨g', hwn, heq⟩ | ⟨hnn, -⟩
    · rw [hwn] at hgr
      cases hgr
      rw [heq]
      exact establishes_ensureGroup plan g
    · rw [hnn] at hgr
      cases hgr
  by_cases hsome : (plan.users name).isSome = true
  · have heq : plan' = (userGroup plan name uidSpec).1 := by
      simp only [plan', processUser]
      rw [if_pos hsome]
    rw [heq]
    refine ⟨?_, hgp⟩
    exact (grows_userGroup plan name uidSpec).users name (isSome_iff_ne_none.mp hsome)
  · have heq : plan' = addUser host (userGroup plan name uidSpec).1
        (userGroup plan name uidSpec).2 name uidSpec ge home shell := by
      simp only [plan', processUser]
      rw [if_neg hsome]
    rw [heq]
    refine ⟨?_, hgp⟩
    change update (userGroup plan name uidSpec).1.users name _ name ≠ none
    rw [update_self]
    exact some_ne_none _

private theorem establishes_member (pl : Plan) (usr gp : List Char) :
    let plan' := processMember pl (.member usr gp)
    Satisfied plan'.users plan'.groups (.member usr gp) := by
  intro plan' g' hg'
  simp only [plan', processMember] at hg'
  split at hg'
  · next hnn =>
    rw [hnn] at hg'
    cases hg'
  next g hg =>
  split at hg'
  · next hmem =>
    rw [hg] at hg'
    cases hg'
    exact hmem
  change update pl.groups gp _ gp = some g' at hg'
  rw [update_self] at hg'
  cases hg'
  exact mem_append_right _ (mem_singleton_self _)

def SysUserRule.pass : SysUserRule → Nat
  | .group _ _ => 1
  | .user _ _ _ _ _ => 2
  | .member _ _ => 3
  | .range _ _ => 0

private theorem Satisfied.of_grows (h : Satisfied plan.users plan.groups rule) (hrl : rule.pass ≠ 3)
    (hgw : Grows plan plan') : Satisfied plan'.users plan'.groups rule := by
  cases rule with
  | group name gidSpec => exact hgw.group_ne_none h
  | user name uidSpec gecos home shell =>
    exact ⟨hgw.users _ h.1, fun group hgr => hgw.group_ne_none (h.2 group hgr)⟩
  | member user group => exact absurd rfl hrl
  | range min max => trivial

private theorem satisfied_processMember (h : Satisfied pl.users pl.groups rule)
    (v : SysUserRule) : Satisfied (processMember pl v).users
      (processMember pl v).groups rule := by
  obtain ⟨hgw, hnn⟩ := grows_processMember pl v
  by_cases hrl : rule.pass = 3
  · cases rule with
    | member user group =>
      intro g' hg'
      cases hg : pl.groups group with
      | none =>
        rw [hnn group hg] at hg'
        cases hg'
      | some g =>
        obtain ⟨g'', hg'', hsub⟩ := hgw.groups group g hg
        rw [hg''] at hg'
        cases hg'
        exact hsub (h g hg)
    | group | user | range => cases hrl
  · exact h.of_grows hrl hgw

theorem satisfied_planRules (host : Host) (rs : List SysUserRule) (start : Plan)
    (rule : SysUserRule) (hrl : rule ∈ rs) :
    Satisfied (planRules host rs start).users (planRules host rs start).groups rule := by
  have hmm : ∀ pl, Grows pl (rs.foldl processMember pl) := fun pl =>
    foldl_keeps (Grows pl) (fun p r h => h.trans (grows_processMember p r).1) rs (Grows.refl pl)
  have huse : ∀ pl, Grows pl (rs.foldl (processUser host) pl) := fun pl =>
    foldl_keeps (Grows pl) (fun p r h => h.trans (grows_processUser p r)) rs (Grows.refl pl)
  -- each pass establishes the rules that belong to it
  have hgr := foldl_establishes processGroup
    (fun r p => r.pass = 1 → Satisfied p.users p.groups r)
    (fun p r hps => by
      cases r with
      | group name gidSpec => exact establishes_group p gidSpec
      | user | member => cases hps
      | range min max => cases hps)
    (fun p r r' h hps => (h hps).of_grows (by omega) (grows_processGroup p r)) rs start
    rule hrl
  have husr := foldl_establishes (processUser host)
    (fun r p => r.pass = 2 → Satisfied p.users p.groups r)
    (fun p r hps => by
      cases r with
      | group name gidSpec => cases hps
      | user name uidSpec gecos home shell => exact establishes_user p gecos home shell
      | member user group => cases hps
      | range min max => cases hps)
    (fun p r r' h hps => (h hps).of_grows (by omega) (grows_processUser p r)) rs
    (rs.foldl processGroup start) rule hrl
  have hme := foldl_establishes processMember
    (fun r p => r.pass = 3 → Satisfied p.users p.groups r)
    (fun p r hps => by
      cases r with
      | group | user => cases hps
      | member user group => exact establishes_member p user group
      | range min max => cases hps)
    (fun p r r' h hps => satisfied_processMember (h hps) r) rs
    (rs.foldl (processUser host) (rs.foldl processGroup start)) rule hrl
  cases rule with
  | group name gidSpec =>
    have hrest := (huse (rs.foldl processGroup start)).trans (hmm _)
    exact (hgr rfl).of_grows (by simp [SysUserRule.pass]) hrest
  | user name uidSpec gecos home shell =>
    exact (husr rfl).of_grows (by simp [SysUserRule.pass]) (hmm _)
  | member user group => exact hme rfl
  | range min max => trivial

/-! ### What is new in a plan -/

def withAdded (memberships : List (List Char × List Char)) (k : List Char) (g : ExistingGroup) :
    ExistingGroup :=
  { g with members := g.members ++ (memberships.filter fun m => m.2 = k).map Prod.fst }

structure Planned (users₀ : Users) (groups₀ : Groups) (plan : Plan) : Prop where
  users : ∀ k, plan.users k = (plan.newUsers.find? fun u => u.name = k).or (users₀ k)
  usersDistinct : plan.newUsers.Pairwise fun u v => u.name ≠ v.name
  usersFresh : ∀ u ∈ plan.newUsers, users₀ u.name = none
  groups : ∀ k, plan.groups k = ((plan.newGroups.find? fun g => g.name = k).or (groups₀ k)).map
    (withAdded plan.newMemberships k)
  groupsDistinct : plan.newGroups.Pairwise fun g g' => g.name ≠ g'.name
  groupsFresh : ∀ g ∈ plan.newGroups, groups₀ g.name = none ∧ g.members = []
  present : ∀ m ∈ plan.newMemberships, plan.groups m.2 ≠ none

variable {users : Users} {groups : Groups}

private theorem find?_concat {α : Type} (key : α → List Char) (xs : List α) (l : α)
    (k : List Char) :
    ((xs ++ [l]).find? fun a => key a = k) =
      (xs.find? fun a => key a = k).or (if key l = k then some l else none) := by
  rw [find?_append, find?_singleton]
  simp

private theorem planned_addGroup (h : Planned users groups pl) (hnn : pl.groups name = none)
    (hme : pl.newMemberships = []) (p : Option UInt32) :
    Planned users groups (addGroup pl name p) := by
  have hbs := h.groups name
  rw [hnn, eq_comm, map_eq_none_iff, or_eq_none_iff] at hbs
  have had : ∀ k, (withAdded pl.newMemberships k) = id := by
    intro k
    funext g
    simp [withAdded, hme]
  refine ⟨h.users, h.usersDistinct, h.usersFresh, fun k => ?_, ?_, ?_, ?_⟩
  · change update pl.groups name _ k = _
    unfold addGroup
    dsimp only
    rw [find?_concat, had, Option.map_id, id]
    by_cases hk : k = name
    · subst hk
      rw [update_self, hbs.1, if_pos rfl]
      rfl
    · rw [update_of_ne hk, if_neg (Ne.symm hk), h.groups, had, Option.map_id, id, or_none]
  · change (pl.newGroups ++ [_]).Pairwise _
    rw [pairwise_append]
    refine ⟨h.groupsDistinct, pairwise_singleton _ _, fun g hg g' hg' => ?_⟩
    rw [mem_singleton.mp hg']
    exact of_decide_eq_false (by simpa using find?_eq_none.mp hbs.1 g hg)
  · intro g hg
    rcases mem_append.mp hg with hg | hg
    · exact h.groupsFresh g hg
    · rw [mem_singleton.mp hg]
      exact ⟨hbs.2, rfl⟩
  · intro m hm
    change m ∈ pl.newMemberships at hm
    rw [hme] at hm
    cases hm

private theorem planned_addUser (h : Planned users groups pl) (hnn : pl.users name = none)
    (gid : UInt32) {g home s : List Char} :
    Planned users groups (addUser host pl gid name uidSpec g home s) := by
  have hbs := h.users name
  rw [hnn, eq_comm, or_eq_none_iff] at hbs
  refine ⟨fun k => ?_, ?_, ?_, h.groups, h.groupsDistinct, h.groupsFresh, h.present⟩
  · change update pl.users name _ k = _
    unfold addUser
    dsimp only
    rw [find?_concat]
    by_cases hk : k = name
    · subst hk
      rw [update_self, hbs.1, if_pos rfl]
      rfl
    · rw [update_of_ne hk, if_neg (Ne.symm hk), h.users, or_none]
  · change (pl.newUsers ++ [_]).Pairwise _
    rw [pairwise_append]
    refine ⟨h.usersDistinct, pairwise_singleton _ _, fun u hu u' hu' => ?_⟩
    rw [mem_singleton.mp hu']
    exact of_decide_eq_false (by simpa using find?_eq_none.mp hbs.1 u hu)
  · intro u hu
    rcases mem_append.mp hu with hu | hu
    · exact h.usersFresh u hu
    · rw [mem_singleton.mp hu]
      exact hbs.2

structure Early (users : Users) (groups : Groups) (plan : Plan) : Prop where
  planned : Planned users groups plan
  memberships : plan.newMemberships = []

private theorem early_ensureGroup (h : Early users groups pl) (name : List Char) :
    Early users groups (ensureGroup pl name).1 := by
  by_cases hnn : pl.groups name = none
  · rw [ensureGroup_of_none hnn]
    exact ⟨planned_addGroup h.planned hnn h.memberships none, h.memberships⟩
  · rwa [ensureGroup_of_some hnn]

private theorem early_processGroup (h : Early users groups pl) (rule : SysUserRule) :
    Early users groups (processGroup pl rule) := by
  cases rule with
  | group name gidSpec =>
    rw [processGroup]
    split
    · exact h
    rename_i hnn
    have hnn : pl.groups name = none := by simpa using hnn
    exact ⟨planned_addGroup h.planned hnn h.memberships _, h.memberships⟩
  | user | member | range => exact h

private theorem early_processUser (h : Early users groups plan) (rule : SysUserRule) :
    Early users groups (processUser host plan rule) := by
  cases rule with
  | user name uidSpec gecos home shell =>
    have hgr : Early users groups (userGroup plan name uidSpec).1 ∧
        (userGroup plan name uidSpec).1.users = plan.users := by
      rcases userGroup_eq plan name uidSpec with ⟨group, -, heq⟩ | ⟨-, heq⟩
      · rw [heq]
        refine ⟨early_ensureGroup h group, ?_⟩
        unfold ensureGroup
        split
        · rfl
        · rfl
      · rw [heq]
        exact ⟨h, rfl⟩
    rw [processUser]
    split
    · exact hgr.1
    rename_i hnn
    have hnn : plan.users name = none := by simpa using hnn
    exact ⟨planned_addUser hgr.1.planned (hgr.2 ▸ hnn) _, hgr.1.memberships⟩
  | group | member | range => exact h

private theorem planned_processMember (h : Planned users groups pl) (rule : SysUserRule) :
    Planned users groups (processMember pl rule) := by
  cases rule with
  | member user group =>
    rw [processMember]
    split
    · exact h
    rename_i g hg
    split
    · exact h
    refine ⟨h.users, h.usersDistinct, h.usersFresh, fun k => ?_, h.groupsDistinct,
      h.groupsFresh, fun m hm => ?_⟩
    · dsimp only
      by_cases hk : k = group
      · subst hk
        have hbs := h.groups k
        rw [hg, eq_comm, map_eq_some_iff] at hbs
        obtain ⟨base, hfn, rfl⟩ := hbs
        rw [update_self, hfn, map_some]
        simp [withAdded]
      · have hsa : withAdded (pl.newMemberships ++ [(user, group)]) k =
            withAdded pl.newMemberships k := by
          funext g
          simp [withAdded, Ne.symm hk]
        rw [update_of_ne hk, h.groups, hsa]
    · dsimp only at hm ⊢
      by_cases hk : m.2 = group
      · rw [hk, update_self]
        exact some_ne_none _
      rw [update_of_ne hk]
      rcases mem_append.mp hm with hm | hm
      · exact h.present m hm
      · rw [mem_singleton.mp hm] at hk
        exact absurd rfl hk
  | user | group | range => exact h

private theorem early_planRules (host : Host) (rs : List SysUserRule) (start : Plan)
    (hgp : start.newGroups = []) (huse : start.newUsers = []) (hme : start.newMemberships = []) :
    Early start.users start.groups
      (rs.foldl (processUser host) (rs.foldl processGroup start)) := by
  have hstr : Early start.users start.groups start := by
    refine ⟨⟨fun k => ?_, ?_, ?_, fun k => ?_, ?_, ?_, ?_⟩, hme⟩
    · rw [huse]
      rfl
    · rw [huse]
      exact List.Pairwise.nil
    · rw [huse]
      exact fun u hu => by cases hu
    · rw [hgp, hme]
      cases start.groups k with
      | none => rfl
      | some g => simp [withAdded]
    · rw [hgp]
      exact List.Pairwise.nil
    · rw [hgp]
      exact fun g hg => by cases hg
    · rw [hme]
      exact fun m hm => by cases hm
  have hgp := foldl_keeps (Early start.users start.groups)
    (fun _ r h => early_processGroup h r) rs hstr
  exact foldl_keeps (Early start.users start.groups) (fun _ r h => early_processUser h r) rs hgp

theorem planned_planRules (host : Host) (rs : List SysUserRule) (start : Plan)
    (hgp : start.newGroups = []) (huse : start.newUsers = []) (hme : start.newMemberships = []) :
    Planned start.users start.groups (planRules host rs start) :=
  foldl_keeps (Planned start.users start.groups) (fun _ r h => planned_processMember h r) rs
    (early_planRules host rs start hgp huse hme).planned

private theorem Planned.groups_of_some (h : Planned users groups pl) (hnil : pl.newMemberships = [])
    {g : ExistingGroup} (hg : groups k = some g) : pl.groups k = some g := by
  have hfind : (pl.newGroups.find? fun g => g.name = k) = none := by
    refine find?_eq_none.mpr fun g' hg' hname => ?_
    have hfresh := (h.groupsFresh g' hg').1
    rw [of_decide_eq_true hname, hg] at hfresh
    cases hfresh
  rw [h.groups, hfind, hg, hnil]
  simp [withAdded]

private theorem Planned.mem_newGroups (h : Planned users groups pl) (hnil : pl.newMemberships = [])
    (hnone : groups k = none) {g : ExistingGroup} (hg : pl.groups k = some g) :
    g ∈ pl.newGroups ∧ g.name = k := by
  rw [h.groups, hnone, hnil, or_none] at hg
  obtain ⟨g', hfind, rfl⟩ := map_eq_some_iff.mp hg
  have hsame : withAdded [] k g' = g' := by simp [withAdded]
  rw [hsame]
  exact ⟨mem_of_find?_eq_some hfind, by simpa using find?_some hfind⟩

private theorem Planned.groups_ne_none (h : Planned users groups pl) {g : ExistingGroup}
    (hg : g ∈ pl.newGroups) : pl.groups g.name ≠ none := by
  rw [h.groups, Ne, map_eq_none_iff, or_eq_none_iff, find?_eq_none]
  rintro ⟨hnone, -⟩
  exact hnone g hg (decide_eq_true rfl)

/-! ### What the rules add -/

/-- The GECOS, home and shell of a user that is added for a rule. -/
def SysUserRule.fieldsFor (host : Host) (k : List Char) :
    SysUserRule → Option (List Char × List Char × List Char)
  | .user name _ gecos home shell =>
    if name = k then
      some (orElse gecos name, orElse home "/".toList, orElse shell (defaultShell host))
    else none
  | _ => none

def ExistingUser.fields (u : ExistingUser) : List Char × List Char × List Char :=
  (u.gecos, u.home, u.shell)

/-- The rule asks for the group. -/
def SysUserRule.Wants (k : List Char) : SysUserRule → Prop
  | .user name uidSpec _ _ _ => wantedGroup name uidSpec = some k
  | .group name _ => name = k
  | _ => False

/-- Every new group is one that a rule wants. -/
def AllWanted (rs : List SysUserRule) (pl : Plan) : Prop :=
  ∀ g ∈ pl.newGroups, ∃ r ∈ rs, r.Wants g.name

variable {rs : List SysUserRule} {r : SysUserRule}

private theorem users_userGroup (pl : Plan) (name uidSpec : List Char) :
    (userGroup pl name uidSpec).1.users = pl.users ∧
      (userGroup pl name uidSpec).1.newUsers = pl.newUsers := by
  rcases userGroup_eq pl name uidSpec with ⟨g, -, heq⟩ | ⟨-, heq⟩
  · rw [heq]
    by_cases hg : pl.groups g = none
    · rw [ensureGroup_of_none hg]
      exact ⟨rfl, rfl⟩
    · rw [ensureGroup_of_some hg]
      exact ⟨rfl, rfl⟩
  · rw [heq]
    exact ⟨rfl, rfl⟩

private theorem newUsers_processUser (host : Host) (pl : Plan) (rule : SysUserRule)
    (k : List Char) :
    ((processUser host pl rule).newUsers.find? (·.name = k)).map ExistingUser.fields =
        ((pl.newUsers.find? (·.name = k)).map ExistingUser.fields).or
          (if pl.users k = none then rule.fieldsFor host k else none) ∧
      ((processUser host pl rule).users k = none ↔
        pl.users k = none ∧ rule.fieldsFor host k = none) := by
  cases rule with
  | user name uidSpec gecos home shell =>
    obtain ⟨husers, hnew⟩ := users_userGroup pl name uidSpec
    simp only [processUser, SysUserRule.fieldsFor]
    by_cases hu : (pl.users name).isSome = true
    · rw [if_pos hu, husers, hnew]
      by_cases hk : name = k
      · subst hk
        simp [isSome_iff_ne_none.mp hu]
      · simp [hk]
    · have hnone : pl.users name = none := by simpa using hu
      rw [if_neg hu]
      simp only [addUser, husers, hnew, find?_concat]
      by_cases hk : name = k
      · subst hk
        cases pl.newUsers.find? (·.name = name) <;> simp [hnone, ExistingUser.fields]
      · rw [update_of_ne (Ne.symm hk)]
        simp [hk]
  | group | member | range => simp [processUser, SysUserRule.fieldsFor]

private theorem newUsers_foldl (host : Host) (rs : List SysUserRule) (pl : Plan) (k : List Char) :
    ((rs.foldl (processUser host) pl).newUsers.find? (·.name = k)).map ExistingUser.fields =
      ((pl.newUsers.find? (·.name = k)).map ExistingUser.fields).or
        (if pl.users k = none then rs.findSome? (·.fieldsFor host k) else none) := by
  induction rs generalizing pl with
  | nil => simp
  | cons rule rs ih =>
    obtain ⟨hfound, hleft⟩ := newUsers_processUser host pl rule k
    rw [foldl_cons, ih, hfound, findSome?_cons]
    by_cases hk : pl.users k = none
    · cases hf : rule.fieldsFor host k with
      | none => simp [hleft, hk, hf]
      | some fields => simp [hleft, hk, hf]
    · simp [hleft, hk]

private theorem passes_keep_users (rs : List SysUserRule) (pl : Plan) :
    ((rs.foldl processGroup pl).users = pl.users ∧
      (rs.foldl processGroup pl).newUsers = pl.newUsers) ∧
    (rs.foldl processMember pl).newUsers = pl.newUsers ∧
      (rs.foldl processMember pl).newGroups = pl.newGroups := by
  refine ⟨foldl_keeps (fun p : Plan => p.users = pl.users ∧ p.newUsers = pl.newUsers) ?_ rs
      ⟨rfl, rfl⟩,
    foldl_keeps (fun p : Plan => p.newUsers = pl.newUsers ∧ p.newGroups = pl.newGroups) ?_ rs
      ⟨rfl, rfl⟩⟩
  · intro p rule h
    cases rule with
    | group name gidSpec =>
      rw [processGroup]
      split
      · exact h
      · exact h
    | user | member | range => exact h
  · intro p rule h
    cases rule with
    | member user group =>
      rw [processMember]
      split
      · exact h
      split
      · exact h
      · exact h
    | user | group | range => exact h

/-- The users that are added are those that the file lacks, each with the fields of the first rule
for its name. -/
theorem newUsers_planRules (host : Host) (rs : List SysUserRule) (start : Plan)
    (hnew : start.newUsers = []) (k : List Char) :
    ((planRules host rs start).newUsers.find? (·.name = k)).map ExistingUser.fields =
      if start.users k = none then rs.findSome? (·.fieldsFor host k) else none := by
  obtain ⟨husers, hnew'⟩ := (passes_keep_users rs start).1
  rw [planRules, (passes_keep_users rs _).2.1, newUsers_foldl, husers, hnew', hnew]
  simp

private theorem allWanted_addGroup (hr : r ∈ rs) (hw : r.Wants name) (h : AllWanted rs pl)
    (p : Option UInt32) : AllWanted rs (addGroup pl name p) := by
  intro g hg
  rcases mem_append.mp hg with hg | hg
  · exact h g hg
  · rw [mem_singleton.mp hg]
    exact ⟨r, hr, hw⟩

private theorem allWanted_processGroup (hr : r ∈ rs) (h : AllWanted rs pl) :
    AllWanted rs (processGroup pl r) := by
  cases r with
  | group name gidSpec =>
    rw [processGroup]
    split
    · exact h
    · exact allWanted_addGroup hr rfl h _
  | user | member | range => exact h

private theorem allWanted_processUser (hr : r ∈ rs) (h : AllWanted rs pl) :
    AllWanted rs (processUser host pl r) := by
  cases r with
  | user name uidSpec gecos home shell =>
    have hgroup : AllWanted rs (userGroup pl name uidSpec).1 := by
      rcases userGroup_eq pl name uidSpec with ⟨group, hwanted, heq⟩ | ⟨-, heq⟩
      · rw [heq]
        by_cases hnone : pl.groups group = none
        · rw [ensureGroup_of_none hnone]
          exact allWanted_addGroup hr hwanted h none
        · rwa [ensureGroup_of_some hnone]
      · rwa [heq]
    rw [processUser]
    split
    · exact hgroup
    · exact hgroup
  | group | member | range => exact h

section

variable (host : Host) (rs : List SysUserRule) (start : Plan) (hgroups : start.newGroups = [])
  (husers : start.newUsers = []) (hmembers : start.newMemberships = [])

include hgroups husers hmembers

/-- The groups that are added are those that a rule wants and the file lacks. -/
theorem newGroups_planRules (k : List Char) :
    (∃ g ∈ (planRules host rs start).newGroups, g.name = k) ↔
      start.groups k = none ∧ ∃ r ∈ rs, r.Wants k := by
  have hplanned := planned_planRules host rs start hgroups husers hmembers
  constructor
  · rintro ⟨g, hg, rfl⟩
    refine ⟨(hplanned.groupsFresh g hg).1, ?_⟩
    rw [planRules, (passes_keep_users rs _).2.2] at hg
    have hstart : AllWanted rs start := by simp [AllWanted, hgroups]
    have hfirst : AllWanted rs (rs.foldl processGroup start) :=
      foldlRecOn rs processGroup hstart fun p h r hr => allWanted_processGroup hr h
    have hsecond : AllWanted rs (rs.foldl (processUser host) (rs.foldl processGroup start)) :=
      foldlRecOn rs (processUser host) hfirst fun p h r hr => allWanted_processUser hr h
    exact hsecond g hg
  · rintro ⟨hnone, r, hr, hw⟩
    have hsome : (planRules host rs start).groups k ≠ none := by
      have hsat := satisfied_planRules host rs start r hr
      cases r with
      | user name uidSpec gecos home shell => exact hsat.2 k hw
      | group name gidSpec => exact hw ▸ hsat
      | member | range => cases hw
    rw [hplanned.groups, hnone, or_none, Ne, map_eq_none_iff] at hsome
    obtain ⟨g, hg⟩ := ne_none_iff_exists'.mp hsome
    exact ⟨g, mem_of_find?_eq_some hg, by simpa using find?_some hg⟩

/-- No membership is added exactly if every `m` rule names a group that the file lacks and no rule
wants, or one that already lists the user. -/
theorem newMemberships_planRules :
    (planRules host rs start).newMemberships = [] ↔
      ∀ user group, .member user group ∈ rs →
        (start.groups group = none ∧ ∀ r ∈ rs, ¬r.Wants group) ∨
          ∃ g, start.groups group = some g ∧ user ∈ g.members := by
  constructor
  · intro hnil user group hmem
    have hplanned := planned_planRules host rs start hgroups husers hmembers
    have hsat : ∀ g, (planRules host rs start).groups group = some g → user ∈ g.members :=
      satisfied_planRules host rs start _ hmem
    cases hstart : start.groups group with
    | some g => exact .inr ⟨g, rfl, hsat g (hplanned.groups_of_some hnil hstart)⟩
    | none =>
      refine .inl ⟨rfl, fun r hr hw => ?_⟩
      obtain ⟨g, hg, rfl⟩ :=
        (newGroups_planRules host rs start hgroups husers hmembers group).mpr ⟨hstart, r, hr, hw⟩
      -- the copy that a new group starts with has no members
      obtain ⟨g', hg'⟩ := ne_none_iff_exists'.mp (hplanned.groups_ne_none hg)
      have hnew := hplanned.mem_newGroups hnil hstart hg'
      have := hsat g' hg'
      rw [(hplanned.groupsFresh g' hnew.1).2] at this
      cases this
  · intro h
    have hearly := early_planRules host rs start hgroups husers hmembers
    have hfix : ∀ rule ∈ rs, processMember
        (rs.foldl (processUser host) (rs.foldl processGroup start)) rule =
          rs.foldl (processUser host) (rs.foldl processGroup start) := by
      intro rule hrule
      cases rule with
      | member user group =>
        refine processMember_of_satisfied fun g hg => ?_
        rcases h user group hrule with ⟨hnone, hunwanted⟩ | ⟨g₀, hg₀, hu⟩
        · obtain ⟨hnew, rfl⟩ := hearly.planned.mem_newGroups hearly.memberships hnone hg
          rw [← (passes_keep_users rs _).2.2] at hnew
          obtain ⟨-, r, hr, hw⟩ :=
            (newGroups_planRules host rs start hgroups husers hmembers g.name).mp ⟨g, hnew, rfl⟩
          exact absurd hw (hunwanted r hr)
        · rw [hearly.planned.groups_of_some hearly.memberships hg₀] at hg
          exact some.inj hg ▸ hu
      | user | group | range => rfl
    rw [planRules, foldl_of_fixes hfix]
    exact hearly.memberships

end

end Rustd.Sysusers
